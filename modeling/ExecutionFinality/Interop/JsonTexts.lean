import ExecutionFinality.Interop.CanonicalizerAgreement
import ExecutionFinality.Interop.GoIdentity
import ExecutionFinality.Library.JsonGrammar
import ExecutionFinality.Library.JsonReadings
import ExecutionFinality.Reference.Records

/-! JSON text as the three languages read it: `json.loads`, a `json.Decoder` with `UseNumber`, and
`JSON.parse`. -/
namespace ExecutionFinality
open Utf8 (Bytes)
open KeyedEntries
open JsonDoc (Live)
open Utf16 (Scalar)

def PyVal.reading : JsonReading PyStr PyVal where
  null := .none
  bool := .bool
  num n := if n.IsInteger then .int n.int else .float
  str u := .str (Utf16.codePoints u)
  arr := .list
  key := Utf16.codePoints
  obj es := .dict (es.map fun e => (.str e.1,e.2))

/-- Numbers are tokens; an unpaired surrogate becomes U+FFFD. -/
def Go.readingWith (token : JsonNumber → List Char) : JsonReading GoStr GoAny where
  null := .nil
  bool := .bool
  num n := .number (Utf8.encode (token n))
  str u := .string (Utf8.encode (Utf16.decode u))
  arr := .slice
  key u := Utf8.encode (Utf16.decode u)
  obj := .map

abbrev Go.reading : JsonReading GoStr GoAny := readingWith JsonNumber.text

def Node.reading : JsonReading JsStr JsVal where
  null := .null
  bool := .bool
  num n := .number (Binary64.round n.value)
  str := .string
  arr := .array
  key := id
  obj es := .object (ownOrder es)

/-- `json.loads`, when it returns: `int` refuses a literal beyond the digit limit. -/
def Platform.loads (pf : Platform) (s : List Char) : Option PyVal := do
  let d ← JsonDoc.read s
  if ∀ n ∈ d.numbers, n.IsInteger → pf.Prints n.int then some (PyVal.reading.value d) else none

/-- `dec.Decode(&v)` for an `any`: the first value of the text, whatever follows it -/
def Go.decode (s : List Char) : Option GoAny := (JsonDoc.readFirst s).map fun r => reading.value r.1

def Node.parse (s : List Char) : Option JsVal := (JsonDoc.read s).map reading.value

/-! The canonical bytes that each language gives a text -/

def Platform.TextBytes (pf : Platform) (s : List Char) (b : Bytes) : Prop :=
  ∃ p, pf.loads s = some p ∧ pf.portableCanonicalBytes p = .ok b

def Go.TextBytes (nfc : Nfc) (s : List Char) (b : Bytes) : Prop := ∃ g, decode s = some g ∧ canonical nfc g = .ok b

def Node.TextBytes (pf : Platform) (s : List Char) (b : Bytes) : Prop :=
  ∃ v, parse s = some v ∧ canonicalBytes pf v = .ok b

/-- An integer of the portable range, spelled as one -/
def JsonNumber.Safe (n : JsonNumber) : Prop := n.IsInteger ∧ -maxSafeInteger ≤ n.int ∧ n.int ≤ maxSafeInteger

theorem PyVal.reading_separates : PyVal.reading.Separates fun _ => True := fun _ _ _ _ h => Utf16.codePoints_injective h

theorem Node.reading_separates : Node.reading.Separates fun _ => True := fun _ _ _ _ h => h

theorem Go.reading_separates {token : JsonNumber → List Char} : (readingWith token).Separates Scalar :=
  fun _ _ hk hl h => hk.decode_injective hl (Utf8.encode_injective h)

theorem JsonReading.Separates.anti {κ V : Type} {R : JsonReading κ V} {Q : List UInt16 → Prop}
    (h : R.Separates fun _ => True) : R.Separates Q := fun k l _ _ => h k l trivial trivial

/-! Numbers -/
section
variable {n : JsonNumber}

/-- The decoder yields tokens of the grammar. -/
theorem Go.numberToken_text (n : JsonNumber) : NumberToken n.text := by
  obtain ⟨negative,whole,fraction,exponent⟩ := n
  refine ⟨_,whole,_,_,?_,?_,?_,rfl⟩
  · cases negative <;> simp
  · cases fraction with
    | nil => exact .inl rfl
    | cons d ds => exact .inr ⟨_,⟨by simp [JsonNumber.digitsText],JsonNumber.isDigit_digitsText⟩,rfl⟩
  · cases exponent with
    | none => exact .inl rfl
    | some e =>
      obtain ⟨capital,sign,first,rest⟩ := e
      refine .inr ⟨_,_,_,?_,?_,⟨?_,JsonNumber.isDigit_digitsText⟩,rfl⟩
      · cases capital <;> simp
      · rcases sign with _ | _ | _ <;> simp [JsonExponent.signText]
      · simp [JsonNumber.digitsText]

/-- Only integers are read as integers. -/
theorem Go.setString_number {z : Int} (h : setString (Utf8.encode n.text) = some z) : n.IsInteger ∧ n.int = z := by
  obtain ⟨m,hm,rfl⟩ := numberToken_spelling (numberToken_text n) h
  cases m with
  | int z =>
    rw [Numeral.text,← JsonNumber.text_ofInt] at hm
    rw [JsonNumber.text_injective hm]
    exact ⟨JsonNumber.isInteger_ofInt z,JsonNumber.int_ofInt z⟩
  | negativeZero =>
    have hz : n = .minusZero := JsonNumber.text_injective (hm.trans (by decide))
    cases hz
    exact ⟨⟨rfl,rfl⟩,rfl⟩

theorem JsonNumber.Safe.abs_int_le (h : n.Safe) : |n.int| ≤ 2^53 := by
  have := abs_le.mpr h.2
  unfold maxSafeInteger at this
  omega

theorem JsonNumber.Safe.round (h : n.Safe) : Binary64.round n.value = .finite n.int := by
  rw [value_of_isInteger h.1,Binary64.round_int h.abs_int_le]

end

/-! One document in two languages -/
section
variable {d : JsonDoc}

/-- Integers that Go holds in the plain spelling are what Python holds. -/
theorem goValue_reading {token : JsonNumber → List Char} (h : d.Live (fun n => n.IsInteger ∧ token n = Json.printInt n.int)
    Scalar) : GoValue (PyVal.reading.value d) ((Go.readingWith token).value d) := by
  refine JsonReading.related (r := GoValue) ?_ ?_ (fun n hn => ?_) ?_ ?_ ?_ PyVal.reading_separates.anti
    Go.reading_separates h
  · exact trivial
  · exact fun _ => rfl
  · simp only [PyVal.reading,if_pos hn.1]
    exact congrArg Utf8.encode hn.2
  · rintro _ ⟨cs,rfl⟩
    exact ⟨cs,scalars_codePoints.mpr rfl,by rw [Utf16.decode_encode]⟩
  · exact fun _ _ h => goItems_iff.mpr h
  · intro ms ns _ hn h
    refine ⟨hn,ns,.refl _,goEntries_iff.mpr (List.forall₂_map_left_iff.mpr (h.imp ?_))⟩
    rintro ⟨_,v⟩ ⟨_,w⟩ ⟨⟨_,⟨cs,rfl⟩,rfl,rfl⟩,hv⟩
    exact ⟨⟨_,cs,rfl,scalars_codePoints.mpr rfl,congrArg Utf8.encode (Utf16.decode_encode cs)⟩,hv⟩

theorem goValue_value (h : d.Live (fun n => n.IsInteger ∧ n ≠ .minusZero) Scalar) :
    GoValue (PyVal.reading.value d) (Go.reading.value d) :=
  goValue_reading (h.imp (fun _ hn => ⟨hn.1,JsonNumber.text_of_isInteger hn.1 hn.2⟩) fun _ => id)

theorem nodeValue_reading (h : d.Live JsonNumber.Safe fun _ => True) :
    NodeValue (PyVal.reading.value d) (Node.reading.value d) := by
  refine JsonReading.related (r := NodeValue) ?_ ?_ (fun n hn => ?_) ?_ ?_ ?_ PyVal.reading_separates
    Node.reading_separates h
  · exact trivial
  · exact fun _ => rfl
  · simp only [PyVal.reading,if_pos hn.1,Node.reading,hn.round]
    exact rfl
  · exact fun _ _ => rfl
  · exact fun _ _ h => nodeItems_iff.mpr h
  · intro ms ns _ hn h
    have hp := Node.ownOrder_perm ns
    refine ⟨(hp.map _).nodup_iff.mpr hn,ns,hp.symm,nodeEntries_iff.mpr (List.forall₂_map_left_iff.mpr (h.imp ?_))⟩
    rintro ⟨_,v⟩ ⟨_,w⟩ ⟨⟨k,_,rfl,rfl⟩,hv⟩
    exact ⟨rfl,hv⟩

/-! What the encoders accept -/

theorem PyVal.live_of_portable {pf : Platform} (h : pf.Portable (PyVal.reading.value d)) :
    d.Live JsonNumber.Safe Scalar := by
  refine JsonReading.live_of_accepted (p := pf.Portable) (fun n _ hn => ?_) (fun u _ hu => ?_) (fun vs hv v hm => ?_)
    (fun ms hms m hm => ?_) PyVal.reading_separates d.live_true h
  · simp only [PyVal.reading] at hn
    split at hn
    · rename_i hi
      exact ⟨hi,Platform.portable_int.mp hn⟩
    · obtain ⟨j,hj⟩ := hn
      cases hj
  · obtain ⟨j,hj⟩ := hu
    cases PyVal.normal_iff.mpr hj with
    | text hs => exact ⟨_,scalars_codePoints.mp hs⟩
  · obtain ⟨j,hj⟩ := hv
    cases PyVal.normal_iff.mpr hj with
    | seq hf =>
      obtain ⟨j,_,hj⟩ := forall₂_of_mem_right hf.flip hm
      exact ⟨j,hj⟩
  · obtain ⟨j,hj⟩ := hms
    cases PyVal.normal_iff.mpr hj with
    | mapping hf _ _ =>
      obtain ⟨kv,_,⟨s,cs,hs,hcs,_⟩,hkv⟩ := forall₂_of_mem_right hf.flip (List.mem_map_of_mem hm)
      refine ⟨fun k _ hk => ⟨cs,scalars_codePoints.mp ?_⟩,kv.2,hkv⟩
      rw [← hcs,← PyKey.str.inj hs]
      exact congrArg PyStr.scalars hk.symm

variable {nfc : Nfc} {pf : Node.Platform}

theorem Go.live_of_canonical (hd : d.Live (fun _ => True) Scalar)
    (h : ∃ b, Go.canonical nfc (Go.reading.value d) = .ok b) : d.Live JsonNumber.Safe Scalar := by
  refine JsonReading.live_of_accepted (p := fun g => ∃ b, Go.canonical nfc g = .ok b) (fun n _ hn => ?_)
    (fun u hu _ => hu) (fun vs hv v hm => ?_) (fun ms hms m hm => ⟨fun k hk _ => hk,?_⟩) Go.reading_separates hd h
  · obtain ⟨b,hb⟩ := hn
    change Go.appendCanonical nfc (.number (Utf8.encode n.text)) = .ok b at hb
    simp only [Go.appendCanonical,CheckChains.bind_eq_ok,Go.validateInteger_eq_ok] at hb
    obtain ⟨_,⟨z,hz,hr⟩,_⟩ := hb
    obtain ⟨hi,rfl⟩ := Go.setString_number hz
    exact ⟨hi,hr⟩
  · obtain ⟨b,hb⟩ := hv
    change Go.appendCanonical nfc (.slice vs) = .ok b at hb
    simp only [Go.appendCanonical,CheckChains.bind_eq_ok,Go.appendElements_eq,CheckChains.mapM_eq_ok] at hb
    obtain ⟨bs,hbs,_⟩ := hb
    obtain ⟨b,_,hb⟩ := forall₂_of_mem_right hbs.flip hm
    exact ⟨b,hb⟩
  · obtain ⟨b,hb⟩ := hms
    obtain ⟨ns,hns,_⟩ := Go.appendCanonical_map.mp hb
    obtain ⟨n,_,_,hn⟩ := forall₂_of_mem_right hns.flip hm
    exact ⟨n.2,hn⟩

/-- Node asks of a number that it rounds to a safe integer. -/
theorem Node.live_of_canonical {P : JsonNumber → Prop} (hd : d.Live P fun _ => True)
    (h : ∃ s, Node.canonical pf (Node.reading.value d) = .ok s) :
    d.Live (fun n => P n ∧ ∃ m : Int, |m| ≤ maxSafeInteger ∧ Binary64.round n.value = .finite m) Scalar := by
  refine JsonReading.live_of_accepted (p := fun v => ∃ s, Node.canonical pf v = .ok s) ?_ ?_ ?_ ?_
    Node.reading_separates hd h
  · rintro n hn ⟨s,hs⟩
    simp only [Node.reading,Node.canonical_eq_ok,Node.normalizeCanonical,CheckChains.bind_eq_ok,
      CheckChains.failIf_eq_ok,not_not] at hs
    obtain ⟨_,⟨_,hsafe,_⟩,_⟩ := hs
    cases hround : Binary64.round n.value with
    | finite q =>
      rw [hround] at hsafe
      simp only [Node.isSafeInteger,decide_eq_true_eq] at hsafe
      exact ⟨hn,q.num,hsafe.2,by rw [(Rat.den_eq_one_iff q).mp hsafe.1]⟩
    | _ =>
      rw [hround] at hsafe
      cases hsafe
  · rintro u _ ⟨s,hs⟩
    obtain ⟨cs,hcs,_⟩ := Node.canonical_string.mp hs
    exact ⟨cs,hcs⟩
  · rintro vs ⟨s,hs⟩ v hm
    obtain ⟨ss,hss,_⟩ := Node.canonical_array.mp hs
    obtain ⟨s,_,hs⟩ := forall₂_of_mem_right hss.flip hm
    exact ⟨s,hs⟩
  · rintro ms ⟨s,hs⟩ m hm
    obtain ⟨ns,hns,_⟩ := Node.canonical_object.mp hs
    obtain ⟨n,_,⟨cs,hcs,_⟩,hn⟩ := forall₂_of_mem_right hns.flip ((Node.ownOrder_perm ms).mem_iff.mpr hm)
    exact ⟨fun k _ hk => ⟨cs,hk.symm.trans hcs⟩,n.2,hn⟩

end
end ExecutionFinality
