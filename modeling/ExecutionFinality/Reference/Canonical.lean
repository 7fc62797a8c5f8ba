import ExecutionFinality.Library.JsonUnambiguous
import ExecutionFinality.Reference.PythonValues

/-! `canonical.py`: normalization, the two canonical byte encodings and the digest. -/
namespace ExecutionFinality
open Utf8 (Bytes)
open KeyedEntries

def maxSafeInteger : Int := 2^53 - 1

/-- The string branch of `_normalize`, for values and, with its own message, for keys. -/
def normalizeText (nfc : Nfc) (message : String) (s : PyStr) : Except Exn (List Char) :=
  match s.scalars with
  | none => .error (.canonicalizationError (py message))
  | some cs => .ok (nfc.run cs)

namespace PyVal

mutual
/-- `_normalize`. A dataclass instance is first turned into the dictionary of its
fields, which changes nothing else about the result. -/
def normalize (nfc : Nfc) (portable : Bool) : PyVal → Except Exn Json
  | .none => .ok .null
  | .bool b => .ok (.bool b)
  | .int n => do
    failIf (portable = true ∧ ¬ (-maxSafeInteger ≤ n ∧ n ≤ maxSafeInteger))
      (.canonicalizationError (py "integer outside portable safe range"))
    return .num n
  | .float => .error (.canonicalizationError
      (py "floating point values are forbidden in security-bound material"))
  | .text _ s => do
    return .str (← normalizeText nfc "unpaired UTF-16 surrogate code point is forbidden" s)
  | .bytes b => do
    failIf (portable = true)
      (.canonicalizationError (py "bytes are not part of the portable JSON profile"))
    return .obj [("$bytes_hex".toList,.str (hexChars b))]
  | .seq _ xs => do return .arr (← normalizeItems nfc portable xs)
  | .mapping _ es => do return .obj (sortOn id (← normalizeEntries nfc portable es []))
  | .other typeName => .error (.canonicalizationError (py "unsupported value type: " ++ typeName))

def normalizeItems (nfc : Nfc) (portable : Bool) : List PyVal → Except Exn (List Json)
  | [] => .ok []
  | v :: vs => do
    let j ← normalize nfc portable v
    let js ← normalizeItems nfc portable vs
    return j :: js

/-- The loop over `value.items()`; `out` holds the entries normalized so far. -/
def normalizeEntries (nfc : Nfc) (portable : Bool) :
    List (PyKey × PyVal) → List (List Char × Json) → Except Exn (List (List Char × Json))
  | [], out => .ok out
  | (.str key,val) :: es, out => do
    let nkey ← normalizeText nfc "unpaired UTF-16 surrogate code point is forbidden in key" key
    failIf (nkey ∈ keys out)
      (.canonicalizationError (py "key collision after Unicode normalization"))
    let j ← normalize nfc portable val
    normalizeEntries nfc portable es (out ++ [(nkey,j)])
  | (_,_) :: _, _ => .error (.canonicalizationError (py "dictionary keys must be strings"))
end

end PyVal

mutual
/-- Every integer that occurs in a value. -/
def Json.ints : Json → List Int
  | .num n => [n]
  | .arr xs => Json.intsElements xs
  | .obj es => Json.intsMembers es
  | _ => []

def Json.intsElements : List Json → List Int
  | [] => []
  | x :: xs => Json.ints x ++ Json.intsElements xs

def Json.intsMembers : List (List Char × Json) → List Int
  | [] => []
  | (_,v) :: es => Json.ints v ++ Json.intsMembers es
end

theorem Json.mem_intsElements {xs : List Json} {n : Int} :
    n ∈ Json.intsElements xs ↔ ∃ x ∈ xs, n ∈ x.ints := by
  induction xs with
  | nil => simp [Json.intsElements]
  | cons x xs ih => simp [Json.intsElements,ih]

theorem Json.mem_intsMembers {es : List (List Char × Json)} {n : Int} :
    n ∈ Json.intsMembers es ↔ ∃ e ∈ es, n ∈ e.2.ints := by
  induction es with
  | nil => simp [Json.intsMembers]
  | cons e es ih => simp [Json.intsMembers,ih]

namespace Platform

/-- Whether `int.__repr__` prints the integer within the interpreter's digit limit. -/
def Prints (pf : Platform) (n : Int) : Prop :=
  pf.intMaxStrDigits = 0 ∨ n.natAbs < 10^pf.intMaxStrDigits

instance (pf : Platform) (n : Int) : Decidable (pf.Prints n) := inferInstanceAs (Decidable (_ ∨ _))

/-- `_dump`: compact UTF-8 JSON with sorted keys. -/
def dump (pf : Platform) (normalized : Json) : Except Exn Bytes := do
  failIf (¬ ∀ n ∈ normalized.ints, pf.Prints n)
    (.valueError (py "Exceeds the limit (" ++ py (toString pf.intMaxStrDigits) ++ py (" digits) for " ++
      "integer string conversion; use sys.set_int_max_str_digits() to increase the limit")))
  return Utf8.encode normalized.sortKeys.print

def canonicalBytes (pf : Platform) (value : PyVal) : Except Exn Bytes := do
  pf.dump (← value.normalize pf.nfc false)

def portableCanonicalBytes (pf : Platform) (value : PyVal) : Except Exn Bytes := do
  pf.dump (← value.normalize pf.nfc true)

/-- `hashlib.sha256(data).hexdigest()` -/
def sha256Bytes (pf : Platform) (data : Bytes) : PyStr := PyStr.ofChars (hexChars (pf.sha256 data))

def sha256Hex (pf : Platform) (value : PyVal) : Except Exn PyStr := do
  return pf.sha256Bytes (← pf.canonicalBytes value)

/-- SHA-256 separates every two canonical byte strings. -/
def NoCollision (pf : Platform) : Prop :=
  ∀ v w a b, pf.canonicalBytes v = .ok a → pf.canonicalBytes w = .ok b →
    pf.sha256 a = pf.sha256 b → a = b

/-- Integers of the portable range are printed under every digit limit. -/
theorem prints_of_safe {pf : Platform} {n : Int} (h : -maxSafeInteger ≤ n ∧ n ≤ maxSafeInteger) : pf.Prints n := by
  rcases pf.intMaxStrDigits_threshold with h0 | h0
  · exact .inl h0
  · have hn : n.natAbs < 10^16 := by
      unfold maxSafeInteger at h
      omega
    exact .inr (hn.trans_le (Nat.pow_le_pow_right (by decide) (Nat.le_trans (by decide) h0)))

theorem prints_of_lt {pf : Platform} {n : Int} (h : n.natAbs < 10^9) : pf.Prints n :=
  prints_of_safe (by unfold maxSafeInteger; omega)

end Platform

theorem samplePlatform_noCollision : samplePlatform.NoCollision := fun _ _ _ _ _ _ h => h

/-! The success cases of `normalize`, entry by entry. -/
namespace PyVal
variable {nfc : Nfc} {portable : Bool}

theorem normalizeText_eq_ok {message : String} {s : PyStr} {t : List Char} :
    normalizeText nfc message s = .ok t ↔ ∃ cs, s.scalars = some cs ∧ nfc.run cs = t := by
  unfold normalizeText
  split <;> simp_all

/-- One dictionary entry and its normalized form. -/
def NormalEntry (nfc : Nfc) (portable : Bool) (e : PyKey × PyVal) (kv : List Char × Json) : Prop :=
  (∃ s cs, e.1 = .str s ∧ s.scalars = some cs ∧ nfc.run cs = kv.1) ∧
    e.2.normalize nfc portable = .ok kv.2

theorem normalizeItems_eq (vs : List PyVal) : normalizeItems nfc portable vs = vs.mapM (normalize nfc portable) := by
  induction vs with
  | nil => rfl
  | cons v vs ih => rw [normalizeItems,ih,List.mapM_cons]

theorem normalizeItems_eq_ok {vs : List PyVal} {js : List Json} :
    normalizeItems nfc portable vs = .ok js ↔
      List.Forall₂ (fun v j => normalize nfc portable v = .ok j) vs js := by
  rw [normalizeItems_eq,CheckChains.mapM_eq_ok]

/-- The loop over the entries is the collecting loop, with the values normalized in it. -/
private theorem normalizeEntries_eq_collect (es : List (PyKey × PyVal)) (out : List (List Char × Json)) :
    normalizeEntries nfc portable es out = collect
      (fun
        | .str key => normalizeText nfc "unpaired UTF-16 surrogate code point is forbidden in key" key
        | _ => .error (.canonicalizationError (py "dictionary keys must be strings")))
      (fun _ => .canonicalizationError (py "key collision after Unicode normalization"))
      (normalize nfc portable) es out := by
  induction es generalizing out with
  | nil => rfl
  | cons e es ih =>
    obtain ⟨key,val⟩ := e
    cases key with
    | str key => simp only [normalizeEntries,collect,ih]
    | _ => rfl

theorem normalizeEntries_eq_ok {es : List (PyKey × PyVal)} (out : List (List Char × Json))
    {kvs : List (List Char × Json)} (hn : (keys out).Nodup) :
    normalizeEntries nfc portable es out = .ok kvs ↔
      ∃ new, kvs = out ++ new ∧ List.Forall₂ (NormalEntry nfc portable) es new ∧ (keys kvs).Nodup := by
  have entry (e : PyKey × PyVal) (kv : List Char × Json) : ((match e.1 with
      | .str key => normalizeText nfc "unpaired UTF-16 surrogate code point is forbidden in key" key
      | _ => .error (.canonicalizationError (py "dictionary keys must be strings"))) =
        Except.ok kv.1 ∧ e.2.normalize nfc portable = .ok kv.2) ↔ NormalEntry nfc portable e kv := by
    apply and_congr_left
    intro _
    cases e.1 with
    | str key =>
      rw [normalizeText_eq_ok]
      constructor
      · rintro ⟨cs,h⟩
        exact ⟨key,cs,rfl,h⟩
      · rintro ⟨_,cs,⟨⟩,h⟩
        exact ⟨cs,h⟩
    | _ => exact ⟨(nomatch ·),fun ⟨_,_,h,_⟩ => (nomatch h)⟩
  simp only [normalizeEntries_eq_collect,collect_eq_ok out hn,entry]

/-- The values that normalize, with their normal forms. -/
inductive Normal (nfc : Nfc) (portable : Bool) : PyVal → Json → Prop where
  | none : Normal nfc portable .none .null
  | bool (b : Bool) : Normal nfc portable (.bool b) (.bool b)
  | int {n : Int} (h : portable = true → -maxSafeInteger ≤ n ∧ n ≤ maxSafeInteger) :
      Normal nfc portable (.int n) (.num n)
  | text {k : TextKind} {s : PyStr} {cs : List Char} (h : s.scalars = some cs) :
      Normal nfc portable (.text k s) (.str (nfc.run cs))
  | bytes (b : Bytes) (h : portable = false) :
      Normal nfc portable (.bytes b) (.obj [("$bytes_hex".toList,.str (hexChars b))])
  | seq {k : SeqKind} {xs : List PyVal} {js : List Json}
      (h : List.Forall₂ (fun v j => normalize nfc portable v = .ok j) xs js) :
      Normal nfc portable (.seq k xs) (.arr js)
  | mapping {k : MapKind} {es : List (PyKey × PyVal)} {kvs : List (List Char × Json)} {j : Json}
      (h : List.Forall₂ (NormalEntry nfc portable) es kvs) (hn : (keys kvs).Nodup)
      (hj : j = .obj (sortOn id kvs)) : Normal nfc portable (.mapping k es) j

theorem normal_iff {v : PyVal} {j : Json} : Normal nfc portable v j ↔ normalize nfc portable v = .ok j := by
  constructor
  · intro h
    cases h with
    | none | bool => rfl
    | int h =>
      simp only [normalize,CheckChains.bind_eq_ok,CheckChains.failIf_eq_ok]
      exact ⟨(),fun hr => hr.2 (h hr.1),rfl⟩
    | text h =>
      simp only [normalize,CheckChains.bind_eq_ok,normalizeText_eq_ok]
      exact ⟨_,⟨_,h,rfl⟩,rfl⟩
    | bytes b h =>
      simp only [normalize,CheckChains.bind_eq_ok,CheckChains.failIf_eq_ok]
      exact ⟨(),by simp [h],rfl⟩
    | seq h =>
      simp only [normalize,CheckChains.bind_eq_ok,normalizeItems_eq_ok]
      exact ⟨_,h,rfl⟩
    | mapping h hn hj =>
      simp only [normalize,CheckChains.bind_eq_ok,normalizeEntries_eq_ok [] List.nodup_nil]
      exact ⟨_,⟨_,rfl,h,hn⟩,hj ▸ rfl⟩
  · intro h
    cases v with
    | none => cases h; exact .none
    | bool b => cases h; exact .bool b
    | int n =>
      simp only [normalize,CheckChains.bind_eq_ok,CheckChains.failIf_eq_ok,CheckChains.pure_eq_ok] at h
      obtain ⟨_,hs,rfl⟩ := h
      exact .int fun hp => not_not.mp (fun hr => hs ⟨hp,hr⟩)
    | float => cases h
    | text k s =>
      simp only [normalize,CheckChains.bind_eq_ok,CheckChains.pure_eq_ok,normalizeText_eq_ok] at h
      obtain ⟨_,⟨cs,hcs,rfl⟩,rfl⟩ := h
      exact .text hcs
    | bytes b =>
      simp only [normalize,CheckChains.bind_eq_ok,CheckChains.failIf_eq_ok,CheckChains.pure_eq_ok] at h
      obtain ⟨_,hp,rfl⟩ := h
      exact .bytes b (Bool.eq_false_iff.mpr hp)
    | seq k xs =>
      simp only [normalize,CheckChains.bind_eq_ok,CheckChains.pure_eq_ok,normalizeItems_eq_ok] at h
      obtain ⟨js,hf,rfl⟩ := h
      exact .seq hf
    | mapping k es =>
      simp only [normalize,CheckChains.bind_eq_ok,CheckChains.pure_eq_ok,
        normalizeEntries_eq_ok [] List.nodup_nil,List.nil_append] at h
      obtain ⟨_,⟨kvs,rfl,hf,hn⟩,rfl⟩ := h
      exact .mapping hf hn rfl
    | other t => cases h

/-- Normal forms list the members of every object in key order. -/
theorem normalize_keysSorted (v : PyVal) : ∀ j, normalize nfc portable v = .ok j → j.KeysSorted := by
  induction v using recOn_members with
  | seq k xs ih =>
    intro j h
    cases normal_iff.mpr h with
    | seq hf =>
      apply Json.KeysSorted.arr
      intro j hj
      obtain ⟨v,hv,hj⟩ := forall₂_of_mem_right hf hj
      exact ih v hv j hj
  | mapping k es ih =>
    intro j h
    cases normal_iff.mpr h with
    | mapping hf _ hj =>
      subst hj
      apply Json.KeysSorted.obj (sortOn_sorted id _)
      intro kv hkv
      obtain ⟨e,he,hkv⟩ := forall₂_of_mem_right hf ((mem_sortOn id).mp hkv)
      exact ih e he kv.2 hkv.2
  | bytes b =>
    intro j h
    cases normal_iff.mpr h
    apply Json.KeysSorted.obj (List.pairwise_singleton _ _)
    intro e he
    cases List.mem_singleton.mp he
    exact .str _
  | none | bool | int | float | text | other =>
    intro j h
    cases normal_iff.mpr h
    all_goals constructor

/-- The portable profile refuses values and changes none, and keeps integers in range. -/
theorem normalize_portable (v : PyVal) : ∀ j, normalize nfc true v = .ok j →
    normalize nfc false v = .ok j ∧ ∀ n ∈ j.ints, -maxSafeInteger ≤ n ∧ n ≤ maxSafeInteger := by
  induction v using recOn_members with
  | seq k xs ih =>
    intro j h
    cases normal_iff.mpr h with
    | @seq _ _ js hf =>
      refine ⟨normal_iff.mp (.seq (forall₂_imp_of_mem (fun x hx j hj => (ih x hx j hj).1) hf)),fun n hn => ?_⟩
      obtain ⟨j,hj,hn⟩ := Json.mem_intsElements.mp hn
      obtain ⟨x,hx,hxj⟩ := forall₂_of_mem_right hf hj
      exact (ih x hx j hxj).2 n hn
  | mapping k es ih =>
    intro j h
    cases normal_iff.mpr h with
    | @mapping _ _ kvs _ hf hn hj =>
      refine ⟨normal_iff.mp (.mapping (forall₂_imp_of_mem (fun e he kv h => ⟨h.1,(ih e he _ h.2).1⟩) hf) hn hj),?_⟩
      subst hj
      intro n hmem
      obtain ⟨kv,hkv,hmem⟩ := Json.mem_intsMembers.mp hmem
      obtain ⟨e,he,_,hej⟩ := forall₂_of_mem_right hf ((mem_sortOn id).mp hkv)
      exact (ih e he kv.2 hej).2 n hmem
  | int n =>
    intro j h
    cases normal_iff.mpr h with
    | int hs => exact ⟨normal_iff.mp (.int (nomatch ·)),by simpa [Json.ints] using hs rfl⟩
  | none | bool | text =>
    intro j h
    cases normal_iff.mpr h
    exact ⟨h,by simp [Json.ints]⟩
  | bytes b =>
    intro j h
    cases normal_iff.mpr h with
    | bytes _ hp => cases hp
  | float | other =>
    intro j h
    cases normal_iff.mpr h

end PyVal

namespace Platform
variable {pf : Platform}

theorem dump_normalized {v : PyVal} {portable : Bool} {j : Json} {b : Bytes}
    (h : v.normalize pf.nfc portable = .ok j) :
    pf.dump j = .ok b ↔ (∀ n ∈ j.ints, pf.Prints n) ∧ b = Utf8.encode j.print := by
  simp only [dump,CheckChains.bind_eq_ok,CheckChains.failIf_eq_ok,CheckChains.pure_eq_ok,not_not,
    (PyVal.normalize_keysSorted v j h).sortKeys_eq,exists_const]
  exact and_congr_right fun _ => eq_comm

theorem canonicalBytes_eq_ok {v : PyVal} {b : Bytes} : pf.canonicalBytes v = .ok b ↔
    ∃ j, v.normalize pf.nfc false = .ok j ∧ (∀ n ∈ j.ints, pf.Prints n) ∧ b = Utf8.encode j.print := by
  simp only [canonicalBytes,CheckChains.bind_eq_ok]
  exact exists_congr fun j => and_congr_right fun h => dump_normalized h

theorem portableCanonicalBytes_eq_ok {v : PyVal} {b : Bytes} : pf.portableCanonicalBytes v = .ok b ↔
    ∃ j, v.normalize pf.nfc true = .ok j ∧ (∀ n ∈ j.ints, pf.Prints n) ∧ b = Utf8.encode j.print := by
  simp only [portableCanonicalBytes,CheckChains.bind_eq_ok]
  exact exists_congr fun j => and_congr_right fun h => dump_normalized h

theorem encode_print_injective : Function.Injective (fun j : Json => Utf8.encode j.print) :=
  Utf8.encode_injective.comp Json.print_injective

/-- Equal canonical bytes come from one normal form. -/
theorem canonicalBytes_inj {v w : PyVal} {b : Bytes} (hv : pf.canonicalBytes v = .ok b)
    (hw : pf.canonicalBytes w = .ok b) :
    ∃ j, v.normalize pf.nfc false = .ok j ∧ w.normalize pf.nfc false = .ok j := by
  obtain ⟨i,hi,_,rfl⟩ := canonicalBytes_eq_ok.mp hv
  obtain ⟨j,hj,_,he⟩ := canonicalBytes_eq_ok.mp hw
  cases encode_print_injective he
  exact ⟨i,hi,hj⟩

end Platform
end ExecutionFinality
