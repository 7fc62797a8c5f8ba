import ExecutionFinality.Library.Binary64
import ExecutionFinality.Library.Utf16
import ExecutionFinality.Reference.PythonValues

/-! `canonical.mjs`: the canonical encoding of the Node verifier. -/
namespace ExecutionFinality
open Utf8 (Bytes)
open KeyedEntries

/-- A JavaScript string: any UTF-16 code units. -/
abbrev JsStr := List UInt16

/-- A JavaScript string literal. -/
def js (s : String) : JsStr := Utf16.encode s.toList

/-- What `JSON.parse` returns, and `undefined`. The properties of an object are listed
in the order of `Object.entries`. -/
inductive JsVal where
  | undefined
  | null
  | bool (b : Bool)
  | number (x : Binary64)
  | string (s : JsStr)
  | array (xs : List JsVal)
  | object (es : List (JsStr × JsVal))

namespace Node

inductive Err where
  /-- `new Error(message)` -/
  | error (message : JsStr)
  | typeError

/-- The library functions of the Node process; the last one is `Buffer.from` of an array
or an object. -/
structure Platform extends ExecutionFinality.Platform where
  numberToString : Binary64 → JsStr
  numberToString_int : ∀ n : Int, |n| < 2^53 → numberToString (.finite n) = Utf16.encode (Json.printInt n)
  stringToNumber : JsStr → Binary64
  bufferFrom : JsVal → Except Err Bytes

def samplePlatform : Platform where
  toPlatform := ExecutionFinality.samplePlatform
  numberToString
    | .finite q => Utf16.encode (Json.printInt q.num)
    | _ => js "NaN"
  numberToString_int _ _ := rfl
  stringToNumber _ := .nan
  bufferFrom _ := .error .typeError

def maxSafeInteger : Int := 2^53 - 1

/-- `Number.isSafeInteger` -/
def isSafeInteger : Binary64 → Bool
  | .finite q => q.den = 1 ∧ |q.num| ≤ maxSafeInteger
  | _ => false

def assertUnicodeScalarString : JsStr → Except Err Unit
  | [] => .ok ()
  | [cu] =>
    if Utf16.IsHigh cu then .error (.error (js "unpaired UTF-16 high surrogate"))
    else if Utf16.IsLow cu then .error (.error (js "unpaired UTF-16 low surrogate"))
    else .ok ()
  | cu :: lo :: s =>
    if Utf16.IsHigh cu then
      if Utf16.IsLow lo then assertUnicodeScalarString s
      else .error (.error (js "unpaired UTF-16 high surrogate"))
    else if Utf16.IsLow cu then .error (.error (js "unpaired UTF-16 low surrogate"))
    else assertUnicodeScalarString (lo :: s)

/-- `Buffer.from(s, 'utf8')` -/
def utf8 (s : JsStr) : Bytes := Utf8.encode (Utf16.decode s)

/-- The string branch of `normalizeCanonical`; `normalize('NFC')` is called on scalar
strings only. -/
def normalizeString (nfc : Nfc) (s : JsStr) : Except Err JsStr := do
  assertUnicodeScalarString s
  return Utf16.encode (nfc.run (Utf16.decode s))

/-- The number that a property name spells, when it is an array index. -/
def arrayIndex? (key : JsStr) : Option Nat :=
  let ds := Utf16.decode key
  let n := Nat.ofDigitChars 10 ds 0
  if ds.all Char.isDigit ∧ Nat.toDigits 10 n = ds ∧ n < 2^32 - 1 then some n else none

/-- Properties in the order of `Object.keys`: array indices first, ascending, then the
other names in the order in which they were set. -/
def ownOrder {α : Type} (es : List (JsStr × α)) : List (JsStr × α) :=
  sortOn (fun key => (arrayIndex? key).getD 0) (es.filter fun e => (arrayIndex? e.1).isSome) ++
    es.filter fun e => !(arrayIndex? e.1).isSome

mutual
def normalizeCanonical (nfc : Nfc) : JsVal → Except Err JsVal
  | .null => .ok .null
  | .bool b => .ok (.bool b)
  | .number x => do
    failIf (¬ isSafeInteger x) (.error (js "integer outside portable safe range or non-integer"))
    return .number x
  | .string s => do return .string (← normalizeString nfc s)
  | .array xs => do return .array (← normalizeElements nfc xs)
  | .object es => do
    let entries ← collect (normalizeString nfc)
      (fun key => .error (js "key collision after Unicode normalization: " ++ key)) id
      (normalizeValues nfc es) []
    return .object (ownOrder (sortOn utf8 entries))
  | .undefined => .error (.error (js "unsupported type undefined"))

/-- `v.map(normalizeCanonical)` -/
def normalizeElements (nfc : Nfc) : List JsVal → Except Err (List JsVal)
  | [] => .ok []
  | x :: xs => do return (← normalizeCanonical nfc x) :: (← normalizeElements nfc xs)

/-- What each property value normalizes to, once its turn comes -/
def normalizeValues (nfc : Nfc) : List (JsStr × JsVal) → List (JsStr × Except Err JsVal)
  | [] => []
  | (key,val) :: es => (key,normalizeCanonical nfc val) :: normalizeValues nfc es
end

/-- `JSON.stringify` of a string without unpaired surrogates -/
def stringify (s : JsStr) : JsStr := Utf16.encode (Json.quote (Utf16.decode s))

/-- `JSON.stringify(k) + ':' + encodeCanonical(x[k])` for the sorted keys -/
def encodeMembers : List (JsStr × Except Err JsStr) → Except Err (List JsStr)
  | [] => .ok []
  | (k,x) :: es => do return (stringify k ++ js ":" ++ (← x)) :: (← encodeMembers es)

mutual
def encodeCanonical (pf : Platform) : JsVal → Except Err JsStr
  | .null => .ok (js "null")
  | .bool true => .ok (js "true")
  | .bool false => .ok (js "false")
  | .number x => .ok (pf.numberToString x)
  | .string s => .ok (stringify s)
  | .array xs => do return js "[" ++ (js ",").intercalate (← encodeElements pf xs) ++ js "]"
  | .object es => do
    return js "\x7b" ++ (js ",").intercalate (← encodeMembers (sortOn utf8 (encodeValues pf es))) ++ js "\x7d"
  | .undefined => .error .typeError

def encodeElements (pf : Platform) : List JsVal → Except Err (List JsStr)
  | [] => .ok []
  | x :: xs => do return (← encodeCanonical pf x) :: (← encodeElements pf xs)

def encodeValues (pf : Platform) : List (JsStr × JsVal) → List (JsStr × Except Err JsStr)
  | [] => []
  | (k,x) :: es => (k,encodeCanonical pf x) :: encodeValues pf es
end

def canonical (pf : Platform) (v : JsVal) : Except Err JsStr := do
  encodeCanonical pf (← normalizeCanonical pf.nfc v)

/-- The bytes of the canonical text, as `sha256` and `hmacSha256` take them -/
def canonicalBytes (pf : Platform) (v : JsVal) : Except Err Bytes := do
  return utf8 (← canonical pf v)

/-- The strings without unpaired surrogates are the encodings of scalar strings. -/
theorem assertUnicodeScalarString_eq_ok {s : JsStr} {u : Unit} : assertUnicodeScalarString s = .ok u ↔
    ∃ cs, s = Utf16.encode cs := by
  constructor
  · fun_induction assertUnicodeScalarString s with
    | case1 => exact fun _ => ⟨[],rfl⟩
    | case2 | case3 | case6 | case7 => exact (nomatch ·)
    | case4 cu hh hl => exact fun _ => ⟨[_],by rw [Utf16.encode_cons,Utf16.encodeChar_unit hh hl]; rfl⟩
    | case5 cu lo s hh hl ih =>
      intro h
      obtain ⟨cs,rfl⟩ := ih h
      exact ⟨_ :: cs,by rw [Utf16.encode_cons,Utf16.encodeChar_pair hh hl]; rfl⟩
    | case8 cu lo s hh hl ih =>
      intro h
      obtain ⟨cs,hcs⟩ := ih h
      exact ⟨_ :: cs,by rw [Utf16.encode_cons,Utf16.encodeChar_unit hh hl,hcs]; rfl⟩
  · rintro ⟨cs,rfl⟩
    induction cs with
    | nil => rfl
    | cons c cs ih =>
      rcases Utf16.encodeChar_cases c with ⟨cu,he,_,hh,hl⟩ | ⟨hi,lo,he,_,hh,hl⟩
      · rw [Utf16.encode_cons,he]
        generalize Utf16.encode cs = s at ih
        cases s with
        | nil => simp [assertUnicodeScalarString,hh,hl]
        | cons v s => simpa [assertUnicodeScalarString,hh,hl] using ih
      · rw [Utf16.encode_cons,he]
        simpa [assertUnicodeScalarString,hh,hl] using ih

variable {nfc : Nfc} {pf : Platform}

theorem normalizeString_eq_ok {s t : JsStr} : normalizeString nfc s = .ok t ↔
    ∃ cs, s = Utf16.encode cs ∧ t = Utf16.encode (nfc.run cs) := by
  simp only [normalizeString,CheckChains.bind_eq_ok,CheckChains.pure_eq_ok,assertUnicodeScalarString_eq_ok]
  constructor
  · rintro ⟨_,⟨cs,rfl⟩,rfl⟩
    exact ⟨cs,rfl,by rw [Utf16.decode_encode]⟩
  · rintro ⟨cs,rfl,rfl⟩
    exact ⟨(),⟨cs,rfl⟩,by rw [Utf16.decode_encode]⟩

theorem normalizeElements_eq (xs : List JsVal) : normalizeElements nfc xs = xs.mapM (normalizeCanonical nfc) := by
  induction xs with
  | nil => rfl
  | cons x xs ih => rw [normalizeElements,ih,List.mapM_cons]

theorem encodeElements_eq (xs : List JsVal) : encodeElements pf xs = xs.mapM (encodeCanonical pf) := by
  induction xs with
  | nil => rfl
  | cons x xs ih => rw [encodeElements,ih,List.mapM_cons]

theorem normalizeValues_eq (es : List (JsStr × JsVal)) :
    normalizeValues nfc es = es.map fun e => (e.1,normalizeCanonical nfc e.2) := by
  induction es with
  | nil => rfl
  | cons e es ih => rw [normalizeValues,ih,List.map_cons]

theorem encodeValues_eq (es : List (JsStr × JsVal)) :
    encodeValues pf es = es.map fun e => (e.1,encodeCanonical pf e.2) := by
  induction es with
  | nil => rfl
  | cons e es ih => rw [encodeValues,ih,List.map_cons]

theorem encodeMembers_eq (ms : List (JsStr × Except Err JsStr)) : encodeMembers ms =
    ms.mapM fun m => do return stringify m.1 ++ js ":" ++ (← m.2) := by
  induction ms with
  | nil => rfl
  | cons m ms ih => simp only [encodeMembers,ih,List.mapM_cons,bind_assoc,pure_bind]

theorem encodeMembers_eq_ok {ms : List (JsStr × Except Err JsStr)} {ss : List JsStr} :
    encodeMembers ms = .ok ss ↔
      List.Forall₂ (fun m s => ∃ x, m.2 = .ok x ∧ stringify m.1 ++ js ":" ++ x = s) ms ss := by
  simp only [encodeMembers_eq,CheckChains.mapM_eq_ok,CheckChains.bind_eq_ok,CheckChains.pure_eq_ok]

/-- However a JavaScript engine orders the properties, they are the same properties. -/
theorem ownOrder_perm {α : Type} (es : List (JsStr × α)) : (ownOrder es).Perm es := by
  have hsplit : (es.filter (fun e => (arrayIndex? e.1).isSome) ++
      es.filter (fun e => !(arrayIndex? e.1).isSome)).Perm es := List.filter_append_perm _ _
  exact ((sortOn_perm _ _).append_right _).trans hsplit

/-- A key that normalizes to `k` -/
def KeyText (nfc : Nfc) (rawKey : JsStr) (k : List Char) : Prop := ∃ cs, rawKey = Utf16.encode cs ∧ nfc.run cs = k

theorem utf8_encode (k : List Char) : utf8 (Utf16.encode k) = Utf8.encode k := by rw [utf8,Utf16.decode_encode]

/-- The second sort undoes whatever the property order of the object did to the first. -/
theorem sortOn_ownOrder {α β : Type} (g : α → β) {es : List (JsStr × α)} (hn : (keys es).Nodup)
    (ht : ∀ e ∈ es, ∃ k, e.1 = Utf16.encode k) :
    sortOn utf8 ((ownOrder (sortOn utf8 es)).map fun e => (e.1,g e.2)) =
      sortOn utf8 (es.map fun e => (e.1,g e.2)) := by
  have hp : (ownOrder (sortOn utf8 es)).Perm es := (ownOrder_perm _).trans (sortOn_perm _ _)
  have hk : keys ((ownOrder (sortOn utf8 es)).map fun e => (e.1,g e.2)) = keys (ownOrder (sortOn utf8 es)) := by
    rw [keys,List.map_map]
    rfl
  have text : ∀ a ∈ keys (ownOrder (sortOn utf8 es)), ∃ k, a = Utf16.encode k := by
    intro a ha
    obtain ⟨e,he,rfl⟩ := List.mem_map.mp ((hp.map _).mem_iff.mp ha)
    exact ht e he
  refine sortOn_eq_of_perm ?_ ?_ (hp.map _)
  · rw [hk]
    intro a ha b hb he
    obtain ⟨k,rfl⟩ := text a ha
    obtain ⟨l,rfl⟩ := text b hb
    rw [utf8_encode,utf8_encode] at he
    rw [Utf8.encode_injective he]
  · rw [hk]
    exact (hp.map _).nodup_iff.mpr hn

theorem canonical_eq_ok {v : JsVal} {s : JsStr} : canonical pf v = .ok s ↔
    ∃ w, normalizeCanonical pf.nfc v = .ok w ∧ encodeCanonical pf w = .ok s :=
  CheckChains.bind_eq_ok

theorem canonicalBytes_eq_ok {v : JsVal} {b : Bytes} : canonicalBytes pf v = .ok b ↔
    ∃ s, canonical pf v = .ok s ∧ b = utf8 s := by
  simp only [canonicalBytes,CheckChains.bind_eq_ok,CheckChains.pure_eq_ok]
  exact exists_congr fun _ => and_congr_right fun _ => eq_comm

theorem canonical_number {n : Int} {s : JsStr} : canonical pf (.number (.finite n)) = .ok s ↔
    |n| ≤ maxSafeInteger ∧ s = Utf16.encode (Json.printInt n) := by
  have hsafe : isSafeInteger (.finite n) = true ↔ |n| ≤ maxSafeInteger := by simp [isSafeInteger]
  simp only [canonical_eq_ok,normalizeCanonical,CheckChains.bind_eq_ok,CheckChains.pure_eq_ok,
    CheckChains.failIf_eq_ok,not_not,hsafe]
  constructor
  · rintro ⟨_,⟨_,hn,rfl⟩,hs⟩
    have hlt : |n| < 2^53 := by
      unfold maxSafeInteger at hn
      omega
    exact ⟨hn,(Except.ok.inj hs).symm.trans (pf.numberToString_int n hlt)⟩
  · rintro ⟨hn,rfl⟩
    have hlt : |n| < 2^53 := by
      unfold maxSafeInteger at hn
      omega
    exact ⟨_,⟨(),hn,rfl⟩,congrArg Except.ok (pf.numberToString_int n hlt)⟩

theorem canonical_string {u s : JsStr} : canonical pf (.string u) = .ok s ↔
    ∃ cs, u = Utf16.encode cs ∧ s = Utf16.encode (Json.quote (pf.nfc.run cs)) := by
  simp only [canonical_eq_ok,normalizeCanonical,CheckChains.bind_eq_ok,CheckChains.pure_eq_ok,normalizeString_eq_ok]
  constructor
  · rintro ⟨_,⟨_,⟨cs,rfl,rfl⟩,rfl⟩,hs⟩
    cases hs
    exact ⟨cs,rfl,by rw [stringify,Utf16.decode_encode]⟩
  · rintro ⟨cs,rfl,rfl⟩
    exact ⟨_,⟨_,⟨cs,rfl,rfl⟩,rfl⟩,by rw [encodeCanonical,stringify,Utf16.decode_encode]⟩

theorem canonical_array {xs : List JsVal} {s : JsStr} : canonical pf (.array xs) = .ok s ↔
    ∃ ss, List.Forall₂ (fun x s => canonical pf x = .ok s) xs ss ∧
      s = js "[" ++ (js ",").intercalate ss ++ js "]" := by
  simp only [canonical_eq_ok,forall₂_comp]
  have normalized (w : JsVal) : normalizeCanonical pf.nfc (.array xs) = .ok w ↔
      ∃ ws, List.Forall₂ (fun x w => normalizeCanonical pf.nfc x = .ok w) xs ws ∧ .array ws = w := by
    simp only [normalizeCanonical,CheckChains.bind_eq_ok,CheckChains.pure_eq_ok,normalizeElements_eq,
      CheckChains.mapM_eq_ok]
  have encoded (ws : List JsVal) : encodeCanonical pf (.array ws) = .ok s ↔
      ∃ ss, List.Forall₂ (fun w s => encodeCanonical pf w = .ok s) ws ss ∧
        js "[" ++ (js ",").intercalate ss ++ js "]" = s := by
    simp only [encodeCanonical,CheckChains.bind_eq_ok,CheckChains.pure_eq_ok,encodeElements_eq,
      CheckChains.mapM_eq_ok]
  constructor
  · rintro ⟨w,hw,hs⟩
    obtain ⟨ws,hws,rfl⟩ := (normalized w).mp hw
    obtain ⟨ss,hss,rfl⟩ := (encoded ws).mp hs
    exact ⟨ss,⟨ws,hws,hss⟩,rfl⟩
  · rintro ⟨ss,⟨ws,hws,hss⟩,rfl⟩
    exact ⟨_,(normalized _).mpr ⟨ws,hws,rfl⟩,(encoded ws).mpr ⟨ss,hss,rfl⟩⟩

/-! The two passes over the properties of an object, for values of any kind -/
section
variable {V W : Type} {norm : V → Except Err W} {enc : W → Except Err JsStr}

/-- The normalized properties of an object: each key a normalized text, and no key twice -/
def NormalProperties (nfc : Nfc) (norm : V → Except Err W) (es : List (JsStr × V)) (ns : List (JsStr × W)) : Prop :=
  List.Forall₂ (fun e n => (∃ k, KeyText nfc e.1 k ∧ n.1 = Utf16.encode k) ∧ norm e.2 = .ok n.2) es ns ∧ (keys ns).Nodup

theorem collect_eq_ok {collision : JsStr → Err} {es : List (JsStr × V)} {ns : List (JsStr × W)} :
    collect (normalizeString nfc) collision id (es.map fun e => (e.1,norm e.2)) [] = .ok ns ↔
      NormalProperties nfc norm es ns := by
  have text (rawKey key : JsStr) : normalizeString nfc rawKey = .ok key ↔
      ∃ k, KeyText nfc rawKey k ∧ key = Utf16.encode k := by
    rw [normalizeString_eq_ok]
    exact ⟨fun ⟨cs,h,h'⟩ => ⟨_,⟨cs,h,rfl⟩,h'⟩,fun ⟨_,⟨cs,h,rfl⟩,h'⟩ => ⟨cs,h,h'⟩⟩
  simp only [KeyedEntries.collect_eq_ok [] List.nodup_nil,List.forall₂_map_left_iff,text,id_eq,List.nil_append,
    exists_eq_left',NormalProperties]

/-- The second pass writes the properties sorted by normalized key. -/
theorem encodeMembers_normal {es : List (JsStr × V)} {s : JsStr} : (∃ ns : List (JsStr × W),
      NormalProperties nfc norm es ns ∧ ∃ ss,
        encodeMembers (sortOn utf8 ((ownOrder (sortOn utf8 ns)).map fun n => (n.1,enc n.2))) = .ok ss ∧
        s = js "\x7b" ++ (js ",").intercalate ss ++ js "\x7d") ↔
    ∃ ms : List (List Char × JsStr),
      List.Forall₂ (fun e m => KeyText nfc e.1 m.1 ∧ ∃ w, norm e.2 = .ok w ∧ enc w = .ok m.2) es ms ∧ (keys ms).Nodup ∧
      s = js "\x7b" ++ (js ",").intercalate ((sortOn id ms).map fun m =>
        Utf16.encode (Json.quote m.1) ++ js ":" ++ m.2) ++ js "\x7d" := by
  have rendered (ms : List (List Char × JsStr)) :
      encodeMembers (sortOn utf8 (ms.map fun m => (Utf16.encode m.1,.ok m.2))) =
        .ok ((sortOn id ms).map fun m => Utf16.encode (Json.quote m.1) ++ js ":" ++ m.2) := by
    have horder : ∀ a ∈ ms, ∀ b ∈ ms, id a.1 ≤ id b.1 ↔ utf8 (Utf16.encode a.1) ≤ utf8 (Utf16.encode b.1) := by
      intro a _ b _
      rw [utf8_encode,utf8_encode,Utf8.encode_le_iff]
      rfl
    rw [← sortOn_map id utf8 _ ms horder,encodeMembers_eq_ok,
      List.forall₂_map_left_iff,List.forall₂_map_right_iff]
    exact List.forall₂_same.mpr fun m _ => ⟨_,rfl,by rw [stringify,Utf16.decode_encode]⟩
  have htext {ns : List (JsStr × W)} (hf : NormalProperties nfc norm es ns) : ∀ n ∈ ns, ∃ k, n.1 = Utf16.encode k := by
    intro n hn
    obtain ⟨_,_,⟨k,_,hk⟩,_⟩ := forall₂_of_mem_right hf.1 hn
    exact ⟨k,hk⟩
  simp only [← CheckChains.bind_eq_ok]
  constructor
  · rintro ⟨ns,hf,ss,hss,rfl⟩
    rw [sortOn_ownOrder enc hf.2 (htext hf)] at hss
    let canon : V → Except Err JsStr := fun v => norm v >>= enc
    have hf' : List.Forall₂ (fun e n => (∃ k, KeyText nfc e.1 k ∧ n.1 = Utf16.encode k) ∧ canon e.2 = n.2)
        es (ns.map fun n => (n.1,enc n.2)) :=
      List.forall₂_map_right_iff.mpr (hf.1.imp fun e n h => ⟨h.1,(congrArg (· >>= enc) h.2).trans (CheckChains.ok_bind ..)⟩)
    obtain ⟨ms,hms,hes⟩ := exists_values hf' fun n hmem => by
      obtain ⟨_,_,x,hx,_⟩ := forall₂_of_mem_right (encodeMembers_eq_ok.mp hss).flip ((mem_sortOn utf8).mpr hmem)
      exact ⟨x,hx⟩
    rw [hms,rendered ms] at hss
    cases hss
    refine ⟨ms,hes,?_,rfl⟩
    have hkeys := congrArg keys hms
    simp only [keys,List.map_map] at hkeys
    apply List.Nodup.of_map Utf16.encode
    rw [keys,List.map_map]
    exact hkeys ▸ hf.2
  · rintro ⟨ms,hms,hn,rfl⟩
    obtain ⟨ns,hf,hns⟩ : ∃ ns : List (JsStr × W),
        List.Forall₂ (fun e n => (∃ k, KeyText nfc e.1 k ∧ n.1 = Utf16.encode k) ∧ norm e.2 = .ok n.2) es ns ∧
        List.Forall₂ (fun (n : JsStr × W) (m : List Char × JsStr) => (n.1,enc n.2) = (Utf16.encode m.1,.ok m.2)) ns ms := by
      refine forall₂_comp.mp (hms.imp fun e m h => ?_)
      obtain ⟨w,hw,hx⟩ := CheckChains.bind_eq_ok.mp h.2
      exact ⟨(Utf16.encode m.1,w),⟨⟨m.1,h.1,rfl⟩,hw⟩,Prod.ext rfl hx⟩
    replace hns := map_eq_iff_forall₂.mpr hns
    have hn' : (keys ns).Nodup := by
      have hkeys := congrArg keys hns
      simp only [keys,List.map_map] at hkeys
      have := hn.map Utf16.encode_injective
      rw [keys,List.map_map] at this
      exact (show _ = keys ns from hkeys.symm) ▸ this
    refine ⟨ns,⟨hf,hn'⟩,_,?_,rfl⟩
    rw [sortOn_ownOrder enc hn' (htext ⟨hf,hn'⟩),hns,rendered ms]

end

theorem normalizeCanonical_object {es : List (JsStr × JsVal)} {w : JsVal} :
    normalizeCanonical nfc (.object es) = .ok w ↔ ∃ ns : List (JsStr × JsVal),
      List.Forall₂ (fun e n => (∃ k, KeyText nfc e.1 k ∧ n.1 = Utf16.encode k) ∧
        normalizeCanonical nfc e.2 = .ok n.2) es ns ∧ (keys ns).Nodup ∧ w = .object (ownOrder (sortOn utf8 ns)) := by
  simp only [normalizeCanonical,CheckChains.bind_eq_ok,CheckChains.pure_eq_ok,normalizeValues_eq,collect_eq_ok,
    NormalProperties,and_assoc]
  exact exists_congr fun _ => and_congr_right fun _ => and_congr_right fun _ => eq_comm

theorem encodeCanonical_object {es : List (JsStr × JsVal)} {s : JsStr} : encodeCanonical pf (.object es) = .ok s ↔
    ∃ ss, encodeMembers (sortOn utf8 (es.map fun e => (e.1,encodeCanonical pf e.2))) = .ok ss ∧
      s = js "\x7b" ++ (js ",").intercalate ss ++ js "\x7d" := by
  simp only [encodeCanonical,CheckChains.bind_eq_ok,CheckChains.pure_eq_ok,encodeValues_eq]
  exact exists_congr fun _ => and_congr_right fun _ => eq_comm

/-- An object is its members sorted by normalized key, and no two keys may normalize to one. -/
theorem canonical_object {es : List (JsStr × JsVal)} {s : JsStr} : canonical pf (.object es) = .ok s ↔
    ∃ ms : List (List Char × JsStr),
      List.Forall₂ (fun e m => KeyText pf.nfc e.1 m.1 ∧ canonical pf e.2 = .ok m.2) es ms ∧ (keys ms).Nodup ∧
      s = js "\x7b" ++ (js ",").intercalate ((sortOn id ms).map fun m =>
        Utf16.encode (Json.quote m.1) ++ js ":" ++ m.2) ++ js "\x7d" := by
  simp only [canonical_eq_ok]
  rw [← encodeMembers_normal]
  constructor
  · rintro ⟨w,hw,hs⟩
    obtain ⟨ns,hf,hn,rfl⟩ := normalizeCanonical_object.mp hw
    exact ⟨ns,⟨hf,hn⟩,encodeCanonical_object.mp hs⟩
  · rintro ⟨ns,⟨hf,hn⟩,hs⟩
    exact ⟨_,normalizeCanonical_object.mpr ⟨ns,hf,hn,rfl⟩,encodeCanonical_object.mpr hs⟩

end Node
end ExecutionFinality
