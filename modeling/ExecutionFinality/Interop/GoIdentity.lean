import ExecutionFinality.Interop.GoVerifier
import ExecutionFinality.Library.JsonData
import ExecutionFinality.Library.JsonUnambiguous

/-! What the Go values of one canonical encoding have in common. -/
namespace ExecutionFinality
open Utf8 (Bytes)
open KeyedEntries
open JsonTree (Alike Meets Regular Numerals)

namespace Go

/-- `SHA256` -/
def sha256 (pf : Platform) (v : GoAny) : Except Err GoStr := do
  let c ← canonical pf.nfc v
  return Utf8.encode (hexChars (pf.sha256 c))

/-- `HMACSHA256` -/
def hmacSha256 (pf : Platform) (v : GoAny) (key : Bytes) : Except Err GoStr := do
  let c ← canonical pf.nfc v
  return Utf8.encode (hexChars (pf.hmacSha256 key c))

def Digits (ds : List Char) : Prop := ds ≠ [] ∧ ∀ c ∈ ds, c.isDigit = true

/-- The fraction of a JSON number -/
def Fraction (s : List Char) : Prop := s = [] ∨ ∃ ds, Digits ds ∧ s = '.' :: ds

/-- The exponent of a JSON number -/
def Exponent (s : List Char) : Prop :=
  s = [] ∨ ∃ e sign ds, e ∈ ['e','E'] ∧ sign ∈ [[],['+'],['-']] ∧ Digits ds ∧ s = e :: sign ++ ds

/-- A number of the JSON grammar, whose integer part has no leading zeros. -/
def NumberToken (s : List Char) : Prop :=
  ∃ sign n fraction exponent, sign ∈ [[],['-']] ∧ Fraction fraction ∧ Exponent exponent ∧
    s = sign ++ Nat.toDigits 10 n ++ fraction ++ exponent

/-- What `json.Decoder` yields with `UseNumber` for an `any`: numbers as their tokens,
valid UTF-8, and maps. -/
inductive Decoded : GoAny → Prop
  | nil : Decoded .nil
  | bool (b : Bool) : Decoded (.bool b)
  | number {s : List Char} (h : NumberToken s) : Decoded (.number (Utf8.encode s))
  | string (cs : List Char) : Decoded (.string (Utf8.encode cs))
  | slice {xs : List GoAny} (h : ∀ x ∈ xs, Decoded x) : Decoded (.slice xs)
  | map {es : List (GoStr × GoAny)} (hn : (keys es).Nodup) (hk : ∀ e ∈ es, ∃ cs, e.1 = Utf8.encode cs)
    (h : ∀ e ∈ es, Decoded e.2) : Decoded (.map es)

/-- The spellings of integers that JSON allows: the plain one, and `-0` -/
inductive Numeral where
  | int (n : Int)
  | negativeZero

def Numeral.text : Numeral → List Char
  | .int n => Json.printInt n
  | .negativeZero => ['-','0']

def Numeral.value : Numeral → Int
  | .int n => n
  | .negativeZero => 0

def numeral? (n : GoStr) : Option Numeral :=
  if n = go "-0" then some .negativeZero
  else match setString n with
    | some z => if n = Utf8.encode (Json.printInt z) then some (.int z) else none
    | none => none

mutual
/-- The data that a value denotes, integers with their spellings. -/
def document : GoAny → Option (JsonTree Numeral)
  | .nil => some .null
  | .bool b => some (.bool b)
  | .number n => (numeral? n).map .num
  | .string s => (Utf8.decode s).map .str
  | .slice xs => (documentElements xs).map .arr
  | .map es => (documentMembers es).map .obj
  | .other _ => none

def documentElements : List GoAny → Option (List (JsonTree Numeral))
  | [] => some []
  | x :: xs => do return (← document x) :: (← documentElements xs)

def documentMembers : List (GoStr × GoAny) → Option (List (List Char × JsonTree Numeral))
  | [] => some []
  | (k,v) :: es => do return (← Utf8.decode k,← document v) :: (← documentMembers es)
end

/-- The same data: integers by value, strings and keys up to NFC, maps in any order. -/
def SameData (nfc : Nfc) (v w : GoAny) : Prop :=
  ∃ t u, document v = some t ∧ document w = some u ∧ Alike (fun m n => m.value = n.value) nfc.run t u

/-- At some common position one value holds the token `0` and the other `-0`. -/
def SignedZero (nfc : Nfc) (v w : GoAny) : Prop :=
  ∃ t u, document v = some t ∧ document w = some u ∧
    Meets (fun m n => m = .int 0 ∧ n = .negativeZero ∨ m = .negativeZero ∧ n = .int 0) nfc.run t u

theorem numeral_text : Numerals Numeral.text where
  lead m := by
    cases m with
    | int n => exact Json.printInt_numerals.lead n
    | negativeZero => exact ⟨_,_,rfl,.inl rfl⟩
  delimited := by
    -- `-0` is no plain spelling: after the sign it would spell zero.
    have zero {n : Int} {x y : List Char} (hx : Json.Ends x) (hy : Json.Ends y)
        (h : Json.printInt n ++ x = '-' :: '0' :: y) : False := by
      cases n with
      | ofNat n => exact Json.digits_head n x _ h
      | negSucc n => cases (Json.digits_append_inj (n := 0) hx hy (List.cons.inj h).2).1
    intro m n x y hx hy h
    cases m with
    | int m =>
      cases n with
      | int n =>
        obtain ⟨rfl,hxy⟩ := Json.printInt_append_inj hx hy h
        exact ⟨rfl,hxy⟩
      | negativeZero => exact (zero hx hy h).elim
    | negativeZero =>
      cases n with
      | int n => exact (zero hy hx h.symm).elim
      | negativeZero => exact ⟨rfl,List.append_cancel_left h⟩

/-- Numerals of one value are one numeral, or the two spellings of zero. -/
theorem numeral_eq_iff {m n : Numeral} : m = n ↔ m.value = n.value ∧
    ¬ (m = .int 0 ∧ n = .negativeZero ∨ m = .negativeZero ∧ n = .int 0) := by
  cases m <;> cases n <;> simp [Numeral.value]
  omega

theorem digits?_eq_some {ds : List Char} {n : Nat} : digits? ds = some n ↔ Digits ds ∧ Nat.ofDigitChars 10 ds 0 = n := by
  simp [digits?,Digits]

/-- A token whose text after the sign is all digits has no fraction and no exponent. -/
theorem plain_of_digits {n : Nat} {fraction exponent : List Char} (hf : Fraction fraction) (he : Exponent exponent)
    (h : Digits (Nat.toDigits 10 n ++ fraction ++ exponent)) : fraction = [] ∧ exponent = [] := by
  have digit {c : Char} (hc : c ∈ fraction ++ exponent) : c.isDigit = true := h.2 c (by
    rw [List.append_assoc]
    exact List.mem_append_right _ hc)
  constructor
  · rcases hf with hf | ⟨ds,_,rfl⟩
    · exact hf
    · exact absurd (digit (c := '.') (by simp)) (by decide)
  · rcases he with he | ⟨e,sign,ds,hmem,_,_,rfl⟩
    · exact he
    · have hdigit := digit (c := e) (by simp)
      simp only [List.mem_cons,List.not_mem_nil,or_false] at hmem
      rcases hmem with rfl | rfl <;> exact absurd hdigit (by decide)

theorem setString_minus (ds : List Char) :
    setString (Utf8.encode ('-' :: ds)) = (digits? ds).map fun n : Nat => -(n : Int) := by
  rw [setString,Utf8.decode_encode]
  cases h : digits? ds <;> simp only [h] <;> rfl

theorem setString_digit {c : Char} (hc : c.isDigit = true) (ds : List Char) :
    setString (Utf8.encode (c :: ds)) = (digits? (c :: ds)).map Int.ofNat := by
  rw [setString,Utf8.decode_encode]
  split
  · rename_i h
    cases h
  · rename_i h
    cases h
    exact absurd hc (by decide)
  · rename_i h
    cases h
    exact absurd hc (by decide)
  · rename_i h
    cases h
    rfl

/-- A JSON number that is read as an integer is spelled plainly, or is `-0`. -/
theorem numberToken_spelling {s : List Char} (h : NumberToken s) {z : Int} (hz : setString (Utf8.encode s) = some z) :
    ∃ m, s = Numeral.text m ∧ z = m.value := by
  obtain ⟨sign,n,fraction,exponent,hsign,hf,he,rfl⟩ := h
  simp only [List.mem_cons,List.not_mem_nil,or_false] at hsign
  rcases hsign with rfl | rfl
  · obtain ⟨c,r,hn⟩ := List.exists_cons_of_ne_nil (Nat.toDigits_ne_nil (n := n) (b := 10))
    have hc : c.isDigit := Nat.isDigit_of_mem_toDigits (b := 10) (n := n) (by decide) (by decide) (by rw [hn]; simp)
    rw [List.nil_append,hn,List.cons_append,List.cons_append,setString_digit hc,← List.cons_append,← List.cons_append,
      ← hn] at hz
    obtain ⟨k,hk,rfl⟩ := Option.map_eq_some_iff.mp hz
    obtain ⟨rfl,rfl⟩ := plain_of_digits hf he (digits?_eq_some.mp hk).1
    rw [List.append_nil,List.append_nil,digits?_toDigits] at hk
    cases hk
    exact ⟨.int n,by simp [Numeral.text,Json.printInt],rfl⟩
  · rw [List.cons_append,List.cons_append,List.cons_append,setString_minus,List.nil_append] at hz
    obtain ⟨k,hk,rfl⟩ := Option.map_eq_some_iff.mp hz
    obtain ⟨rfl,rfl⟩ := plain_of_digits hf he (digits?_eq_some.mp hk).1
    rw [List.append_nil,List.append_nil,digits?_toDigits] at hk
    cases hk
    cases n with
    | zero => exact ⟨.negativeZero,rfl,rfl⟩
    | succ n => exact ⟨.int (.negSucc n),by simp [Numeral.text,Json.printInt],rfl⟩

theorem validateInteger_eq_ok {n : GoStr} {u : Unit} : validateInteger n = .ok u ↔
    ∃ z, setString n = some z ∧ -maxSafeInteger ≤ z ∧ z ≤ maxSafeInteger := by
  unfold validateInteger
  split
  · simp [*]
  · rename_i z hz
    simp only [CheckChains.failIf_eq_ok,hz,Option.some.injEq,exists_eq_left']
    omega

theorem numeral?_eq_some {n : GoStr} {m : Numeral} : numeral? n = some m ↔ n = Utf8.encode m.text := by
  constructor
  · intro h
    unfold numeral? at h
    split_ifs at h with h0
    · cases h
      exact h0
    · split at h
      · split_ifs at h with hn
        cases h
        exact hn
      · cases h
  · rintro rfl
    cases m with
    | int n =>
      have hne : Utf8.encode (Json.printInt n) ≠ go "-0" := fun h =>
        nomatch numeral_text.delimited (m := .int n) (n := .negativeZero) Json.ends_nil Json.ends_nil
          (congrArg (· ++ []) (Utf8.encode_injective h))
      simp only [numeral?,Numeral.text,if_neg hne,setString_printInt,if_true]
    | negativeZero => rfl

theorem setString_text (m : Numeral) : setString (Utf8.encode m.text) = some m.value := by
  cases m with
  | int n => exact setString_printInt n
  | negativeZero => decide

theorem documentElements_eq (xs : List GoAny) : documentElements xs = xs.mapM document := by
  induction xs with
  | nil => rfl
  | cons x xs ih => rw [documentElements,ih,List.mapM_cons]

theorem documentMembers_eq (es : List (GoStr × GoAny)) :
    documentMembers es = es.mapM fun e => do return (← Utf8.decode e.1,← document e.2) := by
  induction es with
  | nil => rfl
  | cons e es ih =>
    obtain ⟨k,v⟩ := e
    simp only [documentMembers,ih,List.mapM_cons,bind_assoc,pure_bind]

theorem document_slice {xs : List GoAny} {t : JsonTree Numeral} : document (.slice xs) = some t ↔
    ∃ ts, List.Forall₂ (fun x t => document x = some t) xs ts ∧ t = .arr ts := by
  simp only [document,documentElements_eq,Option.map_eq_some_iff,CheckChains.mapM_eq_some]
  exact exists_congr fun _ => and_congr_right fun _ => eq_comm

theorem document_map {es : List (GoStr × GoAny)} {t : JsonTree Numeral} : document (.map es) = some t ↔
    ∃ ms, List.Forall₂ (fun e m => Utf8.decode e.1 = some m.1 ∧ document e.2 = some m.2) es ms ∧ t = .obj ms := by
  simp only [document,documentMembers_eq,Option.map_eq_some_iff,mapM_entry_eq_some]
  exact exists_congr fun _ => and_congr_right fun _ => eq_comm

/-- The documents that are encoded -/
abbrev Writable (nfc : Nfc) (t : JsonTree Numeral) : Prop :=
  Regular nfc.run (fun m => -maxSafeInteger ≤ m.value ∧ m.value ≤ maxSafeInteger) t

variable {nfc : Nfc}

/-- The canonical encoding of a decoded value is the normalized text of its document. -/
theorem canonical_eq_ok {v : GoAny} (hv : Decoded v) : ∀ b, canonical nfc v = .ok b ↔
    ∃ t, document v = some t ∧ Writable nfc t ∧ b = t.render Utf8.encode Numeral.text nfc.run := by
  induction hv with
  | nil =>
    intro b
    constructor
    · rintro ⟨⟩
      exact ⟨_,rfl,.null,rfl⟩
    · rintro ⟨_,⟨⟩,_,rfl⟩
      rfl
  | bool c =>
    intro b
    constructor
    · intro h
      refine ⟨_,rfl,.bool c,?_⟩
      cases c <;> exact (Except.ok.inj h).symm
    · rintro ⟨_,⟨⟩,_,rfl⟩
      cases c <;> rfl
  | @number s h =>
    intro b
    simp only [canonical,appendCanonical,CheckChains.bind_eq_ok,CheckChains.pure_eq_ok,validateInteger_eq_ok,document,
      Option.map_eq_some_iff,numeral?_eq_some]
    constructor
    · rintro ⟨_,⟨z,hz,hr⟩,rfl⟩
      obtain ⟨m,rfl,rfl⟩ := numberToken_spelling h hz
      exact ⟨_,⟨m,rfl,rfl⟩,.num hr,rfl⟩
    · rintro ⟨_,⟨m,hm,rfl⟩,hreg,rfl⟩
      cases hreg with
      | num hr => exact ⟨(),⟨_,hm ▸ setString_text m,hr⟩,hm⟩
  | string cs =>
    intro b
    simp only [canonical,appendCanonical,appendJSONString_eq_ok,document,Utf8.decode_encode,Option.map_some]
    constructor
    · rintro ⟨ds,he,rfl⟩
      cases Utf8.encode_injective he
      exact ⟨_,rfl,.str cs,rfl⟩
    · rintro ⟨_,⟨⟩,_,rfl⟩
      exact ⟨cs,rfl,rfl⟩
  | @slice xs _ ih =>
    intro b
    simp only [document_slice]
    rw [← JsonTree.canon_arr_iff Utf8.encode_append ih]
    simp only [canonical,appendCanonical,CheckChains.bind_eq_ok,CheckChains.pure_eq_ok,appendElements_eq,
      CheckChains.mapM_eq_ok]
    exact exists_congr fun _ => and_congr_right fun _ => eq_comm
  | @map es _ _ _ ih =>
    intro b
    have hkey (k : GoStr) (c : List Char) : KeyText nfc k c ↔ ∃ cs, Utf8.decode k = some cs ∧ c = nfc.run cs :=
      exists_congr fun cs => and_congr decode_eq_some_iff.symm eq_comm
    simp only [document_map]
    exact appendCanonical_map.trans (JsonTree.canon_obj_iff Utf8.encode_append (fun v b => canonical nfc v = .ok b)
      (fun v t => document v = some t) hkey ih b)

/-- Equal encodings are the same data, except where zero has two spellings. -/
theorem canonical_eq_iff {v w : GoAny} (hv : Decoded v) (hw : Decoded w) {a b : Bytes} (ha : canonical nfc v = .ok a)
    (hb : canonical nfc w = .ok b) : a = b ↔ SameData nfc v w ∧ ¬ SignedZero nfc v w := by
  obtain ⟨t,ht,hreg,rfl⟩ := (canonical_eq_ok hv a).mp ha
  obtain ⟨u,hu,_,rfl⟩ := (canonical_eq_ok hw b).mp hb
  have both {T : JsonTree Numeral → JsonTree Numeral → Prop} :
      (∃ t' u', document v = some t' ∧ document w = some u' ∧ T t' u') ↔ T t u := by
    rw [ht,hu]
    constructor
    · rintro ⟨_,_,⟨⟩,⟨⟩,h⟩
      exact h
    · exact fun h => ⟨t,u,rfl,rfl,h⟩
  rw [SameData,SignedZero,both,both,← JsonTree.alike_iff_not_meets (fun m n => numeral_eq_iff) t u hreg]
  rw [JsonTree.render,JsonTree.render,Utf8.encode_injective.eq_iff]
  exact JsonTree.print_normalize_eq_iff numeral_text hreg

end Go
end ExecutionFinality
