import ExecutionFinality.Library.CheckChains
import ExecutionFinality.Reference.PythonValues

/-! `canonical.go`: the canonical encoding of the Go verifier. -/
namespace ExecutionFinality
open Utf8 (Bytes)
open KeyedEntries

/-- A Go `string`: any bytes. -/
abbrev GoStr := Bytes

/-- A Go string literal. -/
def go (s : String) : GoStr := Utf8.encode s.toList

/-- What `json.Decoder.UseNumber` decodes; `other` is any further dynamic type. The
entries of a map are listed in the order in which the runtime iterates over it. -/
inductive GoAny where
  | nil
  | bool (b : Bool)
  | number (token : GoStr)
  | string (s : GoStr)
  | slice (xs : List GoAny)
  | map (es : List (GoStr × GoAny))
  | other (typeName : GoStr)

namespace Go

inductive Err where
  /-- `non-integer number %s` -/
  | nonInteger (s : GoStr)
  /-- `integer outside portable safe range: %s` -/
  | outsideSafeRange (s : GoStr)
  /-- `invalid UTF-8 string` -/
  | invalidString
  /-- `invalid UTF-8 object key` -/
  | invalidKey
  /-- `key collision after Unicode normalization: %q` -/
  | keyCollision (k : GoStr)
  /-- `unsupported %T` -/
  | unsupported (typeName : GoStr)

def maxSafeInteger : Int := 9007199254740991

/-- Decimal digits, at least one. -/
def digits? (s : List Char) : Option Nat :=
  if s ≠ [] ∧ s.all Char.isDigit then some (Nat.ofDigitChars 10 s 0) else none

/-- `z.SetString(s, 10)` -/
def setString (s : GoStr) : Option Int :=
  match Utf8.decode s with
  | none => none
  | some ('-' :: ds) => (digits? ds).map fun n => -(n : Int)
  | some ('+' :: ds) => (digits? ds).map Int.ofNat
  | some ds => (digits? ds).map Int.ofNat

def validateInteger (n : GoStr) : Except Err Unit :=
  match setString n with
  | none => .error (.nonInteger n)
  | some z => failIf (z > maxSafeInteger ∨ z < -maxSafeInteger) (.outsideSafeRange n)

/-- One turn of the loop of `appendJSONString` -/
def appendRune (r : Char) : Bytes :=
  if r = '"' then go "\\\""
  else if r = '\\' then go "\\\\"
  else if r = '\x08' then go "\\b"
  else if r = '\x0c' then go "\\f"
  else if r = '\n' then go "\\n"
  else if r = '\r' then go "\\r"
  else if r = '\t' then go "\\t"
  else if r.toNat < 0x20 then
    go "\\u" ++ Utf8.encode [Nat.digitChar (r.toNat / 4096 % 16),Nat.digitChar (r.toNat / 256 % 16),
      Nat.digitChar (r.toNat / 16 % 16),Nat.digitChar (r.toNat % 16)]
  else Utf8.encode [r]

/-- The bytes that the call appends to the buffer -/
def appendJSONString (nfc : Nfc) (s : GoStr) : Except Err Bytes :=
  match Utf8.decode s with
  | none => .error .invalidString
  | some rs => .ok (go "\"" ++ (nfc.run rs).flatMap appendRune ++ go "\"")

/-- The loop over `range x`; `normalized` holds the entries so far. -/
def normalizeKeys {α : Type} (nfc : Nfc) (es normalized : List (GoStr × α)) : Except Err (List (GoStr × α)) :=
  collect
    (fun rawKey => match Utf8.decode rawKey with
      | none => .error .invalidKey
      | some rs => .ok (Utf8.encode (nfc.run rs)))
    .keyCollision .ok es normalized

/-- The loop over the sorted keys: the key and what its value appends, in one piece
for every turn. -/
def appendMembers (nfc : Nfc) : List (GoStr × Except Err Bytes) → Except Err (List Bytes)
  | [] => .ok []
  | (k,val) :: es => do
    let key ← appendJSONString nfc k
    let value ← val
    return (key ++ go ":" ++ value) :: (← appendMembers nfc es)

mutual
/-- The bytes that the call appends to the buffer -/
def appendCanonical (nfc : Nfc) : GoAny → Except Err Bytes
  | .nil => .ok (go "null")
  | .bool true => .ok (go "true")
  | .bool false => .ok (go "false")
  | .number n => do
    validateInteger n
    return n
  | .string s => appendJSONString nfc s
  | .slice xs => do return go "[" ++ (go ",").intercalate (← appendElements nfc xs) ++ go "]"
  | .map es => do
    let normalized ← normalizeKeys nfc (appendValues nfc es) []
    return go "\x7b" ++ (go ",").intercalate (← appendMembers nfc (sortOn id normalized)) ++ go "\x7d"
  | .other typeName => .error (.unsupported typeName)

def appendElements (nfc : Nfc) : List GoAny → Except Err (List Bytes)
  | [] => .ok []
  | e :: es => do return (← appendCanonical nfc e) :: (← appendElements nfc es)

/-- What each value of a map appends, once its turn comes -/
def appendValues (nfc : Nfc) : List (GoStr × GoAny) → List (GoStr × Except Err Bytes)
  | [] => []
  | (k,v) :: es => (k,appendCanonical nfc v) :: appendValues nfc es
end

def canonical (nfc : Nfc) (v : GoAny) : Except Err Bytes := appendCanonical nfc v

theorem digits?_toDigits (n : Nat) : digits? (Nat.toDigits 10 n) = some n := by
  have hd : Nat.toDigits 10 n ≠ [] ∧ ∀ c ∈ Nat.toDigits 10 n, c.isDigit :=
    ⟨Nat.toDigits_ne_nil,fun c hc => Nat.isDigit_of_mem_toDigits (by decide) (by decide) hc⟩
  rw [digits?,if_pos ⟨hd.1,List.all_eq_true.mpr hd.2⟩,Nat.ofDigitChars_ten_toDigits]

/-- A plain decimal token is read as its integer. -/
theorem setString_printInt (n : Int) : setString (Utf8.encode (Json.printInt n)) = some n := by
  unfold setString
  rw [Utf8.decode_encode]
  cases n with
  | negSucc n =>
    simp only [Json.printInt,digits?_toDigits]
    rfl
  | ofNat n =>
    simp only [Json.printInt]
    have hdigit : ∀ c ∈ Nat.toDigits 10 n, c.isDigit := fun c hc =>
      Nat.isDigit_of_mem_toDigits (by decide) (by decide) hc
    split
    · rename_i h
      cases h
    · rename_i ds h
      exact absurd (hdigit '-' (by rw [Option.some.inj h]; simp)) (by decide)
    · rename_i ds h
      exact absurd (hdigit '+' (by rw [Option.some.inj h]; simp)) (by decide)
    · rename_i ds _ _ h
      rw [← Option.some.inj h,digits?_toDigits]
      rfl

theorem validateInteger_printInt {n : Int} {u : Unit} : validateInteger (Utf8.encode (Json.printInt n)) = .ok u ↔
    -maxSafeInteger ≤ n ∧ n ≤ maxSafeInteger := by
  rw [validateInteger,setString_printInt]
  simp only [CheckChains.failIf_eq_ok]
  omega

/-- The switch writes the escapes of compact JSON. -/
theorem appendRune_eq (r : Char) : appendRune r = Utf8.encode (Json.escapeChar r) := by
  unfold appendRune Json.escapeChar
  have hcode (n : Nat) (c : Char) (hc : c.toNat = n) : r = c ↔ r.toNat = n := by
    rw [← hc,Char.toNat_inj]
  rw [if_congr (hcode 8 '\x08' rfl) rfl rfl,if_congr (hcode 12 '\x0c' rfl) rfl rfl]
  split_ifs with _ _ _ _ _ _ _ h
  all_goals try rfl
  have h1 : r.toNat / 4096 % 16 = 0 := by omega
  have h2 : r.toNat / 256 % 16 = 0 := by omega
  have h3 : r.toNat / 16 % 16 = r.toNat / 16 := by omega
  rw [h1,h2,h3]
  rfl

theorem flatMap_appendRune (s : List Char) : s.flatMap appendRune = Utf8.encode (s.flatMap Json.escapeChar) := by
  induction s with
  | nil => rfl
  | cons c s ih => rw [List.flatMap_cons,List.flatMap_cons,Utf8.encode_append,ih,appendRune_eq]

variable {nfc : Nfc}

theorem decode_eq_some_iff {s : GoStr} {cs : List Char} : Utf8.decode s = some cs ↔ s = Utf8.encode cs :=
  ⟨Utf8.decode_eq_some,fun h => h ▸ Utf8.decode_encode cs⟩

theorem appendJSONString_eq_ok {s : GoStr} {b : Bytes} : appendJSONString nfc s = .ok b ↔
    ∃ cs, s = Utf8.encode cs ∧ b = Utf8.encode (Json.quote (nfc.run cs)) := by
  unfold appendJSONString
  have hquote (cs : List Char) : go "\"" ++ cs.flatMap appendRune ++ go "\"" = Utf8.encode (Json.quote cs) := by
    rw [flatMap_appendRune,Json.quote,List.cons_append,Utf8.encode_cons,Utf8.encode_append]
    rfl
  split
  · rename_i h
    constructor
    · rintro ⟨⟩
    · rintro ⟨cs,hs,_⟩
      rw [decode_eq_some_iff.mpr hs] at h
      cases h
  · rename_i rs h
    rw [hquote]
    constructor
    · intro hb
      exact ⟨rs,decode_eq_some_iff.mp h,(Except.ok.inj hb).symm⟩
    · rintro ⟨cs,hs,rfl⟩
      cases h.symm.trans (decode_eq_some_iff.mpr hs)
      rfl

theorem appendElements_eq (xs : List GoAny) : appendElements nfc xs = xs.mapM (appendCanonical nfc) := by
  induction xs with
  | nil => rfl
  | cons x xs ih => rw [appendElements,ih,List.mapM_cons]

theorem appendValues_eq (es : List (GoStr × GoAny)) :
    appendValues nfc es = es.map fun e => (e.1,appendCanonical nfc e.2) := by
  induction es with
  | nil => rfl
  | cons e es ih => rw [appendValues,ih,List.map_cons]

theorem appendMembers_eq (ms : List (GoStr × Except Err Bytes)) : appendMembers nfc ms =
    ms.mapM fun m => do
      let key ← appendJSONString nfc m.1
      let value ← m.2
      return key ++ go ":" ++ value := by
  induction ms with
  | nil => rfl
  | cons m ms ih => simp only [appendMembers,ih,List.mapM_cons,bind_assoc,pure_bind]

/-- The members are appended in their order; a value that fails stops the loop. -/
theorem appendMembers_eq_ok {ms : List (GoStr × Except Err Bytes)} {bs : List Bytes} :
    appendMembers nfc ms = .ok bs ↔ List.Forall₂ (fun m b => ∃ k, appendJSONString nfc m.1 = .ok k ∧ ∃ v,
      m.2 = .ok v ∧ k ++ go ":" ++ v = b) ms bs := by
  simp only [appendMembers_eq,CheckChains.mapM_eq_ok,CheckChains.bind_eq_ok,CheckChains.pure_eq_ok]

/-- A key that normalizes to `k` -/
def KeyText (nfc : Nfc) (rawKey : GoStr) (k : List Char) : Prop := ∃ cs, rawKey = Utf8.encode cs ∧ nfc.run cs = k

theorem normalizeKeys_eq_ok {α : Type} {es normalized : List (GoStr × α)} :
    normalizeKeys nfc es [] = .ok normalized ↔
      List.Forall₂ (fun e m => (∃ k, KeyText nfc e.1 k ∧ m.1 = Utf8.encode k) ∧ e.2 = m.2) es normalized ∧
        (keys normalized).Nodup := by
  have entry (e m : GoStr × α) : ((match Utf8.decode e.1 with
      | none => .error .invalidKey
      | some rs => .ok (Utf8.encode (nfc.run rs))) = (.ok m.1 : Except Err GoStr) ∧ (.ok e.2 : Except Err α) = .ok m.2) ↔
      (∃ k, KeyText nfc e.1 k ∧ m.1 = Utf8.encode k) ∧ e.2 = m.2 := by
    refine and_congr ?_ ⟨Except.ok.inj,congrArg _⟩
    constructor
    · intro h
      split at h
      · cases h
      · rename_i rs hrs
        exact ⟨_,⟨rs,decode_eq_some_iff.mp hrs,rfl⟩,(Except.ok.inj h).symm⟩
    · rintro ⟨k,⟨cs,hcs,rfl⟩,hm⟩
      rw [decode_eq_some_iff.mpr hcs,hm]
  simp only [normalizeKeys,collect_eq_ok [] List.nodup_nil,entry,List.nil_append]
  constructor
  · rintro ⟨_,h,hf,hn⟩
    exact ⟨h ▸ hf,hn⟩
  · rintro ⟨hf,hn⟩
    exact ⟨_,rfl,hf,hn⟩

/-- A map is its members sorted by normalized key, and no two keys may normalize to one. -/
theorem appendCanonical_map {es : List (GoStr × GoAny)} {b : Bytes} : appendCanonical nfc (.map es) = .ok b ↔
    ∃ ms : List (List Char × Bytes),
      List.Forall₂ (fun e m => KeyText nfc e.1 m.1 ∧ appendCanonical nfc e.2 = .ok m.2) es ms ∧ (keys ms).Nodup ∧
      b = go "\x7b" ++ (go ",").intercalate ((sortOn id ms).map fun m =>
        Utf8.encode (Json.quote m.1) ++ go ":" ++ m.2) ++ go "\x7d" := by
  have rendered (ms : List (List Char × Bytes)) (hnfc : ∀ m ∈ ms, nfc.run m.1 = m.1) :
      appendMembers nfc (sortOn id (ms.map fun m => (Utf8.encode m.1,.ok m.2))) =
        .ok ((sortOn id ms).map fun m => Utf8.encode (Json.quote m.1) ++ go ":" ++ m.2) := by
    rw [← sortOn_map id id _ ms fun _ _ _ _ => Utf8.encode_le_iff.symm,appendMembers_eq_ok,
      List.forall₂_map_left_iff,List.forall₂_map_right_iff]
    refine List.forall₂_same.mpr fun m hm => ⟨_,appendJSONString_eq_ok.mpr ⟨_,rfl,rfl⟩,_,rfl,?_⟩
    rw [hnfc m ((mem_sortOn id).mp hm)]
  have normal {es : List (GoStr × GoAny)} {ms : List (List Char × Bytes)}
      (hf : List.Forall₂ (fun e m => KeyText nfc e.1 m.1 ∧ appendCanonical nfc e.2 = .ok m.2) es ms) :
      ∀ m ∈ ms, nfc.run m.1 = m.1 := by
    intro m hm
    obtain ⟨e,_,⟨cs,_,hcs⟩,_⟩ := forall₂_of_mem_right hf hm
    rw [← hcs,nfc.idempotent]
  simp only [appendCanonical,CheckChains.bind_eq_ok,CheckChains.pure_eq_ok,normalizeKeys_eq_ok,appendValues_eq,
    List.forall₂_map_left_iff]
  constructor
  · rintro ⟨N,⟨hf,hn⟩,bs,hbs,rfl⟩
    have hok : ∀ m ∈ N, ∃ v, m.2 = .ok v := by
      intro m hm
      obtain ⟨_,_,_,_,v,hv,_⟩ := forall₂_of_mem_right (appendMembers_eq_ok.mp hbs).flip ((mem_sortOn id).mpr hm)
      exact ⟨v,hv⟩
    obtain ⟨ms,rfl,hms⟩ := exists_values hf hok
    rw [rendered ms (normal hms)] at hbs
    cases hbs
    refine ⟨ms,hms,?_,rfl⟩
    rw [keys,List.map_map] at hn
    exact List.Nodup.of_map Utf8.encode (by rwa [List.map_map])
  · rintro ⟨ms,hms,hn,rfl⟩
    refine ⟨ms.map (fun m => (Utf8.encode m.1,.ok m.2)),⟨?_,?_⟩,_,rendered ms (normal hms),rfl⟩
    · exact List.forall₂_map_right_iff.mpr (hms.imp fun e m h => ⟨⟨_,h.1,rfl⟩,h.2⟩)
    · rw [keys,List.map_map]
      have := hn.map Utf8.encode_injective
      rwa [List.map_map] at this

end Go
end ExecutionFinality
