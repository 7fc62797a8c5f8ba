import ExecutionFinality.Library.CheckChains
import ExecutionFinality.Library.JsonText
import ExecutionFinality.Library.Utf8

/-! The Python values that reach the reference implementation, the exceptions it
raises, and the library functions it calls. -/
namespace ExecutionFinality
open Utf8 (Bytes)

abbrev CodePoint := Fin 0x110000

/-- A Python `str`: any code points, lone surrogates included. -/
abbrev PyStr := List CodePoint

namespace PyStr

def IsSurrogate (c : CodePoint) : Prop := 0xD800 ≤ c.val ∧ c.val ≤ 0xDFFF

instance (c : CodePoint) : Decidable (IsSurrogate c) := inferInstanceAs (Decidable (_ ∧ _))

def ofChar (c : Char) : CodePoint := ⟨c.toNat,by
  rcases c.valid with h | h
  · exact Nat.lt_trans h (by decide)
  · exact h.2⟩

def ofChars (s : List Char) : PyStr := s.map ofChar

/-- The text as Unicode scalar values, when it has no surrogate. -/
def scalars : PyStr → Option (List Char)
  | [] => some []
  | c :: s => if IsSurrogate c then none else (scalars s).map (Char.ofNat c.val :: ·)

theorem scalars_ofChars (s : List Char) : scalars (ofChars s) = some s := by
  induction s with
  | nil => rfl
  | cons c s ih =>
    have hc : ¬ IsSurrogate (ofChar c) := by
      have hv : c.toNat < 0xD800 ∨ 0xDFFF < c.toNat ∧ c.toNat < 0x110000 := c.valid
      have he : (ofChar c).val = c.toNat := rfl
      unfold IsSurrogate
      omega
    change scalars (ofChar c :: ofChars s) = _
    rw [scalars,if_neg hc,ih]
    simp [ofChar]

theorem eq_ofChars_of_scalars {s : PyStr} {t : List Char} (h : scalars s = some t) : s = ofChars t := by
  induction s generalizing t with
  | nil => cases h; rfl
  | cons c s ih =>
    rw [scalars] at h
    split at h
    · cases h
    · rename_i hc
      obtain ⟨r,hr,rfl⟩ := Option.map_eq_some_iff.mp h
      have hv : c.val.isValidChar := by
        have := c.isLt
        unfold IsSurrogate at hc
        unfold Nat.isValidChar
        omega
      have he : ofChar (Char.ofNat c.val) = c := Fin.ext (by
        change (Char.ofNat c.val).toNat = c.val
        rw [Char.ofNat,dif_pos hv]
        rfl)
      change _ = ofChar (Char.ofNat c.val) :: ofChars r
      rw [ih hr,he]

theorem ofChars_injective : Function.Injective ofChars := by
  intro s t h
  have := congrArg scalars h
  simpa only [scalars_ofChars,Option.some.injEq] using this

end PyStr

/-- A Python string literal. -/
def py (s : String) : PyStr := PyStr.ofChars s.toList

inductive Exn where
  | canonicalizationError (text : PyStr)
  | valueError (text : PyStr)
  | typeError (text : PyStr)
  | runtimeError (text : PyStr)
  | osError (text : PyStr)
  | validationDenied (text : PyStr)
  | verificationFailed (text : PyStr)
  | replayDetected (text : PyStr)
  | effectDenied (text : PyStr)
  | evidenceError (text : PyStr)
  deriving DecidableEq

/-- `str(exc)` -/
def Exn.str : Exn → PyStr
  | .canonicalizationError t | .valueError t | .typeError t | .runtimeError t | .osError t
  | .validationDenied t | .verificationFailed t | .replayDetected t | .effectDenied t
  | .evidenceError t => t

inductive TextKind where | str | enum
  deriving DecidableEq

inductive SeqKind where | list | tuple
  deriving DecidableEq

inductive MapKind where | dict | dataclass
  deriving DecidableEq

/-- A dictionary key; the reference only asks whether it is a string, `json.dumps` writes these kinds. -/
inductive PyKey where
  | str (s : PyStr)
  | none
  | bool (b : Bool)
  | int (n : Int)
  | other

/-- The kinds record what canonicalization forgets: a `str` or a string
enumeration member, a list or a tuple, a dictionary or a dataclass instance. -/
inductive PyVal where
  | none
  | bool (b : Bool)
  | int (n : Int)
  | float
  | text (k : TextKind) (s : PyStr)
  | bytes (b : Bytes)
  | seq (k : SeqKind) (xs : List PyVal)
  | mapping (k : MapKind) (es : List (PyKey × PyVal))
  | other (typeName : PyStr)

namespace PyVal

@[match_pattern] abbrev str (s : PyStr) : PyVal := .text .str s
@[match_pattern] abbrev list (xs : List PyVal) : PyVal := .seq .list xs
@[match_pattern] abbrev tuple (xs : List PyVal) : PyVal := .seq .tuple xs
@[match_pattern] abbrev dict (es : List (PyKey × PyVal)) : PyVal := .mapping .dict es
@[match_pattern] abbrev dataclass (es : List (PyKey × PyVal)) : PyVal := .mapping .dataclass es

/-- Induction through the elements of a sequence and the entries of a mapping. -/
theorem recOn_members {P : PyVal → Prop} (none : P .none) (bool : ∀ b, P (.bool b))
    (int : ∀ n, P (.int n)) (float : P .float) (text : ∀ k s, P (.text k s))
    (bytes : ∀ b, P (.bytes b)) (seq : ∀ k (xs : List PyVal), (∀ x ∈ xs, P x) → P (.seq k xs))
    (mapping : ∀ k (es : List (PyKey × PyVal)), (∀ e ∈ es, P e.2) → P (.mapping k es))
    (other : ∀ t, P (.other t)) : ∀ v, P v :=
  PyVal.rec (motive_1 := P) (motive_2 := fun xs => ∀ x ∈ xs, P x)
    (motive_3 := fun es => ∀ e ∈ es, P e.2) (motive_4 := fun e => P e.2)
    none bool int float text bytes seq mapping other (by simp) (by simp_all) (by simp) (by simp_all)
    (fun _ _ h => h)

end PyVal

/-- `unicodedata.normalize("NFC", s)` on Unicode scalar strings. -/
structure Nfc where
  run : List Char → List Char
  idempotent : ∀ s, run (run s) = run s

/-- ASCII text is in every normalization form. -/
def Nfc.FixesAscii (nfc : Nfc) : Prop := ∀ s : List Char, (∀ c ∈ s, c.toNat < 128) → nfc.run s = s

/-- The library functions of the Python process. `intMaxStrDigits` is the limit on
the digits of a printed integer; zero switches it off. -/
structure Platform where
  nfc : Nfc
  sha256 : Bytes → Bytes
  hmacSha256 : Bytes → Bytes → Bytes
  ed25519Public : Bytes → Bytes
  ed25519Sign : Bytes → Bytes → Bytes
  ed25519Verify : Bytes → Bytes → Bytes → Bool
  ed25519Verify_sign : ∀ key m, ed25519Verify (ed25519Public key) (ed25519Sign key m) m = true
  intMaxStrDigits : Nat
  intMaxStrDigits_threshold : intMaxStrDigits = 0 ∨ 640 ≤ intMaxStrDigits

/-- Lower-case hexadecimal digits, as `bytes.hex()` and `hexdigest()` print them. -/
def hexChars (b : Bytes) : List Char :=
  b.flatMap (fun x => [Nat.digitChar (x.toNat / 16),Nat.digitChar (x.toNat % 16)])

private def hexDigitValue (c : Char) : Nat := if c.isDigit then c.toNat - 48 else c.toNat - 87

theorem hexChars_injective : Function.Injective hexChars := by
  intro a
  induction a with
  | nil =>
    intro b h
    cases b with
    | nil => rfl
    | cons y b => cases h
  | cons x a ih =>
    intro b h
    cases b with
    | nil => cases h
    | cons y b =>
      simp only [hexChars,List.flatMap_cons,List.cons_append,List.nil_append,List.cons.injEq] at h
      obtain ⟨hhi,hlo,hrest⟩ := h
      have digit : ∀ d < 16, hexDigitValue (Nat.digitChar d) = d := by decide
      have hx := x.toNat_lt
      have hy := y.toNat_lt
      have e1 := congrArg hexDigitValue hhi
      have e2 := congrArg hexDigitValue hlo
      rw [digit _ (by omega),digit _ (by omega)] at e1 e2
      rw [ih hrest,UInt8.toNat_inj.mp (by omega : x.toNat = y.toNat)]

theorem digit_of_mem_hexChars {b : Bytes} {c : Char} (h : c ∈ hexChars b) :
    ∃ d < 16, c = Nat.digitChar d := by
  obtain ⟨x,_,hx⟩ := List.mem_flatMap.mp h
  have := x.toNat_lt
  rcases List.mem_cons.mp hx with rfl | hx
  · exact ⟨_,by omega,rfl⟩
  · exact ⟨_,by omega,List.mem_singleton.mp hx⟩

theorem hexChars_ascii (b : Bytes) : ∀ c ∈ hexChars b, c.toNat < 128 := by
  intro c hc
  obtain ⟨d,hd,he⟩ := digit_of_mem_hexChars hc
  have digit : ∀ d < 16, (Nat.digitChar d).toNat < 128 := by decide
  exact he ▸ digit d hd

/-- The only string with a given lower-case hexadecimal NFC is that string. -/
def Nfc.HexRigid (nfc : Nfc) : Prop := ∀ s b, nfc.run s = hexChars b ↔ s = hexChars b

/-! A closed instance: the platform composes U+212A to `K` and hashes every byte string
to itself. -/

private def kelvin (c : Char) : Char := if c = '\u212A' then 'K' else c

private theorem kelvin_ascii {c : Char} (h : c.toNat < 128) : kelvin c = c := by
  apply if_neg
  rintro rfl
  revert h
  decide

private theorem kelvin_kelvin (c : Char) : kelvin (kelvin c) = kelvin c := by
  by_cases h : c = '\u212A'
  · subst h
    decide
  · simp [kelvin,h]

def sampleNfc : Nfc where
  run := List.map kelvin
  idempotent s := by simp only [List.map_map,Function.comp_def,kelvin_kelvin]

theorem sampleNfc_fixesAscii : sampleNfc.FixesAscii := by
  intro s hs
  exact (List.map_congr_left fun c hc => kelvin_ascii (hs c hc)).trans s.map_id

theorem sampleNfc_hexRigid : sampleNfc.HexRigid := by
  intro s b
  constructor
  · intro h
    have hs : ∀ c ∈ s, kelvin c = c := by
      intro c hc
      apply if_neg
      intro hk
      have hm : kelvin c ∈ hexChars b := h ▸ List.mem_map_of_mem hc
      rw [kelvin,if_pos hk] at hm
      obtain ⟨d,hd,he⟩ := digit_of_mem_hexChars hm
      have digit : ∀ d < 16, 'K' ≠ Nat.digitChar d := by decide
      exact digit d hd he
    exact ((List.map_congr_left hs).trans s.map_id).symm.trans h
  · rintro rfl
    exact sampleNfc_fixesAscii _ (hexChars_ascii b)

def samplePlatform : Platform where
  nfc := sampleNfc
  sha256 data := data
  hmacSha256 key m := key ++ m
  ed25519Public key := key
  ed25519Sign key m := key ++ m
  ed25519Verify publicKey signature m := signature = publicKey ++ m
  ed25519Verify_sign := by simp
  intMaxStrDigits := 4300
  intMaxStrDigits_threshold := .inr (by decide)

end ExecutionFinality
