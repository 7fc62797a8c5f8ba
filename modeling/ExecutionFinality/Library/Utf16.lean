import Mathlib.Data.Char
import Mathlib.Data.UInt
import Mathlib.Tactic.Common

/-! UTF-16 as a code of scalar strings into code units, and the code points that any
sequence of units spells, unpaired surrogates included. -/
namespace ExecutionFinality.Utf16

def IsHigh (u : UInt16) : Prop := 0xD800 ≤ u.toNat ∧ u.toNat ≤ 0xDBFF

def IsLow (u : UInt16) : Prop := 0xDC00 ≤ u.toNat ∧ u.toNat ≤ 0xDFFF

instance (u : UInt16) : Decidable (IsHigh u) := inferInstanceAs (Decidable (_ ∧ _))

instance (u : UInt16) : Decidable (IsLow u) := inferInstanceAs (Decidable (_ ∧ _))

def encodeChar (c : Char) : List UInt16 :=
  if c.toNat < 0x10000 then [UInt16.ofNat c.toNat]
  else [UInt16.ofNat (0xD800 + (c.toNat - 0x10000) / 1024),UInt16.ofNat (0xDC00 + (c.toNat - 0x10000) % 1024)]

def encode (s : List Char) : List UInt16 := s.flatMap encodeChar

/-- The code point of one unit that is no half of a pair. -/
def unit (u : UInt16) : Fin 0x110000 := ⟨u.toNat,Nat.lt_trans u.toNat_lt (by decide)⟩

/-- The code point of a surrogate pair. -/
def pair (u v : UInt16) : Fin 0x110000 :=
  ⟨(0x10000 + (u.toNat - 0xD800) * 1024 + (v.toNat - 0xDC00)) % 0x110000,Nat.mod_lt _ (by decide)⟩

def codePoints : List UInt16 → List (Fin 0x110000)
  | [] => []
  | [u] => [unit u]
  | u :: v :: s => if IsHigh u ∧ IsLow v then pair u v :: codePoints s else unit u :: codePoints (v :: s)

/-- Decoding with U+FFFD in the place of every unpaired surrogate. -/
def decode (s : List UInt16) : List Char :=
  (codePoints s).map fun c => if 0xD800 ≤ c.val ∧ c.val ≤ 0xDFFF then '\uFFFD' else Char.ofNat c.val

@[simp] theorem encode_nil : encode [] = [] := rfl

@[simp] theorem encode_cons (c : Char) (s : List Char) : encode (c :: s) = encodeChar c ++ encode s := rfl

@[simp] theorem encode_append (s t : List Char) : encode (s ++ t) = encode s ++ encode t := List.flatMap_append

private theorem toNat_bounds (c : Char) : c.toNat < 0xD800 ∨ 0xDFFF < c.toNat ∧ c.toNat < 0x110000 := c.valid

/-- A character is one unit that is no surrogate, or a surrogate pair. -/
theorem encodeChar_cases (c : Char) :
    (∃ u, encodeChar c = [u] ∧ u.toNat = c.toNat ∧ ¬ IsHigh u ∧ ¬ IsLow u) ∨
    ∃ u v, encodeChar c = [u,v] ∧ (pair u v).val = c.toNat ∧ IsHigh u ∧ IsLow v := by
  have hc := toNat_bounds c
  unfold encodeChar
  split_ifs with h
  · have hu : (UInt16.ofNat c.toNat).toNat = c.toNat := UInt16.toNat_ofNat_of_lt' (by exact h)
    refine .inl ⟨_,rfl,hu,?_,?_⟩ <;> simp only [IsHigh,IsLow,hu] <;> omega
  · have hhi : (UInt16.ofNat (0xD800 + (c.toNat - 0x10000) / 1024)).toNat = 0xD800 + (c.toNat - 0x10000) / 1024 :=
      UInt16.toNat_ofNat_of_lt' (by change _ < 65536; omega)
    have hlo : (UInt16.ofNat (0xDC00 + (c.toNat - 0x10000) % 1024)).toNat = 0xDC00 + (c.toNat - 0x10000) % 1024 :=
      UInt16.toNat_ofNat_of_lt' (by change _ < 65536; omega)
    refine .inr ⟨_,_,rfl,?_,?_,?_⟩ <;> simp only [pair,IsHigh,IsLow,hhi,hlo] <;> omega

theorem codePoints_encodeChar (c : Char) (s : List UInt16) :
    codePoints (encodeChar c ++ s) = ⟨c.toNat,by have := toNat_bounds c; omega⟩ :: codePoints s := by
  rcases encodeChar_cases c with ⟨u,he,hu,hh,_⟩ | ⟨u,v,he,hp,hh,hl⟩
  · rw [he]
    have hunit : unit u = ⟨c.toNat,by have := toNat_bounds c; omega⟩ := Fin.ext hu
    cases s with
    | nil => exact congrArg (· :: []) hunit
    | cons v s => simp only [List.singleton_append,codePoints,hh,false_and,if_false,hunit]
  · rw [he]
    simp only [List.cons_append,List.nil_append,codePoints,hh,hl,and_self,if_true]
    exact congrArg (· :: codePoints s) (Fin.ext hp)

theorem codePoints_encode (s : List Char) : (codePoints (encode s)).map Fin.val = s.map Char.toNat := by
  induction s with
  | nil => rfl
  | cons c s ih => rw [encode_cons,codePoints_encodeChar,List.map_cons,List.map_cons,ih]

/-- A unit that is no surrogate encodes its own character. -/
theorem encodeChar_unit {u : UInt16} (hh : ¬ IsHigh u) (hl : ¬ IsLow u) : encodeChar (Char.ofNat u.toNat) = [u] := by
  have hu := u.toNat_lt
  have hv : u.toNat.isValidChar := by
    unfold IsHigh at hh
    unfold IsLow at hl
    unfold Nat.isValidChar
    omega
  have hc : (Char.ofNat u.toNat).toNat = u.toNat := by
    rw [Char.ofNat,dif_pos hv]
    rfl
  rw [encodeChar,hc,if_pos (by exact hu),UInt16.ofNat_toNat]

theorem pair_val {u v : UInt16} (hu : IsHigh u) (hv : IsLow v) :
    (pair u v).val = 0x10000 + (u.toNat - 0xD800) * 1024 + (v.toNat - 0xDC00) := by
  unfold IsHigh at hu
  unfold IsLow at hv
  exact Nat.mod_eq_of_lt (by omega)

/-- A high and a low unit encode one supplementary character. -/
theorem encodeChar_pair {u v : UInt16} (hu : IsHigh u) (hv : IsLow v) :
    encodeChar (Char.ofNat (0x10000 + (u.toNat - 0xD800) * 1024 + (v.toNat - 0xDC00))) = [u,v] := by
  unfold IsHigh at hu
  unfold IsLow at hv
  have hn : (0x10000 + (u.toNat - 0xD800) * 1024 + (v.toNat - 0xDC00)).isValidChar := by
    unfold Nat.isValidChar
    omega
  generalize hm : 0x10000 + (u.toNat - 0xD800) * 1024 + (v.toNat - 0xDC00) = n at hn ⊢
  have hc : (Char.ofNat n).toNat = n := by
    rw [Char.ofNat,dif_pos hn]
    rfl
  have hhi : 0xD800 + (n - 0x10000) / 1024 = u.toNat := by omega
  have hlo : 0xDC00 + (n - 0x10000) % 1024 = v.toNat := by omega
  rw [encodeChar,hc,if_neg (by omega),hhi,hlo,UInt16.ofNat_toNat,UInt16.ofNat_toNat]

@[simp] theorem decode_encode (s : List Char) : decode (encode s) = s := by
  induction s with
  | nil => rfl
  | cons c s ih =>
    have hc : ¬ (0xD800 ≤ c.toNat ∧ c.toNat ≤ 0xDFFF) := by
      have := toNat_bounds c
      omega
    unfold decode at ih ⊢
    rw [encode_cons,codePoints_encodeChar,List.map_cons,ih,if_neg hc,Char.ofNat_toNat]

/-- Units without unpaired surrogates -/
def Scalar (u : List UInt16) : Prop := ∃ s, u = encode s

theorem encode_injective : Function.Injective encode := by
  intro s t h
  rw [← decode_encode s,h,decode_encode]

/-- The units of a code point, surrogates included -/
def units (c : Fin 0x110000) : List UInt16 :=
  if c.val < 0x10000 then [UInt16.ofNat c.val]
  else [UInt16.ofNat (0xD800 + (c.val - 0x10000) / 1024),UInt16.ofNat (0xDC00 + (c.val - 0x10000) % 1024)]

theorem units_unit (u : UInt16) : units (unit u) = [u] := by
  have hu : (unit u).val = u.toNat := rfl
  rw [units,hu,if_pos u.toNat_lt,UInt16.ofNat_toNat]

theorem units_pair {u v : UInt16} (hu : IsHigh u) (hv : IsLow v) : units (pair u v) = [u,v] := by
  have hp := pair_val hu hv
  unfold IsHigh at hu
  unfold IsLow at hv
  have hhi : 0xD800 + ((pair u v).val - 0x10000) / 1024 = u.toNat := by omega
  have hlo : 0xDC00 + ((pair u v).val - 0x10000) % 1024 = v.toNat := by omega
  rw [units,if_neg (by omega),hhi,hlo,UInt16.ofNat_toNat,UInt16.ofNat_toNat]

theorem flatMap_units_codePoints (s : List UInt16) : (codePoints s).flatMap units = s := by
  induction s using codePoints.induct with
  | case1 => rfl
  | case2 u => rw [codePoints,List.flatMap_singleton,units_unit]
  | case3 u v s hp ih =>
    rw [codePoints,if_pos hp,List.flatMap_cons,ih,units_pair hp.1 hp.2]
    rfl
  | case4 u v s hp ih =>
    rw [codePoints,if_neg hp,List.flatMap_cons,ih,units_unit]
    rfl

/-- The code points tell the units. -/
theorem codePoints_injective : Function.Injective codePoints := by
  intro s t h
  rw [← flatMap_units_codePoints s,h,flatMap_units_codePoints]

/-- Where no surrogate is unpaired, decoding tells the units. -/
theorem Scalar.decode_injective {u v : List UInt16} (hu : Scalar u) (hv : Scalar v) (h : decode u = decode v) : u = v := by
  obtain ⟨s,rfl⟩ := hu
  obtain ⟨t,rfl⟩ := hv
  rw [decode_encode,decode_encode] at h
  rw [h]

end ExecutionFinality.Utf16
