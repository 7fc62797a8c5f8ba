import Mathlib.Data.Char
import Mathlib.Data.List.Lex
import Mathlib.Data.UInt
import Mathlib.Tactic.Common

/-! UTF-8 as a byte code for scalar strings: unambiguous, and ordered the same
way as the code points it encodes. -/
namespace ExecutionFinality.Utf8

abbrev Bytes := List UInt8

instance instLinearOrderUInt8 : LinearOrder UInt8 where
  le_refl := UInt8.le_refl
  le_trans _ _ _ := UInt8.le_trans
  lt_iff_le_not_ge a b := by simp only [UInt8.lt_iff_toNat_lt,UInt8.le_iff_toNat_le]; omega
  le_antisymm _ _ := UInt8.le_antisymm
  le_total := UInt8.le_total
  min a b := if a ≤ b then a else b
  max a b := if a ≤ b then b else a
  toDecidableLE := inferInstance
  toDecidableLT := inferInstance
  toDecidableEq := inferInstance

def encode (s : List Char) : Bytes := s.flatMap String.utf8EncodeChar

/-- Strict decoding: `none` for every byte sequence that is not valid UTF-8. -/
def decode (b : Bytes) : Option (List Char) := b.toByteArray.utf8Decode?.map Array.toList

@[simp] theorem encode_nil : encode [] = [] := rfl

@[simp] theorem encode_cons (c : Char) (s : List Char) :
    encode (c :: s) = String.utf8EncodeChar c ++ encode s := rfl

@[simp] theorem encode_append (s t : List Char) : encode (s ++ t) = encode s ++ encode t :=
  List.flatMap_append

@[simp] theorem decode_encode (s : List Char) : decode (encode s) = some s := by
  have h : (encode s).toByteArray = s.utf8Encode := rfl
  simp [decode,h]

theorem encode_injective : Function.Injective encode := by
  intro s t h
  have hd := congrArg decode h
  simpa using hd

/-- Whatever decodes is the encoding of what it decodes to. -/
theorem decode_eq_some {b : Bytes} {s : List Char} (h : decode b = some s) : b = encode s := by
  obtain ⟨a,ha,rfl⟩ := Option.map_eq_some_iff.mp h
  have hs : b.toByteArray.utf8Decode?.isSome := by rw [ha]; rfl
  have he := ByteArray.utf8Encode_get_utf8Decode? (b := b.toByteArray) (h := hs)
  simp only [ha,Option.get_some] at he
  have hb (l : Bytes) : l.toByteArray.data.toList = l := List.toList_data_toByteArray
  rw [← hb b,← he,List.utf8Encode,hb]
  rfl

/-- An ASCII character is its own byte. -/
theorem encodeChar_ascii (c : Char) (h : c.toNat < 128) :
    String.utf8EncodeChar c = [UInt8.ofNat c.toNat] := by
  have h' : c.val.toNat ≤ 127 := Nat.le_of_lt_succ h
  simp only [String.utf8EncodeChar]
  rw [if_pos h']
  rfl

private theorem byte_cons_lt {a b : UInt8} {x y : Bytes} :
    a :: x < b :: y ↔ a.toNat < b.toNat ∨ a.toNat = b.toNat ∧ x < y := by
  rw [List.cons_lt_cons_iff,UInt8.lt_iff_toNat_lt,UInt8.toNat_inj]

private theorem encodeChar_lt {c d : Char} (h : c < d) (x y : Bytes) :
    String.utf8EncodeChar c ++ x < String.utf8EncodeChar d ++ y := by
  have hd : d.val.toNat < 0x110000 := by
    rcases d.valid with hd | hd
    · exact Nat.lt_trans hd (by decide)
    · exact hd.2
  have h : c.val.toNat < d.val.toNat := h
  simp only [String.utf8EncodeChar]
  generalize hm : c.val.toNat = m
  generalize hn : d.val.toNat = n
  rw [hm,hn] at h
  rw [hn] at hd
  -- omega relates the six-bit groups only once they are iterated quotients by 64.
  have groups (k : Nat) : k / 4096 = k / 64 / 64 ∧ k / 262144 = k / 64 / 64 / 64 := by omega
  rw [(groups m).1,(groups m).2,(groups n).1,(groups n).2]
  split_ifs <;> simp only [List.cons_append,List.nil_append,byte_cons_lt,UInt8.toNat_ofNat'] <;> omega

theorem encode_lt {s t : List Char} (h : s < t) : encode s < encode t := by
  induction s generalizing t with
  | nil =>
    cases t with
    | nil => exact absurd h (lt_irrefl _)
    | cons d t =>
      obtain ⟨b,r,he⟩ := List.exists_cons_of_ne_nil (String.utf8EncodeChar_ne_nil (c := d))
      rw [encode_cons,he]
      exact List.Lex.nil
  | cons c s ih =>
    cases t with
    | nil => exact absurd h (List.not_lt_nil _)
    | cons d t =>
      rcases List.cons_lt_cons_iff.mp h with hc | ⟨rfl,ht⟩
      · exact encodeChar_lt hc _ _
      · exact List.Lex.append_left _ (ih ht) _

/-- Byte order of the encodings is code-point order of the strings. -/
theorem encode_le_iff {s t : List Char} : encode s ≤ encode t ↔ s ≤ t := by
  refine ⟨fun h => le_of_not_gt fun hlt => absurd (encode_lt hlt) (not_lt_of_ge h),fun h => ?_⟩
  rcases h.lt_or_eq with h | rfl
  · exact (encode_lt h).le
  · exact le_rfl

end ExecutionFinality.Utf8
