import ExecutionFinality.Library.JsonText
import Mathlib.Tactic.Common

/-! JSON documents over any type of numbers. Their compact text determines them, also in
front of further text. -/
namespace ExecutionFinality

namespace Json

/-- Text that cannot continue a number: whatever follows a value is of this kind. -/
def Ends (r : List Char) : Prop := ∀ c ∈ r.head?, c.isDigit = false

@[simp] theorem ends_nil : Ends [] := by simp [Ends]

@[simp] theorem ends_cons (c : Char) (r : List Char) : Ends (c :: r) ↔ c.isDigit = false := by simp [Ends]

private def hexValue (c : Char) : Nat := if c.isDigit then c.toNat - 48 else c.toNat - 87

private theorem hexValue_digitChar : ∀ d < 16, hexValue (Nat.digitChar d) = d := by decide

/-- Undo one escape; the quote that closes a string is not a character of it. -/
private def readChar : List Char → Option (Char × List Char)
  | '\\' :: 'u' :: '0' :: '0' :: a :: b :: r => some (Char.ofNat (16 * hexValue a + hexValue b),r)
  | '\\' :: 'b' :: r => some (Char.ofNat 8,r)
  | '\\' :: 'f' :: r => some (Char.ofNat 12,r)
  | '\\' :: 'n' :: r => some ('\n',r)
  | '\\' :: 'r' :: r => some ('\r',r)
  | '\\' :: 't' :: r => some ('\t',r)
  | '\\' :: c :: r => some (c,r)
  | '"' :: _ => none
  | c :: r => some (c,r)
  | [] => none

private theorem readChar_plain (c : Char) (r : List Char) (hq : c ≠ '"') (hb : c ≠ '\\') :
    readChar (c :: r) = some (c,r) := by
  rw [readChar.eq_def]
  split <;> simp_all

private theorem readChar_escapeChar (c : Char) (r : List Char) :
    readChar (escapeChar c ++ r) = some (c,r) := by
  have control (n : Nat) (h : c.toNat = n) : Char.ofNat n = c := h ▸ Char.ofNat_toNat c
  unfold escapeChar
  split_ifs with h1 h2 h3 h4 h5 h6 h7 h8
  · rw [h1]; rfl
  · rw [h2]; rfl
  · exact congrArg (fun d => some (d,r)) (control 8 h3)
  · exact congrArg (fun d => some (d,r)) (control 12 h4)
  · rw [h5]; rfl
  · rw [h6]; rfl
  · rw [h7]; rfl
  · have hv : 16 * hexValue (Nat.digitChar (c.toNat / 16)) + hexValue (Nat.digitChar (c.toNat % 16)) = c.toNat := by
      rw [hexValue_digitChar _ (by omega),hexValue_digitChar _ (by omega)]
      omega
    change some (Char.ofNat _,r) = _
    rw [hv,Char.ofNat_toNat]
  · exact readChar_plain c r h1 h2

theorem escapeChar_append_inj {c d : Char} {x y : List Char}
    (h : escapeChar c ++ x = escapeChar d ++ y) : c = d ∧ x = y := by
  have hr := congrArg readChar h
  rw [readChar_escapeChar,readChar_escapeChar] at hr
  exact Prod.mk.inj (Option.some.inj hr)

theorem escapeChar_ne_quote (c : Char) (x y : List Char) : escapeChar c ++ x ≠ '"' :: y := by
  intro h
  have hr := congrArg readChar h
  rw [readChar_escapeChar] at hr
  exact absurd hr (by simp [readChar])

/-- A quoted string ends at its own closing quote, whatever it contains. -/
theorem quote_append_inj {s t x y : List Char} (h : quote s ++ x = quote t ++ y) : s = t ∧ x = y := by
  have body : ∀ s t : List Char, s.flatMap escapeChar ++ '"' :: x = t.flatMap escapeChar ++ '"' :: y →
      s = t ∧ x = y := by
    intro s
    induction s with
    | nil =>
      intro t h
      cases t with
      | nil => exact ⟨rfl,(List.cons.inj h).2⟩
      | cons d t =>
        simp only [List.flatMap_cons,List.append_assoc] at h
        exact absurd h.symm (escapeChar_ne_quote d _ _)
    | cons c s ih =>
      intro t h
      cases t with
      | nil =>
        simp only [List.flatMap_cons,List.append_assoc] at h
        exact absurd h (escapeChar_ne_quote c _ _)
      | cons d t =>
        simp only [List.flatMap_cons,List.append_assoc] at h
        obtain ⟨rfl,hrest⟩ := escapeChar_append_inj h
        obtain ⟨rfl,hxy⟩ := ih t hrest
        exact ⟨rfl,hxy⟩
  apply body
  simpa [quote] using h

end Json

/-! Codes of texts, such as UTF-8 and UTF-16 -/
section
variable {β : Type} {code : List Char → List β} (hcode : ∀ s t, code (s ++ t) = code s ++ code t)
include hcode

private theorem code_cons (c : Char) (s : List Char) : code (c :: s) = code [c] ++ code s := hcode [c] s

private theorem code_intercalate (sep : List Char) (ss : List (List Char)) :
    code (sep.intercalate ss) = (code sep).intercalate (ss.map code) := by
  induction ss with
  | nil => exact List.self_eq_append_right.mp (hcode [] [])
  | cons s ss ih =>
    cases ss with
    | nil => simp
    | cons t ss =>
      rw [List.intercalate_cons_cons,hcode,hcode,ih]
      simp only [List.map_cons,List.intercalate_cons_cons]

theorem code_listing (first last : Char) (ss : List (List Char)) :
    code (first :: [','].intercalate ss ++ [last]) =
      code [first] ++ (code [',']).intercalate (ss.map code) ++ code [last] := by
  rw [hcode,code_cons hcode,code_intercalate hcode]

theorem code_printMember (k v : List Char) :
    code (Json.printMember k v) = code (Json.quote k) ++ code [':'] ++ code v := by
  rw [Json.printMember,hcode,code_cons hcode,List.append_assoc]

end

open Json (Ends ends_nil ends_cons quote printMember quote_append_inj)

/-- A JSON document; the members of an object are listed in some order. -/
inductive JsonTree (ν : Type) where
  | null
  | bool (b : Bool)
  | num (n : ν)
  | str (s : List Char)
  | arr (xs : List (JsonTree ν))
  | obj (es : List (List Char × JsonTree ν))

namespace JsonTree
variable {ν : Type}

/-- Induction through the elements of an array and the members of an object. -/
theorem recOn_members {P : JsonTree ν → Prop} (null : P .null) (bool : ∀ b, P (.bool b))
    (num : ∀ n, P (.num n)) (str : ∀ s, P (.str s))
    (arr : ∀ xs : List (JsonTree ν), (∀ x ∈ xs, P x) → P (.arr xs))
    (obj : ∀ es : List (List Char × JsonTree ν), (∀ e ∈ es, P e.2) → P (.obj es)) : ∀ t, P t :=
  JsonTree.rec (motive_1 := P) (motive_2 := fun xs => ∀ x ∈ xs, P x)
    (motive_3 := fun es => ∀ e ∈ es, P e.2) (motive_4 := fun e => P e.2)
    null bool num str arr obj (by simp) (by simp_all) (by simp) (by simp_all) (fun _ _ h => h)

mutual
/-- Compact text, for a spelling of the numbers. -/
def print (num : ν → List Char) : JsonTree ν → List Char
  | .null => "null".toList
  | .bool true => "true".toList
  | .bool false => "false".toList
  | .num n => num n
  | .str s => quote s
  | .arr xs => '[' :: [','].intercalate (printElements num xs) ++ [']']
  | .obj es => '{' :: [','].intercalate (printMembers num es) ++ ['}']

def printElements (num : ν → List Char) : List (JsonTree ν) → List (List Char)
  | [] => []
  | x :: xs => print num x :: printElements num xs

def printMembers (num : ν → List Char) : List (List Char × JsonTree ν) → List (List Char)
  | [] => []
  | (k,v) :: es => printMember k (print num v) :: printMembers num es
end

variable {num : ν → List Char}

theorem print_arr (xs : List (JsonTree ν)) : print num (.arr xs) = '[' :: [','].intercalate (xs.map (print num)) ++ [']'] := by
  have h : printElements num xs = xs.map (print num) := by
    induction xs with
    | nil => rfl
    | cons x xs ih => rw [printElements,ih,List.map_cons]
  rw [print,h]

theorem print_obj (es : List (List Char × JsonTree ν)) : print num (.obj es) =
    '{' :: [','].intercalate (es.map fun e => printMember e.1 (print num e.2)) ++ ['}'] := by
  have h : printMembers num es = es.map fun e => printMember e.1 (print num e.2) := by
    induction es with
    | nil => rfl
    | cons e es ih => rw [printMembers,ih,List.map_cons]
  rw [print,h]

/-- A spelling of numbers by which they can be told apart, also in front of further text. -/
structure Numerals (num : ν → List Char) : Prop where
  lead : ∀ n, ∃ c r, num n = c :: r ∧ (c = '-' ∨ c.isDigit = true)
  delimited : ∀ {m n x y}, Ends x → Ends y → num m ++ x = num n ++ y → m = n ∧ x = y

private def kind : JsonTree ν → Nat
  | .null => 0
  | .bool _ => 1
  | .num _ => 2
  | .str _ => 3
  | .arr _ => 4
  | .obj _ => 5

private def leadKind (c : Char) : Nat :=
  if c = 'n' then 0 else if c = 't' ∨ c = 'f' then 1 else if c = '"' then 3
  else if c = '[' then 4 else if c = '{' then 5 else if c = ']' then 6 else 2

private theorem leadKind_digit {c : Char} (h : c.isDigit) : leadKind c = 2 := by
  unfold leadKind
  split_ifs with h1 h2 h3 h4 h5 h6
  · exact absurd (h1 ▸ h) (by decide)
  · rcases h2 with rfl | rfl <;> exact absurd h (by decide)
  · exact absurd (h3 ▸ h) (by decide)
  · exact absurd (h4 ▸ h) (by decide)
  · exact absurd (h5 ▸ h) (by decide)
  · exact absurd (h6 ▸ h) (by decide)
  · rfl

private theorem print_lead (hnum : Numerals num) (v : JsonTree ν) : ∃ c r, print num v = c :: r ∧ leadKind c = v.kind := by
  cases v with
  | bool b => cases b <;> exact ⟨_,_,rfl,rfl⟩
  | num n =>
    obtain ⟨c,r,he,rfl | hc⟩ := hnum.lead n
    · exact ⟨_,r,he,rfl⟩
    · exact ⟨c,r,he,leadKind_digit hc⟩
  | _ => exact ⟨_,_,rfl,rfl⟩

private theorem kind_eq (hnum : Numerals num) {v w : JsonTree ν} {x y : List Char}
    (h : print num v ++ x = print num w ++ y) : v.kind = w.kind := by
  obtain ⟨c,r,hv,hc⟩ := print_lead hnum v
  obtain ⟨d,q,hw,hd⟩ := print_lead hnum w
  rw [hv,hw] at h
  rw [← hc,← hd,(List.cons.inj h).1]

private theorem print_ne_bracket (hnum : Numerals num) (v : JsonTree ν) (x y : List Char) :
    print num v ++ x ≠ ']' :: y := by
  intro h
  obtain ⟨c,r,hv,hc⟩ := print_lead hnum v
  rw [hv] at h
  rw [(List.cons.inj h).1] at hc
  cases v <;> cases hc

/-! Listings: texts with commas between them, and a bracket that closes them. -/

section
variable {α : Type} {p : α → List Char} {close : Char} {xs ys : List α} {x y : List Char}

/-- No text of the first list is a proper beginning of another. -/
def Delimits (p : α → List Char) (xs : List α) : Prop :=
  ∀ a ∈ xs, ∀ b x y, Ends x → Ends y → p a ++ x = p b ++ y → a = b ∧ x = y

private theorem ends_rest (hclose : close.isDigit = false) (xs : List α) (x : List Char) :
    Ends (xs.flatMap (fun a => ',' :: p a) ++ close :: x) := by
  cases xs with
  | nil => simpa using hclose
  | cons a xs => simp [List.flatMap_cons]

private theorem rest_inj (hclose : close.isDigit = false) (hcomma : close ≠ ',') (hp : Delimits p xs)
    (h : xs.flatMap (fun a => ',' :: p a) ++ close :: x = ys.flatMap (fun a => ',' :: p a) ++ close :: y) :
    xs = ys ∧ x = y := by
  induction xs generalizing ys with
  | nil =>
    cases ys with
    | nil => exact ⟨rfl,(List.cons.inj h).2⟩
    | cons b ys => exact absurd (List.cons.inj h).1 hcomma
  | cons a xs ih =>
    cases ys with
    | nil => exact absurd (List.cons.inj h).1.symm hcomma
    | cons b ys =>
      simp only [List.flatMap_cons,List.cons_append,List.append_assoc,List.cons.injEq,true_and] at h
      obtain ⟨rfl,hrest⟩ := hp a List.mem_cons_self b _ _ (ends_rest hclose xs x) (ends_rest hclose ys y) h
      obtain ⟨rfl,hxy⟩ := ih (fun c hc => hp c (List.mem_cons_of_mem _ hc)) hrest
      exact ⟨rfl,hxy⟩

private theorem intercalate_cons (s : List Char) (ss : List (List Char)) :
    [','].intercalate (s :: ss) = s ++ ss.flatMap (',' :: ·) := by
  induction ss generalizing s with
  | nil => simp
  | cons t ss ih => rw [List.intercalate_cons_cons,ih,List.flatMap_cons,List.append_assoc]; rfl

private theorem listing_inj (hclose : close.isDigit = false) (hcomma : close ≠ ',') (hp : Delimits p xs)
    (hstart : ∀ a x y, p a ++ x ≠ close :: y)
    (h : [','].intercalate (xs.map p) ++ close :: x = [','].intercalate (ys.map p) ++ close :: y) :
    xs = ys ∧ x = y := by
  cases xs with
  | nil =>
    cases ys with
    | nil => exact ⟨rfl,(List.cons.inj h).2⟩
    | cons b ys =>
      rw [List.map_cons,intercalate_cons,List.append_assoc] at h
      exact absurd h.symm (hstart b _ _)
  | cons a xs =>
    cases ys with
    | nil =>
      rw [List.map_cons,intercalate_cons,List.append_assoc] at h
      exact absurd h (hstart a _ _)
    | cons b ys =>
      simp only [List.map_cons,intercalate_cons,List.append_assoc,List.flatMap_map] at h
      obtain ⟨rfl,hrest⟩ := hp a List.mem_cons_self b _ _ (ends_rest hclose xs x) (ends_rest hclose ys y) h
      obtain ⟨rfl,hxy⟩ := rest_inj hclose hcomma (fun c hc => hp c (List.mem_cons_of_mem _ hc)) hrest
      exact ⟨rfl,hxy⟩

end

/-- No document's text is a proper beginning of another's: where one ends, the other does. -/
theorem print_append_inj (hnum : Numerals num) (v : JsonTree ν) : ∀ (w : JsonTree ν) (x y : List Char),
    Ends x → Ends y → print num v ++ x = print num w ++ y → v = w ∧ x = y := by
  induction v using recOn_members with
  | null =>
    intro w x y _ _ h
    have hk := kind_eq hnum h
    cases w with
    | null => exact ⟨rfl,List.append_cancel_left h⟩
    | _ => cases hk
  | bool b =>
    intro w x y _ _ h
    have hk := kind_eq hnum h
    cases w with
    | bool c => cases b <;> cases c <;> simp_all [print]
    | _ => cases hk
  | num m =>
    intro w x y hx hy h
    have hk := kind_eq hnum h
    cases w with
    | num n =>
      obtain ⟨rfl,hxy⟩ := hnum.delimited hx hy h
      exact ⟨rfl,hxy⟩
    | _ => cases hk
  | str s =>
    intro w x y _ _ h
    have hk := kind_eq hnum h
    cases w with
    | str t =>
      obtain ⟨rfl,hxy⟩ := quote_append_inj h
      exact ⟨rfl,hxy⟩
    | _ => cases hk
  | arr xs ih =>
    intro w x y _ _ h
    have hk := kind_eq hnum h
    cases w with
    | arr ys =>
      simp only [print_arr,List.cons_append,List.append_assoc,List.cons.injEq,true_and,List.nil_append] at h
      obtain ⟨rfl,hxy⟩ := listing_inj (by decide) (by decide) ih (print_ne_bracket hnum) h
      exact ⟨rfl,hxy⟩
    | _ => cases hk
  | obj es ih =>
    intro w x y _ _ h
    have hk := kind_eq hnum h
    cases w with
    | obj fs =>
      simp only [print_obj,List.cons_append,List.append_assoc,List.cons.injEq,true_and,List.nil_append] at h
      have members : Delimits (fun e : List Char × JsonTree ν => printMember e.1 (print num e.2)) es := by
        rintro ⟨k,v⟩ he ⟨l,w⟩ x y hx hy h
        simp only [printMember,List.append_assoc,List.cons_append] at h
        obtain ⟨rfl,hcolon⟩ := quote_append_inj h
        obtain ⟨rfl,hxy⟩ := ih _ he w x y hx hy (List.cons.inj hcolon).2
        exact ⟨rfl,hxy⟩
      obtain ⟨rfl,hxy⟩ := listing_inj (by decide) (by decide) members (by simp [printMember,quote]) h
      exact ⟨rfl,hxy⟩
    | _ => cases hk

theorem print_injective (hnum : Numerals num) : Function.Injective (print num) := fun v w h =>
  (print_append_inj hnum v w [] [] ends_nil ends_nil (by rw [h])).1

end JsonTree
end ExecutionFinality
