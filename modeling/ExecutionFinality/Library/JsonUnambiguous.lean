import ExecutionFinality.Library.JsonTrees

/-! Integers, and values over them, are determined by their compact text. -/
namespace ExecutionFinality.Json

theorem digits_append_inj {m n : Nat} {x y : List Char} (hx : Ends x) (hy : Ends y)
    (h : Nat.toDigits 10 m ++ x = Nat.toDigits 10 n ++ y) : m = n ∧ x = y := by
  have span (k : Nat) (z : List Char) (hz : Ends z) :
      (Nat.toDigits 10 k ++ z).takeWhile Char.isDigit = Nat.toDigits 10 k := by
    rw [List.takeWhile_append_of_pos (fun c hc => Nat.isDigit_of_mem_toDigits (by decide) (by decide) hc)]
    have : z.takeWhile Char.isDigit = [] := by
      cases z with
      | nil => rfl
      | cons c z => simp [(ends_cons c z).mp hz]
    rw [this,List.append_nil]
  have hd : Nat.toDigits 10 m = Nat.toDigits 10 n := by
    rw [← span m x hx,h,span n y hy]
  have hm : m = n := by
    have := congrArg (Nat.ofDigitChars 10 · 0) hd
    simpa only [Nat.ofDigitChars_ten_toDigits] using this
  exact ⟨hm,List.append_cancel_left (by rwa [hd] at h)⟩

theorem digits_head (n : Nat) (x y : List Char) : Nat.toDigits 10 n ++ x ≠ '-' :: y := by
  intro h
  obtain ⟨c,r,he⟩ := List.exists_cons_of_ne_nil (Nat.toDigits_ne_nil (n := n) (b := 10))
  have hc : c.isDigit := Nat.isDigit_of_mem_toDigits (b := 10) (n := n) (by decide) (by decide) (by rw [he]; simp)
  rw [he] at h
  obtain ⟨rfl,_⟩ := List.cons.inj h
  exact absurd hc (by decide)

theorem printInt_append_inj {m n : Int} {x y : List Char} (hx : Ends x) (hy : Ends y)
    (h : printInt m ++ x = printInt n ++ y) : m = n ∧ x = y := by
  cases m with
  | ofNat m =>
    cases n with
    | ofNat n =>
      obtain ⟨rfl,hxy⟩ := digits_append_inj hx hy h
      exact ⟨rfl,hxy⟩
    | negSucc n => exact absurd h (digits_head m x _)
  | negSucc m =>
    cases n with
    | ofNat n => exact absurd h.symm (digits_head n y _)
    | negSucc n =>
      obtain ⟨he,hxy⟩ := digits_append_inj hx hy (List.cons.inj h).2
      exact ⟨by rw [Nat.succ.inj he],hxy⟩

theorem printInt_numerals : JsonTree.Numerals printInt where
  lead n := by
    cases n with
    | ofNat n =>
      obtain ⟨c,r,he⟩ := List.exists_cons_of_ne_nil (Nat.toDigits_ne_nil (n := n) (b := 10))
      have hc : c.isDigit := Nat.isDigit_of_mem_toDigits (b := 10) (n := n) (by decide) (by decide) (by rw [he]; simp)
      exact ⟨c,r,he,.inr hc⟩
    | negSucc n => exact ⟨_,_,rfl,.inl rfl⟩
  delimited := printInt_append_inj

mutual
/-- The value as a document over the integers. -/
def tree : Json → JsonTree Int
  | .null => .null
  | .bool b => .bool b
  | .num n => .num n
  | .str s => .str s
  | .arr xs => .arr (treeElements xs)
  | .obj es => .obj (treeMembers es)

def treeElements : List Json → List (JsonTree Int)
  | [] => []
  | x :: xs => tree x :: treeElements xs

def treeMembers : List (List Char × Json) → List (List Char × JsonTree Int)
  | [] => []
  | (k,v) :: es => (k,tree v) :: treeMembers es
end

theorem treeElements_eq (xs : List Json) : treeElements xs = xs.map tree := by
  induction xs with
  | nil => rfl
  | cons x xs ih => rw [treeElements,ih,List.map_cons]

theorem treeMembers_eq (es : List (List Char × Json)) : treeMembers es = es.map fun e => (e.1,tree e.2) := by
  induction es with
  | nil => rfl
  | cons e es ih => rw [treeMembers,ih,List.map_cons]

theorem print_tree (v : Json) : v.tree.print printInt = v.print := by
  induction v using recOn_members with
  | null => rfl
  | bool b => cases b <;> rfl
  | num => rfl
  | str => rfl
  | arr xs ih =>
    rw [tree,treeElements_eq,JsonTree.print_arr,print_arr,List.map_map]
    exact congrArg (fun ss => '[' :: [','].intercalate ss ++ [']']) (List.map_congr_left ih)
  | obj es ih =>
    rw [tree,treeMembers_eq,JsonTree.print_obj,print_obj,List.map_map]
    refine congrArg (fun ss => '{' :: [','].intercalate ss ++ ['}']) (List.map_congr_left fun e he => ?_)
    exact congrArg (printMember e.1) (ih e he)

private theorem map_inj {α β : Type} {g : α → β} {xs ys : List α} (h : ∀ x ∈ xs, ∀ y, g x = g y → x = y)
    (he : xs.map g = ys.map g) : xs = ys := by
  induction xs generalizing ys with
  | nil => exact (List.map_eq_nil_iff.mp he.symm).symm
  | cons x xs ih =>
    cases ys with
    | nil => cases he
    | cons y ys =>
      obtain ⟨hx,hxs⟩ := List.cons.inj he
      rw [h x List.mem_cons_self y hx,ih (fun z hz => h z (List.mem_cons_of_mem _ hz)) hxs]

theorem tree_injective : Function.Injective tree := by
  intro v
  induction v using recOn_members with
  | arr xs ih =>
    intro w h
    cases w with
    | arr ys =>
      simp only [tree,treeElements_eq,JsonTree.arr.injEq] at h
      rw [map_inj (fun x hx y he => ih x hx he) h]
    | _ => cases h
  | obj es ih =>
    intro w h
    cases w with
    | obj fs =>
      simp only [tree,treeMembers_eq,JsonTree.obj.injEq] at h
      rw [map_inj (fun e he f hf => ?_) h]
      obtain ⟨hk,hv⟩ := Prod.mk.inj hf
      exact Prod.ext hk (ih e he hv)
    | _ => cases h
  | _ =>
    intro w h
    cases w <;> cases h
    all_goals rfl

/-- No value's text is a proper beginning of another's: where one ends, the other does. -/
theorem print_append_inj (v w : Json) (x y : List Char) (hx : Ends x) (hy : Ends y)
    (h : print v ++ x = print w ++ y) : v = w ∧ x = y := by
  rw [← print_tree,← print_tree] at h
  obtain ⟨he,hxy⟩ := JsonTree.print_append_inj printInt_numerals v.tree w.tree x y hx hy h
  exact ⟨tree_injective he,hxy⟩

theorem print_injective : Function.Injective print := fun v w h =>
  (print_append_inj v w [] [] ends_nil ends_nil (by rw [h])).1

end ExecutionFinality.Json
