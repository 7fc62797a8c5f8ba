import ExecutionFinality.Library.AssignedEntries
import ExecutionFinality.Library.JsonData
import ExecutionFinality.Library.JsonLayout

/-! What parsers make of a JSON document: each builds its values from the parts in its own way, and an
object from the mapping of its members, in which the last member of a key is the one that stays. -/
namespace ExecutionFinality
open KeyedEntries

structure JsonReading (κ V : Type) where
  null : V
  bool : Bool → V
  num : JsonNumber → V
  str : List UInt16 → V
  arr : List V → V
  key : List UInt16 → κ
  obj : List (κ × V) → V

namespace JsonReading
variable {κ V : Type} [DecidableEq κ]

mutual
def value (R : JsonReading κ V) : JsonDoc → V
  | .null => R.null
  | .bool b => R.bool b
  | .num n => R.num n
  | .str u => R.str u
  | .arr xs => R.arr (R.elements xs)
  | .obj es => R.obj (assigned (R.members es))

def elements (R : JsonReading κ V) : List JsonDoc → List V
  | [] => []
  | x :: xs => R.value x :: R.elements xs

def members (R : JsonReading κ V) : List (List UInt16 × JsonDoc) → List (κ × V)
  | [] => []
  | (k,x) :: es => (R.key k,R.value x) :: R.members es
end

end JsonReading

namespace JsonDoc

mutual
/-- Every number of the document, also in members that do not stay -/
def numbers : JsonDoc → List JsonNumber
  | .num n => [n]
  | .arr xs => numbersElements xs
  | .obj es => numbersMembers es
  | _ => []

def numbersElements : List JsonDoc → List JsonNumber
  | [] => []
  | x :: xs => numbers x ++ numbersElements xs

def numbersMembers : List (List UInt16 × JsonDoc) → List JsonNumber
  | [] => []
  | (_,x) :: es => numbers x ++ numbersMembers es
end

theorem mem_numbers_arr {xs : List JsonDoc} {n : JsonNumber} : n ∈ numbers (.arr xs) ↔ ∃ x ∈ xs, n ∈ numbers x := by
  have h : n ∈ numbersElements xs ↔ ∃ x ∈ xs, n ∈ numbers x := by
    induction xs with
    | nil => simp [numbersElements]
    | cons x xs ih => simp [numbersElements,ih]
  rw [numbers,h]

theorem mem_numbers_obj {es : List (List UInt16 × JsonDoc)} {n : JsonNumber} :
    n ∈ numbers (.obj es) ↔ ∃ e ∈ es, n ∈ numbers e.2 := by
  have h : n ∈ numbersMembers es ↔ ∃ e ∈ es, n ∈ numbers e.2 := by
    induction es with
    | nil => simp [numbersMembers]
    | cons e es ih => simp [numbersMembers,ih]
  rw [numbers,h]

/-- The numbers, strings and keys that stay satisfy the predicates. -/
inductive Live (P : JsonNumber → Prop) (Q : List UInt16 → Prop) : JsonDoc → Prop
  | null : Live P Q .null
  | bool (b : Bool) : Live P Q (.bool b)
  | num {n : JsonNumber} (h : P n) : Live P Q (.num n)
  | str {u : List UInt16} (h : Q u) : Live P Q (.str u)
  | arr {xs : List JsonDoc} (h : ∀ x ∈ xs, Live P Q x) : Live P Q (.arr xs)
  | obj {es : List (List UInt16 × JsonDoc)} (hk : ∀ k ∈ keys es, Q k) (h : ∀ e ∈ assigned es, Live P Q e.2) :
    Live P Q (.obj es)

/-- Induction through the elements of an array and the members of an object. -/
theorem recOn_members {P : JsonDoc → Prop} (null : P .null) (bool : ∀ b, P (.bool b)) (num : ∀ n, P (.num n))
    (str : ∀ u, P (.str u)) (arr : ∀ xs : List JsonDoc, (∀ x ∈ xs, P x) → P (.arr xs))
    (obj : ∀ es : List (List UInt16 × JsonDoc), (∀ e ∈ es, P e.2) → P (.obj es)) : ∀ d, P d :=
  JsonDoc.rec (motive_1 := P) (motive_2 := fun xs => ∀ x ∈ xs, P x)
    (motive_3 := fun es => ∀ e ∈ es, P e.2) (motive_4 := fun e => P e.2)
    null bool num str arr obj (by simp) (by simp_all) (by simp) (by simp_all) (fun _ _ h => h)

theorem live_true (d : JsonDoc) : Live (fun _ => True) (fun _ => True) d := by
  induction d using recOn_members with
  | null => exact .null
  | bool b => exact .bool b
  | num n => exact .num trivial
  | str u => exact .str trivial
  | arr xs ih => exact .arr ih
  | obj es ih => exact .obj (fun _ _ => trivial) fun e he => ih e (mem_of_mem_assigned he)

theorem Live.imp {P P' : JsonNumber → Prop} {Q Q' : List UInt16 → Prop} {d : JsonDoc} (h : Live P Q d)
    (hP : ∀ n, P n → P' n) (hQ : ∀ u, Q u → Q' u) : Live P' Q' d := by
  induction h with
  | null => exact .null
  | bool b => exact .bool b
  | num h => exact .num (hP _ h)
  | str h => exact .str (hQ _ h)
  | arr _ ih => exact .arr ih
  | obj hk _ ih => exact .obj (fun k hm => hQ k (hk k hm)) ih

theorem Live.and {P P' : JsonNumber → Prop} {Q Q' : List UInt16 → Prop} {d : JsonDoc} (h : Live P Q d)
    (h' : Live P' Q' d) : Live (fun n => P n ∧ P' n) (fun u => Q u ∧ Q' u) d := by
  induction h with
  | null => exact .null
  | bool b => exact .bool b
  | num h =>
    cases h' with
    | num h' => exact .num ⟨h,h'⟩
  | str h =>
    cases h' with
    | str h' => exact .str ⟨h,h'⟩
  | arr _ ih =>
    cases h' with
    | arr h' => exact .arr fun x hx => ih x hx (h' x hx)
  | obj hk _ ih =>
    cases h' with
    | obj hk' h' => exact .obj (fun k hm => ⟨hk k hm,hk' k hm⟩) fun e he => ih e he (h' e he)

end JsonDoc

namespace JsonReading
open JsonDoc (Live)
variable {κ κ' V V' : Type} [DecidableEq κ] [DecidableEq κ'] {R : JsonReading κ V} {R' : JsonReading κ' V'}
  {P P' : JsonNumber → Prop} {Q Q' : List UInt16 → Prop}

theorem value_arr (xs : List JsonDoc) : R.value (.arr xs) = R.arr (xs.map R.value) := by
  have h : R.elements xs = xs.map R.value := by
    induction xs with
    | nil => rfl
    | cons x xs ih => rw [elements,ih,List.map_cons]
  rw [value,h]

/-- The keys that satisfy the predicate are kept apart. -/
def Separates (R : JsonReading κ V) (Q : List UInt16 → Prop) : Prop := ∀ k l, Q k → Q l → R.key k = R.key l → k = l

/-- Where keys are kept apart, the members that stay are those of the document. -/
theorem value_obj (hR : R.Separates Q) {es : List (List UInt16 × JsonDoc)} (hk : ∀ k ∈ keys es, Q k) :
    R.value (.obj es) = R.obj ((assigned es).map fun e => (R.key e.1,R.value e.2)) := by
  have h : R.members es = es.map fun e => (R.key e.1,R.value e.2) := by
    induction es with
    | nil => rfl
    | cons e es ih =>
      obtain ⟨k,x⟩ := e
      rw [members,ih fun k hm => hk k (List.mem_cons_of_mem _ hm),List.map_cons]
  rw [value,h,assigned_map fun k hm l hl => hR k l (hk k hm) (hk l hl)]

theorem nodup_members (hR : R.Separates Q) {es : List (List UInt16 × JsonDoc)} (hk : ∀ k ∈ keys es, Q k) :
    (keys ((assigned es).map fun e => (R.key e.1,R.value e.2))).Nodup := by
  rw [← assigned_map fun k hm l hl => hR k l (hk k hm) (hk l hl)]
  exact nodup_assigned _

private theorem mem_members {es : List (List UInt16 × JsonDoc)} {m : κ × V} (h : m ∈ R.members es) :
    ∃ e ∈ es, m = (R.key e.1,R.value e.2) := by
  induction es with
  | nil => cases h
  | cons e es ih =>
    obtain ⟨k,x⟩ := e
    rcases List.mem_cons.mp h with rfl | h
    · exact ⟨_,List.mem_cons_self ..,rfl⟩
    · obtain ⟨e,he,hm⟩ := ih h
      exact ⟨e,List.mem_cons_of_mem _ he,hm⟩

/-- What holds of all parts holds of every value that is read. -/
theorem holds {p : V → Prop} (null : p R.null) (bool : ∀ b, p (R.bool b)) (num : ∀ n, p (R.num n))
    (str : ∀ u, p (R.str u)) (arr : ∀ vs, (∀ v ∈ vs, p v) → p (R.arr vs))
    (obj : ∀ ms, (keys ms).Nodup → (∀ m ∈ ms, (∃ k, m.1 = R.key k) ∧ p m.2) → p (R.obj ms)) (d : JsonDoc) :
    p (R.value d) := by
  induction d using JsonDoc.recOn_members with
  | null => exact null
  | bool b => exact bool b
  | num n => exact num n
  | str u => exact str u
  | arr xs ih =>
    rw [value_arr]
    exact arr _ (List.forall_mem_map.mpr ih)
  | obj es ih =>
    rw [value]
    refine obj _ (nodup_assigned _) fun m hm => ?_
    obtain ⟨e,he,rfl⟩ := mem_members (mem_of_mem_assigned hm)
    exact ⟨⟨_,rfl⟩,ih e he⟩

/-- A use of the value that fails with its parts is made only of documents whose parts that stay are fit for it. -/
theorem live_of_accepted {p : V → Prop} (num : ∀ n, P n → p (R.num n) → P' n) (str : ∀ u, Q u → p (R.str u) → Q' u)
    (arr : ∀ vs, p (R.arr vs) → ∀ v ∈ vs, p v)
    (obj : ∀ ms, p (R.obj ms) → ∀ m ∈ ms, (∀ k, Q k → m.1 = R.key k → Q' k) ∧ p m.2) (hR : R.Separates Q)
    {d : JsonDoc} (h : Live P Q d) (hp : p (R.value d)) : Live P' Q' d := by
  induction h with
  | null => exact .null
  | bool b => exact .bool b
  | num h => exact .num (num _ h hp)
  | str h => exact .str (str _ h hp)
  | arr _ ih =>
    rw [value_arr] at hp
    exact .arr fun x hx => ih x hx (arr _ hp _ (List.mem_map_of_mem hx))
  | @obj es hk _ ih =>
    rw [value_obj hR hk] at hp
    have member {e : List UInt16 × JsonDoc} (he : e ∈ assigned es) := obj _ hp _ (List.mem_map_of_mem he)
    refine .obj (fun k hm => ?_) fun e he => ih e he (member he).2
    obtain ⟨e,he,rfl⟩ := List.mem_map.mp (mem_keys_assigned hm)
    exact (member he).1 _ (hk _ hm) rfl

/-- Two readings of a document are related when they relate its parts. -/
theorem related {r : V → V' → Prop} (null : r R.null R'.null) (bool : ∀ b, r (R.bool b) (R'.bool b))
    (num : ∀ n, P n → r (R.num n) (R'.num n)) (str : ∀ u, Q u → r (R.str u) (R'.str u))
    (arr : ∀ vs ws, List.Forall₂ r vs ws → r (R.arr vs) (R'.arr ws))
    (obj : ∀ ms ns, (keys ms).Nodup → (keys ns).Nodup →
      List.Forall₂ (fun m n => (∃ k, Q k ∧ m.1 = R.key k ∧ n.1 = R'.key k) ∧ r m.2 n.2) ms ns →
        r (R.obj ms) (R'.obj ns))
    (hR : R.Separates Q) (hR' : R'.Separates Q) {d : JsonDoc} (h : Live P Q d) : r (R.value d) (R'.value d) := by
  induction h with
  | null => exact null
  | bool b => exact bool b
  | num h => exact num _ h
  | str h => exact str _ h
  | arr _ ih =>
    rw [value_arr,value_arr]
    apply arr
    rw [List.forall₂_map_left_iff,List.forall₂_map_right_iff]
    exact List.forall₂_same.mpr ih
  | obj hk _ ih =>
    rw [value_obj hR hk,value_obj hR' hk]
    apply obj _ _ (nodup_members hR hk) (nodup_members hR' hk)
    rw [List.forall₂_map_left_iff,List.forall₂_map_right_iff]
    exact List.forall₂_same.mpr fun e he =>
      ⟨⟨e.1,hk _ (List.mem_map_of_mem (mem_of_mem_assigned he)),rfl,rfl⟩,ih e he⟩

/-! Documents with distinct keys -/
section
variable {ν : Type} {P : ν → Prop} {num : ν → JsonNumber} {t : JsonTree ν}

/-- What holds of the parts of a document and of what is read of them holds of the document and what is read of it. -/
theorem read_doc {r : JsonTree ν → V → Prop} (null : r .null R.null) (bool : ∀ b, r (.bool b) (R.bool b))
    (hnum : ∀ n, P n → r (.num n) (R.num (num n))) (str : ∀ s, r (.str s) (R.str (Utf16.encode s)))
    (arr : ∀ ts vs, List.Forall₂ r ts vs → r (.arr ts) (R.arr vs))
    (obj : ∀ es ms, (keys ms).Nodup → List.Forall₂ (fun e m => m.1 = R.key (Utf16.encode e.1) ∧ r e.2 m.2) es ms →
      r (.obj es) (R.obj ms))
    (hR : R.Separates Utf16.Scalar) (ht : t.Regular id P) : r t (R.value (t.doc num)) := by
  induction ht with
  | null => exact null
  | bool b => exact bool b
  | num h => exact hnum _ h
  | str s => exact str s
  | arr _ ih =>
    rw [JsonTree.doc_arr,value_arr,List.map_map]
    exact arr _ _ (List.forall₂_map_right_iff.mpr (List.forall₂_same.mpr ih))
  | @obj es hn _ ih =>
    have scalar : ∀ k ∈ keys (es.map fun e => (Utf16.encode e.1,e.2.doc num)), Utf16.Scalar k := by
      intro k hk
      obtain ⟨_,he,rfl⟩ := List.mem_map.mp hk
      obtain ⟨e,_,rfl⟩ := List.mem_map.mp he
      exact ⟨_,rfl⟩
    have distinct : (keys (es.map fun e => (Utf16.encode e.1,e.2.doc num))).Nodup := by
      have := hn.map Utf16.encode_injective
      rw [List.map_map] at this
      rw [keys,List.map_map]
      exact this
    have hnodup := nodup_members hR scalar
    rw [JsonTree.doc_obj,value_obj hR scalar]
    rw [assigned_of_nodup distinct,List.map_map] at hnodup ⊢
    exact obj _ _ hnodup (List.forall₂_map_right_iff.mpr (List.forall₂_same.mpr fun e he => ⟨rfl,ih e he⟩))

theorem live_doc (ht : t.Over P) :
    (t.doc num).Live (fun n => ∃ m, P m ∧ n = num m) Utf16.Scalar := by
  induction ht with
  | null => exact .null
  | bool b => exact .bool b
  | num h => exact .num ⟨_,h,rfl⟩
  | str s => exact .str ⟨s,rfl⟩
  | arr _ ih =>
    rw [JsonTree.doc_arr]
    exact .arr (List.forall_mem_map.mpr ih)
  | obj _ ih =>
    rw [JsonTree.doc_obj]
    refine .obj (fun k hk => ?_) fun d hd => ?_
    · obtain ⟨_,he,rfl⟩ := List.mem_map.mp hk
      obtain ⟨e,_,rfl⟩ := List.mem_map.mp he
      exact ⟨_,rfl⟩
    · obtain ⟨e,he,rfl⟩ := List.mem_map.mp (mem_of_mem_assigned hd)
      exact ih e he

/-- The numbers of a document are those of its tree. -/
theorem numbers_doc (ht : t.Over P) : ∀ n ∈ (t.doc num).numbers, ∃ m, P m ∧ n = num m := by
  induction ht with
  | null | bool | str => simp [JsonTree.doc,JsonDoc.numbers]
  | @num m h =>
    intro n hn
    cases List.mem_singleton.mp hn
    exact ⟨m,h,rfl⟩
  | arr _ ih =>
    intro n hn
    rw [JsonTree.doc_arr,JsonDoc.mem_numbers_arr] at hn
    obtain ⟨_,hx,hn⟩ := hn
    obtain ⟨x,hm,rfl⟩ := List.mem_map.mp hx
    exact ih x hm n hn
  | obj _ ih =>
    intro n hn
    rw [JsonTree.doc_obj,JsonDoc.mem_numbers_obj] at hn
    obtain ⟨_,he,hn⟩ := hn
    obtain ⟨e,hm,rfl⟩ := List.mem_map.mp he
    exact ih e hm n hn

end

end JsonReading
end ExecutionFinality
