import ExecutionFinality.Library.KeyedEntries
import Mathlib.Data.Char

/-! JSON values over scalar strings and integers, and their compact text. -/
namespace ExecutionFinality

/-- Object members are kept in the order in which they are printed. -/
inductive Json where
  | null
  | bool (b : Bool)
  | num (n : Int)
  | str (s : List Char)
  | arr (xs : List Json)
  | obj (es : List (List Char × Json))

namespace Json

/-- Induction through the elements of an array and the members of an object. -/
theorem recOn_members {P : Json → Prop} (null : P .null) (bool : ∀ b, P (.bool b))
    (num : ∀ n, P (.num n)) (str : ∀ s, P (.str s))
    (arr : ∀ xs : List Json, (∀ x ∈ xs, P x) → P (.arr xs))
    (obj : ∀ es : List (List Char × Json), (∀ e ∈ es, P e.2) → P (.obj es)) : ∀ j, P j :=
  Json.rec (motive_1 := P) (motive_2 := fun xs => ∀ x ∈ xs, P x)
    (motive_3 := fun es => ∀ e ∈ es, P e.2) (motive_4 := fun e => P e.2)
    null bool num str arr obj (by simp) (by simp_all) (by simp) (by simp_all) (fun _ _ h => h)

/-- The short escapes, `\u00xx` for the other C0 controls, and every remaining
character as itself. -/
def escapeChar (c : Char) : List Char :=
  if c = '"' then ['\\','"']
  else if c = '\\' then ['\\','\\']
  else if c.toNat = 8 then ['\\','b']
  else if c.toNat = 12 then ['\\','f']
  else if c = '\n' then ['\\','n']
  else if c = '\r' then ['\\','r']
  else if c = '\t' then ['\\','t']
  else if c.toNat < 32 then ['\\','u','0','0',Nat.digitChar (c.toNat / 16),Nat.digitChar (c.toNat % 16)]
  else [c]

def quote (s : List Char) : List Char := '"' :: s.flatMap escapeChar ++ ['"']

def printInt : Int → List Char
  | .ofNat n => Nat.toDigits 10 n
  | .negSucc n => '-' :: Nat.toDigits 10 (n+1)

mutual
/-- Compact JSON text: no white space, members in the listed order. -/
def print : Json → List Char
  | .null => "null".toList
  | .bool true => "true".toList
  | .bool false => "false".toList
  | .num n => printInt n
  | .str s => quote s
  | .arr [] => ['[',']']
  | .arr (x :: xs) => '[' :: print x ++ printElements xs
  | .obj [] => ['{','}']
  | .obj ((k,v) :: es) => '{' :: quote k ++ ':' :: print v ++ printMembers es

def printElements : List Json → List Char
  | [] => [']']
  | x :: xs => ',' :: print x ++ printElements xs

def printMembers : List (List Char × Json) → List Char
  | [] => ['}']
  | (k,v) :: es => ',' :: quote k ++ ':' :: print v ++ printMembers es
end

/-- One member of an object, its value already printed. -/
def printMember (k v : List Char) : List Char := quote k ++ ':' :: v

theorem print_arr (xs : List Json) : print (.arr xs) = '[' :: [','].intercalate (xs.map print) ++ [']'] := by
  have tail : ∀ xs : List Json, ∀ x, print x ++ printElements xs =
      [','].intercalate (print x :: xs.map print) ++ [']'] := by
    intro xs
    induction xs with
    | nil => intro x; simp [printElements]
    | cons y ys ih => intro x; simp [printElements,← ih,List.intercalate_cons_cons]
  cases xs with
  | nil => rfl
  | cons x xs => simp only [print,List.cons_append,tail,List.map_cons]

theorem print_obj (es : List (List Char × Json)) : print (.obj es) =
    '{' :: [','].intercalate (es.map fun e => printMember e.1 (print e.2)) ++ ['}'] := by
  have tail : ∀ es : List (List Char × Json), ∀ e : List Char × Json, quote e.1 ++ ':' :: print e.2 ++ printMembers es =
      [','].intercalate (printMember e.1 (print e.2) :: es.map fun e => printMember e.1 (print e.2)) ++ ['}'] := by
    intro es
    induction es with
    | nil => intro e; simp [printMembers,printMember]
    | cons f fs ih =>
      intro e
      have := ih f
      simp [printMembers,printMember,List.intercalate_cons_cons] at this ⊢
      exact this
  cases es with
  | nil => rfl
  | cons e es =>
    have := tail es e
    simp only [print,List.map_cons]
    simpa using this

mutual
/-- Sort the members of every object by key, at every depth. -/
def sortKeys : Json → Json
  | .arr xs => .arr (sortKeysElements xs)
  | .obj es => .obj (KeyedEntries.sortOn id (sortKeysMembers es))
  | j => j

def sortKeysElements : List Json → List Json
  | [] => []
  | x :: xs => sortKeys x :: sortKeysElements xs

def sortKeysMembers : List (List Char × Json) → List (List Char × Json)
  | [] => []
  | (k,v) :: es => (k,sortKeys v) :: sortKeysMembers es
end

theorem sortKeysElements_eq (xs : List Json) : sortKeysElements xs = xs.map sortKeys := by
  induction xs <;> simp_all [sortKeysElements]

theorem sortKeysMembers_eq (es : List (List Char × Json)) :
    sortKeysMembers es = es.map (fun e => (e.1,sortKeys e.2)) := by
  induction es <;> simp_all [sortKeysMembers]

/-- Every object lists its members in key order, at every depth. -/
inductive KeysSorted : Json → Prop where
  | null : KeysSorted .null
  | bool (b : Bool) : KeysSorted (.bool b)
  | num (n : Int) : KeysSorted (.num n)
  | str (s : List Char) : KeysSorted (.str s)
  | arr {xs : List Json} : (∀ x ∈ xs, KeysSorted x) → KeysSorted (.arr xs)
  | obj {es : List (List Char × Json)} : es.Pairwise (fun a b => a.1 ≤ b.1) →
      (∀ e ∈ es, KeysSorted e.2) → KeysSorted (.obj es)

/-- Sorting again changes nothing. -/
theorem KeysSorted.sortKeys_eq {j : Json} (h : KeysSorted j) : sortKeys j = j := by
  induction h with
  | null | bool | num | str => rfl
  | @arr xs _ ih =>
    rw [sortKeys,sortKeysElements_eq]
    exact congrArg Json.arr ((List.map_congr_left ih).trans (List.map_id xs))
  | @obj es hs _ ih =>
    have he : sortKeysMembers es = es := by
      rw [sortKeysMembers_eq]
      conv_rhs => rw [← List.map_id es]
      exact List.map_congr_left (fun e he => Prod.ext rfl (ih e he))
    rw [sortKeys,he,KeyedEntries.sortOn_of_sorted id hs]

example : print (.obj [(['a'],.arr [.num (-12),.null]),(['"'],.str ['\n','x'])]) =
    "\x7b\"a\":[-12,null],\"\\\"\":\"\\nx\"\x7d".toList := by decide

end Json
end ExecutionFinality
