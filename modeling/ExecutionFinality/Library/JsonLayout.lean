import ExecutionFinality.Library.JsonGrammar

/-! The two layouts of a JSON document, compact and indented, are texts of it. -/
namespace ExecutionFinality

namespace JsonTree
variable {ν : Type}

mutual
/-- The document with strings as UTF-16 units, for a spelling of its numbers -/
def doc (num : ν → JsonNumber) : JsonTree ν → JsonDoc
  | .null => .null
  | .bool b => .bool b
  | .num n => .num (num n)
  | .str s => .str (Utf16.encode s)
  | .arr xs => .arr (docElements num xs)
  | .obj es => .obj (docMembers num es)

def docElements (num : ν → JsonNumber) : List (JsonTree ν) → List JsonDoc
  | [] => []
  | x :: xs => doc num x :: docElements num xs

def docMembers (num : ν → JsonNumber) : List (List Char × JsonTree ν) → List (List UInt16 × JsonDoc)
  | [] => []
  | (k,v) :: es => (Utf16.encode k,doc num v) :: docMembers num es
end

/-- A new line at a depth of two columns each -/
def newline (level : Nat) : List Char := '\n' :: List.replicate (2 * level) ' '

mutual
/-- Members and elements on lines of their own -/
def indented (num : ν → List Char) (level : Nat) : JsonTree ν → List Char
  | .null => "null".toList
  | .bool true => "true".toList
  | .bool false => "false".toList
  | .num n => num n
  | .str s => Json.quote s
  | .arr [] => ['[',']']
  | .arr (x :: xs) =>
    '[' :: newline (level+1) ++ indented num (level+1) x ++ indentedElements num (level+1) xs ++ newline level ++ [']']
  | .obj [] => ['{','}']
  | .obj ((k,v) :: es) =>
    '{' :: newline (level+1) ++ Json.quote k ++ ':' :: ' ' :: indented num (level+1) v ++
      indentedMembers num (level+1) es ++ newline level ++ ['}']

def indentedElements (num : ν → List Char) (level : Nat) : List (JsonTree ν) → List Char
  | [] => []
  | x :: xs => ',' :: newline level ++ indented num level x ++ indentedElements num level xs

def indentedMembers (num : ν → List Char) (level : Nat) : List (List Char × JsonTree ν) → List Char
  | [] => []
  | (k,v) :: es => ',' :: newline level ++ Json.quote k ++ ':' :: ' ' :: indented num level v ++
      indentedMembers num level es
end

variable {num : ν → JsonNumber}

theorem doc_arr (xs : List (JsonTree ν)) : doc num (.arr xs) = .arr (xs.map (doc num)) := by
  have h : docElements num xs = xs.map (doc num) := by
    induction xs with
    | nil => rfl
    | cons x xs ih => rw [docElements,ih,List.map_cons]
  rw [doc,h]

theorem doc_obj (es : List (List Char × JsonTree ν)) :
    doc num (.obj es) = .obj (es.map fun e => (Utf16.encode e.1,doc num e.2)) := by
  have h : docMembers num es = es.map fun e => (Utf16.encode e.1,doc num e.2) := by
    induction es with
    | nil => rfl
    | cons e es ih => rw [docMembers,ih,List.map_cons]
  rw [doc,h]

end JsonTree

namespace JsonDoc
open JsonTree (newline)

theorem blank_newline (level : Nat) : Blank (newline level) := by
  intro c hc
  rcases List.mem_cons.mp hc with rfl | hc
  · rfl
  · rw [List.eq_of_mem_replicate hc]
    rfl

/-- An escaped character is its own spelling or an escape of its unit. -/
theorem spellsUnits_escapeChar {c : Char} {us : List UInt16} {q : List Char} (h : SpellsUnits us q) :
    SpellsUnits (Utf16.encodeChar c ++ us) (Json.escapeChar c ++ q) := by
  have unit {n : Nat} (hc : c.toNat = n) (hn : n < 0x10000) : Utf16.encodeChar c = [UInt16.ofNat n] := by
    rw [Utf16.encodeChar,hc,if_pos hn]
  unfold Json.escapeChar
  split_ifs with h1 h2 h3 h4 h5 h6 h7 h8
  · rw [h1]
    exact .short rfl h
  · rw [h2]
    exact .short rfl h
  · rw [unit h3 (by decide)]
    exact .short rfl h
  · rw [unit h4 (by decide)]
    exact .short rfl h
  · rw [h5]
    exact .short rfl h
  · rw [h6]
    exact .short rfl h
  · rw [h7]
    exact .short rfl h
  · have hex : ∀ n < 32, hexUnit? '0' '0' (Nat.digitChar (n / 16)) (Nat.digitChar (n % 16)) = some (UInt16.ofNat n) := by
      decide
    rw [unit rfl (by omega)]
    exact .hex (hex c.toNat h8) h
  · exact .plain (by omega) h1 h2 h

theorem spellsUnits_quote (s : List Char) : SpellsUnits (Utf16.encode s) (s.flatMap Json.escapeChar) := by
  induction s with
  | nil => exact .nil
  | cons c s ih => exact spellsUnits_escapeChar ih

theorem spells_str (s : List Char) : Spells (.str (Utf16.encode s)) (Json.quote s) := .str (spellsUnits_quote s)

section
variable {α β : Type} {P : β → List Char → Prop} {close : Char} {f : α → List Char} {g : α → β} {gap gap' : List Char}

/-- Items in a list with commas and gaps between them -/
theorem tail_of_items (hgap : Blank gap) (hgap' : Blank gap') {xs : List α} (h : ∀ x ∈ xs, P (g x) (f x)) :
    Tail P close (xs.map g) (xs.flatMap (fun x => ',' :: gap ++ f x) ++ (gap' ++ [close])) := by
  induction xs with
  | nil => exact .done hgap'
  | cons x xs ih =>
    have hx := h x (List.mem_cons_self ..)
    have ht := Tail.item blank_nil hgap hx (ih fun y hy => h y (List.mem_cons_of_mem _ hy))
    simpa only [List.map_cons,List.flatMap_cons,List.nil_append,List.append_assoc] using ht

theorem listing_of_items (close : Char) {x : α} (xs : List α) (hgap : Blank gap) (hgap' : Blank gap')
    (h : ∀ y ∈ x :: xs, P (g y) (f y)) :
    Listing P close ((x :: xs).map g) (gap ++ f x ++ (xs.flatMap (fun x => ',' :: gap ++ f x) ++ (gap' ++ [close]))) :=
  .some hgap (h x (List.mem_cons_self ..)) (tail_of_items hgap hgap' fun y hy => h y (List.mem_cons_of_mem _ hy))

end

section
variable {ν : Type} {num : ν → JsonNumber}

private theorem indentedElements_eq {num : ν → List Char} {level : Nat} (xs : List (JsonTree ν)) :
    JsonTree.indentedElements num level xs = xs.flatMap fun x => ',' :: newline level ++ JsonTree.indented num level x := by
  induction xs with
  | nil => rfl
  | cons x xs ih => rw [JsonTree.indentedElements,ih,List.flatMap_cons]

private theorem indentedMembers_eq {num : ν → List Char} {level : Nat} (es : List (List Char × JsonTree ν)) :
    JsonTree.indentedMembers num level es = es.flatMap fun e => ',' :: newline level ++
      (Json.quote e.1 ++ ':' :: ' ' :: JsonTree.indented num level e.2) := by
  induction es with
  | nil => rfl
  | cons e es ih => simp only [JsonTree.indentedMembers,ih,List.flatMap_cons,List.append_assoc,List.cons_append]

theorem member_of_value {k : List Char} {d : JsonDoc} {w p : List Char} (hw : Blank w) (h : Spells d p) :
    Member Spells (Utf16.encode k,d) (Json.quote k ++ ':' :: w ++ p) := by
  have := Member.mk (spellsUnits_quote k) blank_nil hw h
  simpa [Json.quote] using this

/-- What `json.dumps` writes with an indent of two is a text of the document. -/
theorem spells_indented (t : JsonTree ν) : ∀ level, Spells (t.doc num) (t.indented (fun n => (num n).text) level) := by
  induction t using JsonTree.recOn_members with
  | null => exact fun _ => .null
  | bool b =>
    intro _
    cases b with
    | true => exact .true
    | false => exact .false
  | num n => exact fun _ => .num _
  | str s => exact fun _ => spells_str s
  | arr xs ih =>
    intro level
    rw [JsonTree.doc_arr]
    cases xs with
    | nil => exact .arr (Listing.none blank_nil)
    | cons x xs =>
      rw [JsonTree.indented,indentedElements_eq]
      have h := listing_of_items ']' xs (blank_newline (level+1)) (blank_newline level)
        fun y hy => ih y hy (level+1)
      simpa only [List.append_assoc,List.cons_append] using Spells.arr h
  | obj es ih =>
    intro level
    rw [JsonTree.doc_obj]
    cases es with
    | nil => exact .obj (Listing.none blank_nil)
    | cons e es =>
      rw [JsonTree.indented,indentedMembers_eq]
      have h := listing_of_items (P := Member Spells) '}' es (blank_newline (level+1)) (blank_newline level)
        (f := fun e => Json.quote e.1 ++ ':' :: [' '] ++ JsonTree.indented (fun n => (num n).text) (level+1) e.2)
        (g := fun e => (Utf16.encode e.1,e.2.doc num)) (x := e)
        fun y hy => member_of_value (by simp [Blank,blank]) (ih y hy (level+1))
      simpa only [List.append_assoc,List.cons_append,List.nil_append] using Spells.obj h

private theorem intercalate_cons (x : List Char) (xs : List (List Char)) :
    [','].intercalate (x :: xs) = x ++ xs.flatMap (',' :: ·) := by
  induction xs generalizing x with
  | nil => simp
  | cons y ys ih => simp only [List.intercalate_cons_cons,ih,List.flatMap_cons,List.append_assoc,List.cons_append,
      List.nil_append]

/-- So is the compact text. -/
theorem spells_print (t : JsonTree ν) : Spells (t.doc num) (t.print fun n => (num n).text) := by
  induction t using JsonTree.recOn_members with
  | null => exact .null
  | bool b =>
    cases b with
    | true => exact .true
    | false => exact .false
  | num n => exact .num _
  | str s => exact spells_str s
  | arr xs ih =>
    rw [JsonTree.doc_arr,JsonTree.print_arr]
    cases xs with
    | nil => exact .arr (Listing.none blank_nil)
    | cons x xs =>
      have h := listing_of_items ']' xs blank_nil blank_nil ih
      simp only [List.map_cons,intercalate_cons,List.flatMap_map]
      simpa only [List.map_cons,List.append_assoc,List.cons_append,List.nil_append] using Spells.arr h
  | obj es ih =>
    rw [JsonTree.doc_obj,JsonTree.print_obj]
    cases es with
    | nil => exact .obj (Listing.none blank_nil)
    | cons e es =>
      have h := listing_of_items (P := Member Spells) '}' es blank_nil blank_nil
        (f := fun e => Json.printMember e.1 (JsonTree.print (fun n => (num n).text) e.2))
        (g := fun e => (Utf16.encode e.1,e.2.doc num)) (x := e)
        fun y hy => by simpa [Json.printMember] using member_of_value blank_nil (ih y hy)
      simp only [List.map_cons,intercalate_cons,List.flatMap_map]
      simpa only [List.map_cons,List.append_assoc,List.cons_append,List.nil_append] using Spells.obj h

end

end JsonDoc
end ExecutionFinality
