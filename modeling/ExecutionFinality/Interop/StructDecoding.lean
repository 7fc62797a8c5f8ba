import ExecutionFinality.Interop.JsonTexts

/-! How `encoding/json` decodes into structs and slices. A member is for the field of its name, or else for the
field that differs from it in case only; what no member is for keeps what it has. -/
namespace ExecutionFinality
open KeyedEntries

namespace Go

/-- `foldRune`, as far as it reaches ASCII -/
def foldRune (r : Char) : Char := if r = 'ſ' then 'S' else if r = '\u212A' then 'K' else r.toUpper

def foldName (key : List Char) : List Char := key.map foldRune

/-- A struct type: its zero value, and its fields in JSON with how each is stored. Nothing is stored when the
member has the wrong type. -/
structure StructType (σ : Type) where
  zero : σ
  fields : List (String × (JsonDoc → σ → Option σ))

/-- A decoded string -/
def text (u : List UInt16) : GoStr := Utf8.encode (Utf16.decode u)

/-- A field of type `string` -/
def storeString : JsonDoc → GoStr → Option GoStr
  | .null,old => some old
  | .str u,_ => some (text u)
  | _,_ => none

/-- A slice, and what its array keeps behind it from earlier use -/
structure Slice (σ : Type) where
  elements : List σ
  spare : List σ

def Slice.nil {σ : Type} : Slice σ := ⟨[],[]⟩

namespace StructType
variable {σ : Type}

/-- The field that a member is for -/
def field? (T : StructType σ) (key : List Char) : Option (String × (JsonDoc → σ → Option σ)) :=
  (T.fields.find? fun f => f.1.toList = key).or (T.fields.find? fun f => foldName f.1.toList = foldName key)

def member (T : StructType σ) (v : σ) (e : List UInt16 × JsonDoc) : Option σ :=
  match T.field? (Utf16.decode e.1) with
  | some f => f.2 e.2 v
  | none => some v

/-- Decode into a struct that has a value already. -/
def decode (T : StructType σ) : JsonDoc → σ → Option σ
  | .null,v => some v
  | .obj es,v => es.foldlM T.member v
  | _,_ => none

/-- Decode over the elements of an array, which grows by zero values. -/
def decodeElements (T : StructType σ) : List JsonDoc → List σ → Option (List σ)
  | [],_ => some []
  | x :: xs,array => do return (← T.decode x (array.headD T.zero)) :: (← T.decodeElements xs array.tail)

def decodeSlice (T : StructType σ) : JsonDoc → Slice σ → Option (Slice σ)
  | .null,_ | .arr [],_ => some .nil
  | .arr xs,s => do
    let array := s.elements ++ s.spare
    return ⟨← T.decodeElements xs array,array.drop xs.length⟩
  | _,_ => none

/-- `dec.Decode(&v)` for a fresh struct -/
def decodeText (T : StructType σ) (s : List Char) : Option σ := do T.decode (← JsonDoc.readFirst s).1 T.zero

end StructType

/-! Decoding where each field has one member -/

/-- The object has one member for the field, and its key is the name. -/
def Named (es : List (List UInt16 × JsonDoc)) (name : String) (x : JsonDoc) : Prop :=
  es.filter (fun e => foldName (Utf16.decode e.1) = foldName name.toList) = [(Utf16.encode name.toList,x)]

section
variable {σ α : Type} {T : StructType σ} {es : List (List UInt16 × JsonDoc)} {name : String} {x : JsonDoc}
  {f : String × (JsonDoc → σ → Option σ)} {v w : σ} {key : List Char}

theorem Named.mem (h : Named es name x) : (Utf16.encode name.toList,x) ∈ es :=
  (List.mem_filter.mp (h ▸ List.mem_singleton_self _)).1

theorem Named.eq_of_mem (h : Named es name x) {e : List UInt16 × JsonDoc} (he : e ∈ es)
    (hkey : foldName (Utf16.decode e.1) = foldName name.toList) : e = (Utf16.encode name.toList,x) :=
  List.mem_singleton.mp (h ▸ List.mem_filter.mpr ⟨he,decide_eq_true hkey⟩)

/-- Names that stay distinct when case is forgotten have one member each. -/
theorem named_of_nodup {fs : List (String × JsonDoc)} (hn : (fs.map fun f => foldName f.1.toList).Nodup) :
    ∀ f ∈ fs, Named (fs.map fun f => (Utf16.encode f.1.toList,f.2)) f.1 f.2 := by
  induction fs with
  | nil => simp
  | cons g fs ih =>
    obtain ⟨hg,hn⟩ := List.nodup_cons.mp hn
    have other {f : String × JsonDoc} (hf : f ∈ fs) : foldName g.1.toList ≠ foldName f.1.toList :=
      fun he => hg (List.mem_map.mpr ⟨f,hf,he.symm⟩)
    rintro f (_ | ⟨_,hf⟩)
    · rw [Named,List.map_cons,List.filter_cons_of_pos (by rw [Utf16.decode_encode]; exact decide_eq_true rfl)]
      refine congrArg _ (List.filter_eq_nil_iff.mpr (List.forall_mem_map.mpr fun h hh => ?_))
      rw [Utf16.decode_encode]
      exact fun he => other hh (of_decide_eq_true he).symm
    · rw [Named,List.map_cons,List.filter_cons_of_neg (by rw [Utf16.decode_encode]; simpa using other hf)]
      exact ih hn f hf

namespace StructType

theorem mem_of_field? (h : T.field? key = some f) : f ∈ T.fields ∧ foldName f.1.toList = foldName key := by
  rcases Option.or_eq_some_iff.mp h with h | ⟨_,h⟩
  · have hname := List.find?_some h
    exact ⟨List.mem_of_find?_eq_some h,congrArg foldName (of_decide_eq_true hname)⟩
  · have hfold := List.find?_some h
    exact ⟨List.mem_of_find?_eq_some h,of_decide_eq_true hfold⟩

theorem field?_of_mem (hn : (keys T.fields).Nodup) (h : f ∈ T.fields) : T.field? f.1.toList = some f := by
  obtain ⟨g,hg⟩ : ∃ g, (T.fields.find? fun g => g.1.toList = f.1.toList) = some g :=
    Option.isSome_iff_exists.mp (List.find?_isSome.mpr ⟨f,h,decide_eq_true rfl⟩)
  have hname := List.find?_some hg
  have hf : g = f := List.inj_on_of_nodup_map hn (List.mem_of_find?_eq_some hg) h
    (String.toList_inj.mp (of_decide_eq_true hname))
  rw [field?,hg,hf]
  rfl

/-- Decoding an object that has one member for each field, in whatever order: when a field stays stored while others
are, every field is stored in the end. -/
theorem exists_decode {S : String → σ → Prop} (hn : (keys T.fields).Nodup) (h : ∀ f ∈ T.fields,
      ∃ x, Named es f.1 x ∧ ∀ v, ∃ w, f.2 x v = some w ∧ S f.1 w ∧ ∀ n, S n v → S n w) (v : σ) :
    ∃ w, T.decode (.obj es) v = some w ∧ ∀ f ∈ T.fields, S f.1 w := by
  have steps : ∀ (ds : List (List UInt16 × JsonDoc)), (∀ e ∈ ds, e ∈ es) → ∀ v, ∃ w, ds.foldlM T.member v = some w ∧
      (∀ n, S n v → S n w) ∧ ∀ e ∈ ds, ∀ f, T.field? (Utf16.decode e.1) = some f → S f.1 w := by
    intro ds
    induction ds with
    | nil => exact fun _ v => ⟨v,rfl,fun _ h => h,by simp⟩
    | cons e ds ih =>
      intro hds v
      have hstep : ∃ u, T.member v e = some u ∧ (∀ n, S n v → S n u) ∧
          ∀ f, T.field? (Utf16.decode e.1) = some f → S f.1 u := by
        unfold member
        cases hf : T.field? (Utf16.decode e.1) with
        | none => exact ⟨v,rfl,fun _ h => h,by simp⟩
        | some f =>
          obtain ⟨hmem,hfold⟩ := mem_of_field? hf
          obtain ⟨x,hx,hstore⟩ := h f hmem
          obtain ⟨u,hu,hstored,hkeep⟩ := hstore v
          rw [hx.eq_of_mem (hds e (List.mem_cons_self ..)) hfold.symm]
          exact ⟨u,hu,hkeep,by rintro _ ⟨⟩; exact hstored⟩
      obtain ⟨u,hu,hkeep,hfirst⟩ := hstep
      obtain ⟨w,hw,hkeep',hrest⟩ := ih (fun e he => hds e (List.mem_cons_of_mem _ he)) u
      refine ⟨w,?_,fun n hm => hkeep' n (hkeep n hm),?_⟩
      · rw [List.foldlM_cons,hu,Option.bind_eq_bind,Option.bind_some,hw]
      · exact List.forall_mem_cons.mpr ⟨fun f hf => hkeep' _ (hfirst f hf),hrest⟩
  obtain ⟨w,hw,_,hfields⟩ := steps es (fun _ h => h) v
  refine ⟨w,hw,fun f hf => ?_⟩
  obtain ⟨x,hx,_⟩ := h f hf
  exact hfields _ hx.mem f (by rw [Utf16.decode_encode]; exact field?_of_mem hn hf)

/-- Elements that leave nothing of what was there are decoded alike over every array. -/
theorem decodeElements_eq {xs : List JsonDoc} {vs : List σ}
    (h : List.Forall₂ (fun x v => ∀ u, T.decode x u = some v) xs vs) (array : List σ) :
    T.decodeElements xs array = some vs := by
  induction h generalizing array with
  | nil => rfl
  | cons hx _ ih =>
    rw [decodeElements,hx,ih]
    rfl

theorem exists_decodeSlice {xs : List JsonDoc} {vs : List σ}
    (h : List.Forall₂ (fun x v => ∀ u, T.decode x u = some v) xs vs) (s : Slice σ) :
    ∃ t, T.decodeSlice (.arr xs) s = some t ∧ t.elements = vs := by
  cases xs with
  | nil =>
    cases h
    exact ⟨.nil,rfl,rfl⟩
  | cons x xs =>
    refine ⟨⟨vs,(s.elements ++ s.spare).drop (x :: xs).length⟩,?_,rfl⟩
    change (T.decodeElements (x :: xs) (s.elements ++ s.spare)).bind _ = _
    rw [decodeElements_eq h]
    rfl

end StructType

/-- The document is an object with one member for each of these fields, in any order and beside any others. -/
def HasMembers (fs : List (String × JsonDoc)) (d : JsonDoc) : Prop := ∃ es, d = .obj es ∧ ∀ f ∈ fs, Named es f.1 f.2

variable {fs : List (String × JsonDoc)} {d : JsonDoc}

theorem HasMembers.member (h : HasMembers fs d) (hx : (name,x) ∈ fs) : ∃ es, d = .obj es ∧ Named es name x := by
  obtain ⟨es,rfl,hes⟩ := h
  exact ⟨es,rfl,hes _ hx⟩

/-- Where the stored fields make up a value, the document is decoded to that value over whatever was there. -/
theorem HasMembers.decode (h : HasMembers fs d) {S : String → σ → Prop} {g : σ} (hn : (keys T.fields).Nodup)
    (hT : ∀ f ∈ T.fields, ∃ x, (f.1,x) ∈ fs ∧ ∀ v, ∃ w, f.2 x v = some w ∧ S f.1 w ∧ ∀ n, S n v → S n w)
    (hg : ∀ w, (∀ f ∈ T.fields, S f.1 w) → w = g) (u : σ) : T.decode d u = some g := by
  obtain ⟨es,rfl,hes⟩ := h
  obtain ⟨w,hw,hall⟩ := StructType.exists_decode hn (fun f hf => (hT f hf).imp fun _ hx => ⟨hes _ hx.1,hx.2⟩) u
  rw [hw,hg w hall]

end
end Go
end ExecutionFinality
