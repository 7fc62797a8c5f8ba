import ExecutionFinality.Interop.NodeRuntime
import ExecutionFinality.Library.JsonData
import ExecutionFinality.Library.JsonUnambiguous

/-! Which JavaScript values the canonicalizer of the Node verifier accepts, and which of
these are portable data. -/
namespace ExecutionFinality
open KeyedEntries
open JsonTree (Alike Regular)

namespace JsAny
open Node (maxSafeInteger isSafeInteger KeyText)

def safeInteger? (x : Binary64) : Option Int :=
  match x with
  | .finite q => if q.den = 1 ∧ |q.num| ≤ maxSafeInteger then some q.num else none
  | _ => none

/-- The text of a string without unpaired surrogates -/
def scalars? (s : JsStr) : Option (List Char) :=
  if Utf16.encode (Utf16.decode s) = s then some (Utf16.decode s) else none

mutual
/-- The data that a value denotes when it is made up of `null`, booleans, safe integers,
strings without unpaired surrogates, arrays without holes and plain objects only. -/
def document : JsAny → Option (JsonTree Int)
  | .null => some .null
  | .bool b => some (.bool b)
  | .number x => (safeInteger? x).map .num
  | .negativeZero => some (.num 0)
  | .string s => (scalars? s).map .str
  | .array xs => (documentElements xs).map .arr
  | .object es => (documentMembers es).map .obj
  | .undefined | .bigint _ | .symbol | .function | .other _ _ => none

def documentElements : List (Option JsAny) → Option (List (JsonTree Int))
  | [] => some []
  | none :: _ => none
  | some x :: xs => do return (← document x) :: (← documentElements xs)

def documentMembers : List (JsStr × JsAny) → Option (List (List Char × JsonTree Int))
  | [] => some []
  | (k,v) :: es => do return (← scalars? k,← document v) :: (← documentMembers es)
end

def Portable (v : JsAny) : Prop := ∃ t, document v = some t

/-- The same data: strings and keys up to NFC, properties in any order. -/
def SameData (nfc : Nfc) (v w : JsAny) : Prop :=
  ∃ t u, document v = some t ∧ document w = some u ∧ Alike Eq nfc.run t u

/-- Somewhere in the value an array has a hole, or there is an object of another class. -/
inductive Foreign : JsAny → Prop
  | hole {xs : List (Option JsAny)} (h : none ∈ xs) : Foreign (.array xs)
  | other (className : JsStr) (es : List (JsStr × JsAny)) : Foreign (.other className es)
  | element {xs : List (Option JsAny)} {x : JsAny} (hx : some x ∈ xs) (h : Foreign x) : Foreign (.array xs)
  | property {es : List (JsStr × JsAny)} {e : JsStr × JsAny} (he : e ∈ es) (h : Foreign e.2) : Foreign (.object es)

/-- No property name has an unpaired surrogate and no two have one normal form. -/
def Named (nfc : Nfc) (es : List (JsStr × JsAny)) : Prop :=
  (∀ e ∈ es, ∃ cs, e.1 = Utf16.encode cs) ∧ (es.map fun e => nfc.run (Utf16.decode e.1)).Nodup

/-- A value of portable primitives; holes and objects of every class are let in. -/
inductive Admitted (nfc : Nfc) : JsAny → Prop
  | null : Admitted nfc .null
  | bool (b : Bool) : Admitted nfc (.bool b)
  | number {n : Int} (h : |n| ≤ maxSafeInteger) : Admitted nfc (.number (.finite n))
  | negativeZero : Admitted nfc .negativeZero
  | string (cs : List Char) : Admitted nfc (.string (Utf16.encode cs))
  | array {xs : List (Option JsAny)} (h : ∀ x, some x ∈ xs → Admitted nfc x) : Admitted nfc (.array xs)
  | object {es : List (JsStr × JsAny)} (hk : Named nfc es) (h : ∀ e ∈ es, Admitted nfc e.2) : Admitted nfc (.object es)
  | other (className : JsStr) {es : List (JsStr × JsAny)} (hk : Named nfc es) (h : ∀ e ∈ es, Admitted nfc e.2) :
    Admitted nfc (.other className es)

variable {nfc : Nfc} {pf : Node.Platform}

theorem safeInteger?_eq_some {x : Binary64} {n : Int} : safeInteger? x = some n ↔
    x = .finite n ∧ |n| ≤ maxSafeInteger := by
  constructor
  · intro h
    unfold safeInteger? at h
    split at h
    · rename_i q
      split_ifs at h with hq
      cases h
      exact ⟨congrArg Binary64.finite (Rat.den_eq_one_iff q |>.mp hq.1).symm,hq.2⟩
    · cases h
  · rintro ⟨rfl,hn⟩
    simp [safeInteger?,hn]

theorem scalars?_eq_some {s : JsStr} {cs : List Char} : scalars? s = some cs ↔ s = Utf16.encode cs := by
  unfold scalars?
  constructor
  · intro h
    split_ifs at h with hs
    cases h
    exact hs.symm
  · rintro rfl
    rw [Utf16.decode_encode,if_pos rfl]

theorem isSafeInteger_eq (x : Binary64) : isSafeInteger x = (safeInteger? x).isSome := by
  cases x with
  | finite q =>
    simp only [isSafeInteger,safeInteger?]
    split_ifs with h <;> simp [h]
  | _ => rfl

theorem canonical_number {x : Binary64} {s : JsStr} : canonical pf (.number x) = .ok s ↔
    ∃ n, safeInteger? x = some n ∧ s = Utf16.encode (Json.printInt n) := by
  cases hx : safeInteger? x with
  | some n =>
    obtain ⟨rfl,hn⟩ := safeInteger?_eq_some.mp hx
    refine ((canonical_ofParsed (.number (.finite n)) s).trans Node.canonical_number).trans ?_
    simp [hn]
  | none =>
    have hx' : isSafeInteger x = false := by rw [isSafeInteger_eq,hx]; rfl
    rw [canonical,normalizeCanonical,hx']
    constructor
    · rintro ⟨⟩
    · rintro ⟨_,⟨⟩,_⟩

theorem canonical_string {u s : JsStr} : canonical pf (.string u) = .ok s ↔
    ∃ cs, u = Utf16.encode cs ∧ s = Utf16.encode (Json.quote (pf.nfc.run cs)) :=
  (canonical_ofParsed (.string u) s).trans Node.canonical_string

theorem documentMembers_eq (es : List (JsStr × JsAny)) :
    documentMembers es = es.mapM fun e => do return (← scalars? e.1,← document e.2) := by
  induction es with
  | nil => rfl
  | cons e es ih =>
    obtain ⟨k,v⟩ := e
    simp only [documentMembers,ih,List.mapM_cons,bind_assoc,pure_bind]

theorem documentElements_eq (xs : List (Option JsAny)) : documentElements xs = xs.mapM fun x => x.bind document := by
  induction xs with
  | nil => rfl
  | cons x xs ih => cases x <;> simp [documentElements,ih]

theorem document_array {xs : List (Option JsAny)} {t : JsonTree Int} : document (.array xs) = some t ↔
    ∃ ts, List.Forall₂ (fun x t => x.bind document = some t) xs ts ∧ t = .arr ts := by
  simp only [document,documentElements_eq,Option.map_eq_some_iff,CheckChains.mapM_eq_some]
  exact exists_congr fun _ => and_congr_right fun _ => eq_comm

theorem document_object {es : List (JsStr × JsAny)} {t : JsonTree Int} : document (.object es) = some t ↔
    ∃ ms, List.Forall₂ (fun e m => scalars? e.1 = some m.1 ∧ document e.2 = some m.2) es ms ∧ t = .obj ms := by
  simp only [document,documentMembers_eq,Option.map_eq_some_iff,mapM_entry_eq_some]
  exact exists_congr fun _ => and_congr_right fun _ => eq_comm

/-- A portable value has no hole and no object of another class. -/
theorem not_portable_of_foreign {v : JsAny} (hf : Foreign v) : ¬ Portable v := by
  induction hf with
  | hole h =>
    rintro ⟨t,ht⟩
    obtain ⟨ts,hts,_⟩ := document_array.mp ht
    obtain ⟨_,_,hr⟩ := forall₂_of_mem_right hts.flip h
    cases hr
  | other => exact fun ⟨_,ht⟩ => nomatch ht
  | element hx _ ih =>
    rintro ⟨t,ht⟩
    obtain ⟨ts,hts,_⟩ := document_array.mp ht
    obtain ⟨u,_,hr⟩ := forall₂_of_mem_right hts.flip hx
    exact ih ⟨u,hr⟩
  | property he _ ih =>
    rintro ⟨t,ht⟩
    obtain ⟨ms,hms,_⟩ := document_object.mp ht
    obtain ⟨m,_,hr⟩ := forall₂_of_mem_right hms.flip he
    exact ih ⟨m.2,hr.2⟩

/-- Without holes and objects of other classes the text is that of the document. -/
theorem canonical_document (v : JsAny) : ¬ Foreign v → ∀ s, canonical pf v = .ok s ↔
    ∃ t, document v = some t ∧ Regular pf.nfc.run (fun _ => True) t ∧
      s = t.render Utf16.encode Json.printInt pf.nfc.run := by
  induction v using recOn_members with
  | null =>
    intro _ s
    constructor
    · rintro ⟨⟩
      exact ⟨_,rfl,.null,rfl⟩
    · rintro ⟨_,⟨⟩,_,rfl⟩
      rfl
  | bool b =>
    intro _ s
    constructor
    · intro h
      refine ⟨_,rfl,.bool b,?_⟩
      cases b <;> exact (Except.ok.inj h).symm
    · rintro ⟨_,⟨⟩,_,rfl⟩
      cases b <;> rfl
  | number x =>
    intro _ s
    simp only [canonical_number,document,Option.map_eq_some_iff]
    constructor
    · rintro ⟨n,hn,rfl⟩
      exact ⟨_,⟨n,hn,rfl⟩,.num trivial,rfl⟩
    · rintro ⟨_,⟨n,hn,rfl⟩,_,rfl⟩
      exact ⟨n,hn,rfl⟩
  | negativeZero =>
    intro _ s
    constructor
    · rintro ⟨⟩
      exact ⟨_,rfl,.num trivial,rfl⟩
    · rintro ⟨_,⟨⟩,_,rfl⟩
      rfl
  | string u =>
    intro _ s
    simp only [canonical_string,document,Option.map_eq_some_iff,scalars?_eq_some]
    constructor
    · rintro ⟨cs,rfl,rfl⟩
      exact ⟨_,⟨cs,rfl,rfl⟩,.str cs,rfl⟩
    · rintro ⟨_,⟨cs,rfl,rfl⟩,_,rfl⟩
      exact ⟨cs,rfl,rfl⟩
  | array xs ih =>
    intro hv s
    have slot (x : Option JsAny) (hx : x ∈ xs) (s : JsStr) : SlotText pf x s ↔ ∃ t, x.bind document = some t ∧
        Regular pf.nfc.run (fun _ => True) t ∧ s = t.render Utf16.encode Json.printInt pf.nfc.run := by
      cases x with
      | none => exact (hv (.hole hx)).elim
      | some x => exact ih x hx (fun h => hv (.element hx h)) s
    simp only [document_array]
    exact canonical_array.trans (JsonTree.canon_arr_iff Utf16.encode_append slot s)
  | object es ih =>
    intro hv s
    have hkey (k : JsStr) (c : List Char) : KeyText pf.nfc k c ↔ ∃ cs, scalars? k = some cs ∧ c = pf.nfc.run cs :=
      exists_congr fun cs => and_congr scalars?_eq_some.symm eq_comm
    simp only [document_object]
    exact canonical_object.trans (JsonTree.canon_obj_iff Utf16.encode_append (fun v s => canonical pf v = .ok s)
      (fun v t => document v = some t) hkey (fun e he => ih e he fun h => hv (.property he h)) s)
  | other className es => exact fun hv => (hv (.other className es)).elim
  | _ =>
    intro _ s
    constructor
    · rintro ⟨⟩
    · rintro ⟨_,⟨⟩,_⟩

/-- An object is accepted by its property names and its property values. -/
theorem accepts_object_iff {es : List (JsStr × JsAny)} : (∃ s, canonical pf (.object es) = .ok s) ↔
    Named pf.nfc es ∧ ∀ e ∈ es, ∃ s, canonical pf e.2 = .ok s := by
  have normalized {ms : List (List Char × JsStr)}
      (hms : List.Forall₂ (fun e m => KeyText pf.nfc e.1 m.1 ∧ canonical pf e.2 = .ok m.2) es ms) :
      (es.map fun e => pf.nfc.run (Utf16.decode e.1)) = keys ms := by
    refine map_eq_iff_forall₂.mpr (hms.imp fun e m h => ?_)
    obtain ⟨cs,hcs,hm⟩ := h.1
    rw [hcs,Utf16.decode_encode,hm]
  simp only [canonical_object]
  constructor
  · rintro ⟨_,ms,hms,hn,rfl⟩
    refine ⟨⟨fun e he => ?_,(normalized hms).symm ▸ hn⟩,fun e he => ?_⟩
    · obtain ⟨m,_,⟨cs,hcs,_⟩,_⟩ := forall₂_of_mem_right hms.flip he
      exact ⟨cs,hcs⟩
    · obtain ⟨m,_,_,hs⟩ := forall₂_of_mem_right hms.flip he
      exact ⟨m.2,hs⟩
  · rintro ⟨⟨ht,hn⟩,hes⟩
    obtain ⟨ms,hms⟩ : ∃ ms : List (List Char × JsStr),
        List.Forall₂ (fun e m => KeyText pf.nfc e.1 m.1 ∧ canonical pf e.2 = .ok m.2) es ms := by
      refine exists_forall₂ fun e he => ?_
      obtain ⟨cs,hcs⟩ := ht e he
      obtain ⟨s,hs⟩ := hes e he
      exact ⟨(_,s),⟨cs,hcs,rfl⟩,hs⟩
    exact ⟨_,ms,hms,normalized hms ▸ hn,rfl⟩

/-- What the canonicalizer accepts -/
theorem accepts_iff (v : JsAny) : (∃ s, canonical pf v = .ok s) ↔ Admitted pf.nfc v := by
  induction v using recOn_members with
  | null => exact ⟨fun _ => .null,fun _ => ⟨_,rfl⟩⟩
  | bool b => exact ⟨fun _ => .bool b,fun _ => by cases b <;> exact ⟨_,rfl⟩⟩
  | number x =>
    simp only [canonical_number,safeInteger?_eq_some]
    constructor
    · rintro ⟨_,n,⟨rfl,hn⟩,rfl⟩
      exact .number hn
    · rintro (_ | _ | hn)
      exact ⟨_,_,⟨rfl,hn⟩,rfl⟩
  | negativeZero => exact ⟨fun _ => .negativeZero,fun _ => ⟨_,rfl⟩⟩
  | string u =>
    simp only [canonical_string]
    constructor
    · rintro ⟨_,cs,rfl,rfl⟩
      exact .string cs
    · rintro (_ | _ | _ | _ | cs)
      exact ⟨_,cs,rfl,rfl⟩
  | array xs ih =>
    have slots : (∃ s, canonical pf (.array xs) = .ok s) ↔ ∀ x ∈ xs, ∃ s, SlotText pf x s := by
      rw [← exists_forall₂_iff]
      simp only [canonical_array]
      exact ⟨fun ⟨_,ss,hss,_⟩ => ⟨ss,hss⟩,fun ⟨ss,hss⟩ => ⟨_,ss,hss,rfl⟩⟩
    rw [slots]
    constructor
    · exact fun h => .array fun x hx => (ih x hx).mp (h _ hx)
    · intro h x hx
      cases x with
      | none => exact ⟨[],rfl⟩
      | some x =>
        cases h with
        | array h => exact (ih x hx).mpr (h x hx)
  | object es ih =>
    rw [accepts_object_iff]
    constructor
    · exact fun ⟨hk,h⟩ => .object hk fun e he => (ih e he).mp (h e he)
    · intro h
      cases h with
      | object hk h => exact ⟨hk,fun e he => (ih e he).mpr (h e he)⟩
  | other className es ih =>
    rw [canonical_other,accepts_object_iff]
    constructor
    · exact fun ⟨hk,h⟩ => .other className hk fun e he => (ih e he).mp (h e he)
    · intro h
      cases h with
      | other _ hk h => exact ⟨hk,fun e he => (ih e he).mpr (h e he)⟩
  | _ =>
    constructor
    · rintro ⟨_,⟨⟩⟩
    · rintro ⟨⟩

theorem sameData_of_text {v w : JsAny} (hv : ¬ Foreign v) (hw : ¬ Foreign w) {s : JsStr} (hs : canonical pf v = .ok s)
    (ht : canonical pf w = .ok s) : SameData pf.nfc v w := by
  obtain ⟨t,hvt,hreg,rfl⟩ := (canonical_document v hv s).mp hs
  obtain ⟨u,hwu,_,heq⟩ := (canonical_document w hw _).mp ht
  exact ⟨t,u,hvt,hwu,(JsonTree.print_normalize_eq_iff Json.printInt_numerals hreg).mp (Utf16.encode_injective heq)⟩

/-- Accepted values are portable, and of one text only when they are the same data, exactly
where no hole and no object of another class is let in. -/
theorem canonical_portable_iff (pf : Node.Platform) (v w : JsAny) :
    ((∀ s, canonical pf v = .ok s → Portable v) ∧ (∀ s, canonical pf w = .ok s → Portable w) ∧
      ∀ s, canonical pf v = .ok s → canonical pf w = .ok s → SameData pf.nfc v w) ↔
    ¬ (Admitted pf.nfc v ∧ Foreign v) ∧ ¬ (Admitted pf.nfc w ∧ Foreign w) := by
  have portable (v : JsAny) : (∀ s, canonical pf v = .ok s → Portable v) ↔ ¬ (Admitted pf.nfc v ∧ Foreign v) := by
    rw [← accepts_iff]
    constructor
    · rintro h ⟨⟨s,hs⟩,hf⟩
      exact not_portable_of_foreign hf (h s hs)
    · intro h s hs
      obtain ⟨t,ht,_⟩ := (canonical_document v (fun hf => h ⟨⟨s,hs⟩,hf⟩) s).mp hs
      exact ⟨t,ht⟩
  rw [portable,portable]
  constructor
  · exact fun h => ⟨h.1,h.2.1⟩
  · rintro ⟨hv,hw⟩
    refine ⟨hv,hw,fun s hs ht => sameData_of_text ?_ ?_ hs ht⟩
    · exact fun hf => hv ⟨(accepts_iff v).mp ⟨s,hs⟩,hf⟩
    · exact fun hf => hw ⟨(accepts_iff w).mp ⟨s,ht⟩,hf⟩

/-- An array with a hole, a `Map` and a byte array have the texts of portable values. -/
theorem canonical_portable_counterexample :
    canonical Node.samplePlatform (.array [none]) = .ok (js "[]") ∧ ¬ Portable (.array [none]) ∧
    canonical Node.samplePlatform (.array []) = .ok (js "[]") ∧ Portable (.array []) ∧
    canonical Node.samplePlatform (.other (js "Map") []) = .ok (js "\x7b\x7d") ∧ ¬ Portable (.other (js "Map") []) ∧
    canonical Node.samplePlatform (.object []) = .ok (js "\x7b\x7d") ∧ Portable (.object []) ∧
    canonical Node.samplePlatform (.other (js "Uint8Array") [(js "0",.number (.finite 7))]) =
      canonical Node.samplePlatform (.object [(js "0",.number (.finite 7))]) ∧
    ¬ Portable (.other (js "Uint8Array") [(js "0",.number (.finite 7))]) :=
  ⟨rfl,not_portable_of_foreign (.hole (by simp)),rfl,⟨_,rfl⟩,rfl,not_portable_of_foreign (.other _ _),rfl,⟨_,rfl⟩,rfl,
    not_portable_of_foreign (.other _ _)⟩

end JsAny
end ExecutionFinality
