import ExecutionFinality.Interop.TextAgreement

/-! `asdict` and `json.dumps`: the document that a Python value is written as. -/
namespace ExecutionFinality
open KeyedEntries
open JsonTree (Regular Over)

namespace PyVal

mutual
/-- What `dataclasses.asdict` makes of a record and of the values in it: instances in lists, tuples and dictionaries
are made dictionaries, too. -/
def asdictInner : PyVal → PyVal
  | .seq k xs => .seq k (asdictItems xs)
  | .mapping _ es => .dict (asdictEntries es)
  | v => v

def asdictItems : List PyVal → List PyVal
  | [] => []
  | x :: xs => asdictInner x :: asdictItems xs

def asdictEntries : List (PyKey × PyVal) → List (PyKey × PyVal)
  | [] => []
  | (k,v) :: es => (k,asdictInner v) :: asdictEntries es
end

mutual
/-- Every dictionary and every instance of the value is as the predicate asks of its kind and its keys. -/
def Within (E : MapKind → List PyKey → Prop) : PyVal → Prop
  | .seq _ xs => WithinItems E xs
  | .mapping k es => E k (keys es) ∧ WithinEntries E es
  | _ => True

def WithinItems (E : MapKind → List PyKey → Prop) : List PyVal → Prop
  | [] => True
  | x :: xs => Within E x ∧ WithinItems E xs

def WithinEntries (E : MapKind → List PyKey → Prop) : List (PyKey × PyVal) → Prop
  | [] => True
  | (_,v) :: es => Within E v ∧ WithinEntries E es
end

def NoInstance (v : PyVal) : Prop := v.Within fun k _ => k = .dict

def TextKeys (v : PyVal) : Prop := v.Within fun _ ks => ∀ key ∈ ks, ∃ s, key = .str s

def DistinctTextKeys (v : PyVal) : Prop := v.Within fun _ ks => ks.Nodup ∧ ∀ key ∈ ks, ∃ s, key = .str s

variable {E E' : MapKind → List PyKey → Prop} {v : PyVal}

theorem asdictInner_seq (k : SeqKind) (xs : List PyVal) : (seq k xs).asdictInner = .seq k (xs.map asdictInner) := by
  have h : asdictItems xs = xs.map asdictInner := by
    induction xs with
    | nil => rfl
    | cons x xs ih => rw [asdictItems,ih,List.map_cons]
  rw [asdictInner,h]

theorem asdictInner_mapping (k : MapKind) (es : List (PyKey × PyVal)) :
    (mapping k es).asdictInner = .dict (es.map fun e => (e.1,e.2.asdictInner)) := by
  have h : asdictEntries es = es.map fun e => (e.1,e.2.asdictInner) := by
    induction es with
    | nil => rfl
    | cons e es ih => rw [asdictEntries,ih,List.map_cons]
  rw [asdictInner,h]

theorem within_seq {k : SeqKind} {xs : List PyVal} : (seq k xs).Within E ↔ ∀ x ∈ xs, x.Within E := by
  have h : WithinItems E xs ↔ ∀ x ∈ xs, x.Within E := by
    induction xs with
    | nil => simp [WithinItems]
    | cons x xs ih => rw [WithinItems,ih,List.forall_mem_cons]
  rw [Within,h]

theorem within_mapping {k : MapKind} {es : List (PyKey × PyVal)} :
    (mapping k es).Within E ↔ E k (keys es) ∧ ∀ e ∈ es, e.2.Within E := by
  have h : WithinEntries E es ↔ ∀ e ∈ es, e.2.Within E := by
    induction es with
    | nil => simp [WithinEntries]
    | cons e es ih => rw [WithinEntries,ih,List.forall_mem_cons]
  rw [Within,h]

theorem Within.imp (h : v.Within E) (hE : ∀ k ks, E k ks → E' k ks) : v.Within E' := by
  induction v using recOn_members with
  | seq k xs ih => exact within_seq.mpr fun x hx => ih x hx (within_seq.mp h x hx)
  | mapping k es ih =>
    obtain ⟨hk,hes⟩ := within_mapping.mp h
    exact within_mapping.mpr ⟨hE _ _ hk,fun e he => ih e he (hes e he)⟩
  | _ => trivial

@[simp] theorem noInstance_text (k : TextKind) (s : PyStr) : (text k s).NoInstance := trivial

theorem DistinctTextKeys.textKeys (h : v.DistinctTextKeys) : v.TextKeys := Within.imp h fun _ _ hk => hk.2

/-- Without instances `asdict` changes nothing. -/
theorem NoInstance.asdictInner_eq (h : v.NoInstance) : v.asdictInner = v := by
  induction v using recOn_members with
  | seq k xs ih =>
    have hxs : xs.map asdictInner = xs.map id := List.map_congr_left fun x hx => ih x hx (within_seq.mp h x hx)
    rw [asdictInner_seq,hxs,List.map_id]
  | mapping k es ih =>
    obtain ⟨rfl,hes⟩ := within_mapping.mp h
    have hentries : es.map (fun e => (e.1,e.2.asdictInner)) = es.map id :=
      List.map_congr_left fun e he => congrArg (e.1,·) (ih e he (hes e he))
    rw [asdictInner_mapping,hentries,List.map_id]
  | _ => rfl

end PyVal

namespace Platform

/-- What `json.dumps` makes of a key -/
def writtenKey (pf : Platform) : PyKey → Option (List Char)
  | .str s => s.scalars
  | .none => some "null".toList
  | .bool true => some "true".toList
  | .bool false => some "false".toList
  | .int n => if pf.Prints n then some (Json.printInt n) else none
  | .other => none

mutual
/-- What `json.dumps` writes of a value. There is nothing in a file when it raises, as for an instance of a dataclass,
or when a surrogate cannot be encoded; the texts of floats are not modelled. -/
def written (pf : Platform) : PyVal → Option (JsonTree Int)
  | .none => some .null
  | .bool b => some (.bool b)
  | .int n => if pf.Prints n then some (.num n) else none
  | .text _ s => s.scalars.map .str
  | .seq _ xs => (pf.writtenItems xs).map .arr
  | .dict es => (pf.writtenEntries es).map .obj
  | _ => none

def writtenItems (pf : Platform) : List PyVal → Option (List (JsonTree Int))
  | [] => some []
  | x :: xs => do return (← pf.written x) :: (← pf.writtenItems xs)

def writtenEntries (pf : Platform) : List (PyKey × PyVal) → Option (List (List Char × JsonTree Int))
  | [] => some []
  | (k,v) :: es => do return (← pf.writtenKey k,← pf.written v) :: (← pf.writtenEntries es)
end

/-- `json.dumps(value, ensure_ascii=False, indent=2) + "\n"` -/
def dumps (pf : Platform) (value : PyVal) : Option (List Char) :=
  (pf.written value).map fun t => t.indented Json.printInt 0 ++ ['\n']

/-- `json.loads(json.dumps(value, ...))` -/
def reloaded (pf : Platform) (value : PyVal) : Option PyVal := do pf.loads (← pf.dumps value)

variable {pf : Platform} {v : PyVal} {t : JsonTree Int}

theorem written_seq {k : SeqKind} {xs : List PyVal} : pf.written (.seq k xs) = some t ↔
    ∃ ts, List.Forall₂ (fun x t => pf.written x = some t) xs ts ∧ t = .arr ts := by
  have h : pf.writtenItems xs = xs.mapM pf.written := by
    induction xs with
    | nil => rfl
    | cons x xs ih => rw [writtenItems,ih,List.mapM_cons]
  simp only [written,h,Option.map_eq_some_iff,CheckChains.mapM_eq_some]
  exact exists_congr fun _ => and_congr_right fun _ => eq_comm

theorem written_dict {es : List (PyKey × PyVal)} : pf.written (.dict es) = some t ↔
    ∃ ts, List.Forall₂ (fun e t => pf.writtenKey e.1 = some t.1 ∧ pf.written e.2 = some t.2) es ts ∧ t = .obj ts := by
  have h (ts : List (List Char × JsonTree Int)) : pf.writtenEntries es = some ts ↔
      List.Forall₂ (fun e t => pf.writtenKey e.1 = some t.1 ∧ pf.written e.2 = some t.2) es ts := by
    induction es generalizing ts with
    | nil => simp [writtenEntries,eq_comm]
    | cons e es ih =>
      obtain ⟨key,v⟩ := e
      simp only [writtenEntries,Option.bind_eq_bind,Option.bind_eq_some_iff,Option.pure_def,Option.some.injEq,ih,
        List.forall₂_cons_left_iff]
      constructor
      · rintro ⟨cs,hk,t,ht,ts,hts,rfl⟩
        exact ⟨_,_,⟨hk,ht⟩,hts,rfl⟩
      · rintro ⟨⟨cs,t⟩,ts,⟨hk,ht⟩,hts,rfl⟩
        exact ⟨cs,hk,t,ht,ts,hts,rfl⟩
  simp only [written,Option.map_eq_some_iff,h]
  exact exists_congr fun _ => and_congr_right fun _ => eq_comm

/-- Induction over what is written of a value -/
theorem written_rec {P : PyVal → JsonTree Int → Prop} (none : P .none .null) (bool : ∀ b, P (.bool b) (.bool b))
    (int : ∀ n, pf.Prints n → P (.int n) (.num n)) (text : ∀ k s cs, PyStr.scalars s = some cs → P (.text k s) (.str cs))
    (seq : ∀ k xs ts, List.Forall₂ P xs ts → P (.seq k xs) (.arr ts))
    (dict : ∀ es ts, List.Forall₂ (fun e t => pf.writtenKey e.1 = some t.1 ∧ P e.2 t.2) es ts → P (.dict es) (.obj ts))
    (h : pf.written v = some t) : P v t := by
  induction v using PyVal.recOn_members generalizing t with
  | none =>
    cases h
    exact none
  | bool b =>
    cases h
    exact bool b
  | int n =>
    obtain ⟨hn,ht⟩ := Option.ite_none_right_eq_some.mp h
    cases ht
    exact int n hn
  | text k s =>
    obtain ⟨cs,hs,rfl⟩ := Option.map_eq_some_iff.mp h
    exact text k s cs hs
  | seq k xs ih =>
    obtain ⟨ts,hts,rfl⟩ := written_seq.mp h
    exact seq k xs ts (forall₂_imp_of_mem (fun x hx _ hw => ih x hx hw) hts)
  | mapping k es ih =>
    cases k with
    | dataclass => cases h
    | dict =>
      obtain ⟨ts,hts,rfl⟩ := written_dict.mp h
      exact dict es ts (forall₂_imp_of_mem (fun e he _ hw => ⟨hw.1,ih e he hw.2⟩) hts)
  | bytes | float | other => cases h

/-- `json.dumps` writes no instance. -/
theorem noInstance_of_written (h : pf.written v = some t) : v.NoInstance := by
  refine written_rec (P := fun v _ => v.NoInstance) trivial (fun _ => trivial) (fun _ _ => trivial)
    (fun _ _ _ _ => trivial) (fun k xs ts h => PyVal.within_seq.mpr fun x hx => ?_)
    (fun es ts h => PyVal.within_mapping.mpr ⟨rfl,fun e he => ?_⟩) h
  · obtain ⟨_,_,hx⟩ := forall₂_of_mem_right h.flip hx
    exact hx
  · obtain ⟨_,_,_,he⟩ := forall₂_of_mem_right h.flip he
    exact he

/-- Every integer in a file has been printed. -/
theorem over_written (h : pf.written v = some t) : t.Over pf.Prints := by
  refine written_rec (P := fun _ t => t.Over pf.Prints) .null .bool (fun _ => .num) (fun _ _ cs _ => .str cs)
    (fun k xs ts h => .arr fun t ht => ?_) (fun es ts h => .obj fun t ht => ?_) h
  · obtain ⟨_,_,hover⟩ := forall₂_of_mem_right h ht
    exact hover
  · obtain ⟨_,_,_,hover⟩ := forall₂_of_mem_right h ht
    exact hover

/-- Strings as keys are in the file as they are. -/
theorem keys_written {α β : Type} {es : List (PyKey × α)} {ts : List (List Char × β)}
    (h : List.Forall₂ (fun e t => pf.writtenKey e.1 = some t.1) es ts)
    (htext : ∀ key ∈ keys es, ∃ s, key = .str s) : (keys ts).map (fun cs => PyKey.str (PyStr.ofChars cs)) = keys es := by
  rw [keys,List.map_map]
  refine map_eq_iff_forall₂.mpr (forall₂_imp_of_mem (fun e he t het => ?_) h).flip
  obtain ⟨s,hs⟩ := htext e.1 (List.mem_map_of_mem he)
  rw [hs] at het
  exact (congrArg PyKey.str (PyStr.eq_ofChars_of_scalars het).symm).trans hs.symm

/-- Distinct strings as keys are distinct in the file. -/
theorem regular_written (h : pf.written v = some t) (hk : v.DistinctTextKeys) : t.Regular id pf.Prints := by
  refine written_rec (P := fun v t => v.DistinctTextKeys → t.Regular id pf.Prints) (fun _ => .null) (fun b _ => .bool b)
    (fun _ hn _ => .num hn) (fun _ _ cs _ _ => .str cs) (fun k xs ts h hk => .arr fun t ht => ?_)
    (fun es ts h hk => ?_) h hk
  · obtain ⟨x,hx,hregular⟩ := forall₂_of_mem_right h ht
    exact hregular (PyVal.within_seq.mp hk x hx)
  · obtain ⟨⟨hn,htext⟩,hes⟩ := PyVal.within_mapping.mp hk
    refine .obj (List.Nodup.of_map (fun cs => PyKey.str (PyStr.ofChars cs)) ?_) fun t ht => ?_
    · exact (keys_written (h.imp fun _ _ => And.left) htext).symm ▸ hn
    · obtain ⟨e,he,_,hregular⟩ := forall₂_of_mem_right h ht
      exact hregular (hes e he)

end Platform
end ExecutionFinality
