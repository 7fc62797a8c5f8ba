import ExecutionFinality.Interop.GoCanonical
import ExecutionFinality.Interop.NodeCanonical
import ExecutionFinality.Reference.Canonical

/-! One typed value as it is held by the three languages, and the agreement of their
canonical encodings of it. -/
namespace ExecutionFinality
open Utf8 (Bytes)
open KeyedEntries

mutual
/-- A Go value holds the same typed value: integers as plain decimal tokens, strings in
UTF-8, the entries of a map in any order of iteration. -/
def GoValue : PyVal → GoAny → Prop
  | .none, .nil => True
  | .bool a, .bool b => a = b
  | .int n, .number t => t = Utf8.encode (Json.printInt n)
  | .text _ s, .string b => ∃ cs, s.scalars = some cs ∧ b = Utf8.encode cs
  | .seq _ xs, .slice ys => GoItems xs ys
  | .mapping _ es, .map fs => (keys fs).Nodup ∧ ∃ gs, gs.Perm fs ∧ GoEntries es gs
  | _, _ => False

def GoItems : List PyVal → List GoAny → Prop
  | [], [] => True
  | x :: xs, y :: ys => GoValue x y ∧ GoItems xs ys
  | _, _ => False

def GoEntries : List (PyKey × PyVal) → List (GoStr × GoAny) → Prop
  | [], [] => True
  | (.str s,v) :: es, (b,w) :: fs => (∃ cs, s.scalars = some cs ∧ b = Utf8.encode cs) ∧ GoValue v w ∧ GoEntries es fs
  | _, _ => False
end

mutual
/-- A JavaScript value holds the same typed value: integers as the numbers that equal
them, strings in UTF-16, the properties of an object in any order. -/
def NodeValue : PyVal → JsVal → Prop
  | .none, .null => True
  | .bool a, .bool b => a = b
  | .int n, .number x => x = .finite n
  | .text _ s, .string u => s = Utf16.codePoints u
  | .seq _ xs, .array ys => NodeItems xs ys
  | .mapping _ es, .object fs => (keys fs).Nodup ∧ ∃ gs, gs.Perm fs ∧ NodeEntries es gs
  | _, _ => False

def NodeItems : List PyVal → List JsVal → Prop
  | [], [] => True
  | x :: xs, y :: ys => NodeValue x y ∧ NodeItems xs ys
  | _, _ => False

def NodeEntries : List (PyKey × PyVal) → List (JsStr × JsVal) → Prop
  | [], [] => True
  | (.str s,v) :: es, (u,w) :: fs => s = Utf16.codePoints u ∧ NodeValue v w ∧ NodeEntries es fs
  | _, _ => False
end

def GoKey (key : PyKey) (b : GoStr) : Prop := ∃ s cs, key = .str s ∧ s.scalars = some cs ∧ b = Utf8.encode cs

def NodeKey (key : PyKey) (u : JsStr) : Prop := key = .str (Utf16.codePoints u)

def PyVal.KeyText (nfc : Nfc) (key : PyKey) (k : List Char) : Prop :=
  ∃ s cs, key = .str s ∧ s.scalars = some cs ∧ nfc.run cs = k

private theorem unit_scalar {u : UInt16} {s : PyStr} {cs : List Char}
    (h : PyStr.scalars (Utf16.unit u :: s) = some cs) :
    Utf16.encodeChar (Char.ofNat u.toNat) = [u] ∧ ∃ r, PyStr.scalars s = some r ∧ Char.ofNat u.toNat :: r = cs := by
  rw [PyStr.scalars] at h
  split at h
  · cases h
  · rename_i hs
    obtain ⟨r,hr,he⟩ := Option.map_eq_some_iff.mp h
    refine ⟨Utf16.encodeChar_unit ?_ ?_,r,hr,he⟩
    all_goals
      simp only [PyStr.IsSurrogate,Utf16.unit] at hs
      simp only [Utf16.IsHigh,Utf16.IsLow]
      omega

private theorem pair_scalar {u v : UInt16} {s : PyStr} {cs : List Char}
    (h : PyStr.scalars (Utf16.pair u v :: s) = some cs) :
    ∃ r, PyStr.scalars s = some r ∧ Char.ofNat (Utf16.pair u v).val :: r = cs := by
  rw [PyStr.scalars] at h
  split at h
  · cases h
  · exact Option.map_eq_some_iff.mp h

/-- The text of UTF-16 code units without unpaired surrogates -/
theorem scalars_codePoints {u : JsStr} {cs : List Char} :
    PyStr.scalars (Utf16.codePoints u) = some cs ↔ u = Utf16.encode cs := by
  constructor
  · intro h
    induction u using Utf16.codePoints.induct generalizing cs with
    | case1 => cases h; rfl
    | case2 u =>
      obtain ⟨hu,r,hr,rfl⟩ := unit_scalar h
      cases hr
      rw [Utf16.encode_cons,hu]
      rfl
    | case3 u v s hp ih =>
      rw [Utf16.codePoints,if_pos hp] at h
      obtain ⟨r,hr,rfl⟩ := pair_scalar h
      rw [Utf16.encode_cons,Utf16.pair_val hp.1 hp.2,Utf16.encodeChar_pair hp.1 hp.2,← ih hr]
      rfl
    | case4 u v s hp ih =>
      rw [Utf16.codePoints,if_neg hp] at h
      obtain ⟨hu,r,hr,rfl⟩ := unit_scalar h
      rw [Utf16.encode_cons,hu,← ih hr]
      rfl
  · rintro rfl
    have h : Utf16.codePoints (Utf16.encode cs) = PyStr.ofChars cs := by
      apply List.map_injective_iff.mpr Fin.val_injective
      rw [Utf16.codePoints_encode,PyStr.ofChars,List.map_map]
      rfl
    rw [h,PyStr.scalars_ofChars]

theorem goKey_text (nfc : Nfc) {key : PyKey} {b : GoStr} (h : GoKey key b) (t : List Char) :
    Go.KeyText nfc b t ↔ PyVal.KeyText nfc key t := by
  obtain ⟨s,cs,rfl,hs,rfl⟩ := h
  constructor
  · rintro ⟨ds,he,ht⟩
    cases Utf8.encode_injective he
    exact ⟨s,cs,rfl,hs,ht⟩
  · rintro ⟨_,ds,⟨⟩,hds,ht⟩
    cases hs.symm.trans hds
    exact ⟨cs,rfl,ht⟩

theorem nodeKey_text (nfc : Nfc) {key : PyKey} {u : JsStr} (h : NodeKey key u) (t : List Char) :
    Node.KeyText nfc u t ↔ PyVal.KeyText nfc key t := by
  cases h
  constructor
  · rintro ⟨cs,rfl,ht⟩
    exact ⟨_,cs,rfl,scalars_codePoints.mpr rfl,ht⟩
  · rintro ⟨_,cs,⟨⟩,hs,ht⟩
    exact ⟨cs,scalars_codePoints.mp hs,ht⟩

theorem goItems_iff {xs : List PyVal} {ys : List GoAny} : GoItems xs ys ↔ List.Forall₂ GoValue xs ys := by
  induction xs generalizing ys with
  | nil => cases ys <;> simp [GoItems]
  | cons x xs ih => cases ys <;> simp [GoItems,ih]

theorem goEntries_iff {es : List (PyKey × PyVal)} {fs : List (GoStr × GoAny)} :
    GoEntries es fs ↔ List.Forall₂ (fun e f => GoKey e.1 f.1 ∧ GoValue e.2 f.2) es fs := by
  induction es generalizing fs with
  | nil => cases fs <;> simp [GoEntries]
  | cons e es ih =>
    obtain ⟨key,v⟩ := e
    cases key <;> cases fs <;> simp [GoEntries,GoKey,ih,and_assoc]

theorem nodeItems_iff {xs : List PyVal} {ys : List JsVal} : NodeItems xs ys ↔ List.Forall₂ NodeValue xs ys := by
  induction xs generalizing ys with
  | nil => cases ys <;> simp [NodeItems]
  | cons x xs ih => cases ys <;> simp [NodeItems,ih]

theorem nodeEntries_iff {es : List (PyKey × PyVal)} {fs : List (JsStr × JsVal)} :
    NodeEntries es fs ↔ List.Forall₂ (fun e f => NodeKey e.1 f.1 ∧ NodeValue e.2 f.2) es fs := by
  induction es generalizing fs with
  | nil => cases fs <;> simp [NodeEntries]
  | cons e es ih =>
    obtain ⟨key,v⟩ := e
    cases key <;> cases fs <;> simp [NodeEntries,NodeKey,ih,and_assoc]

namespace PyVal
variable {nfc : Nfc}

/-- The canonical text of a value, whatever code it is then written in. -/
def Renders (nfc : Nfc) (v : PyVal) (s : List Char) : Prop := ∃ j, v.normalize nfc true = .ok j ∧ s = j.print

theorem renders_none {s : List Char} : Renders nfc .none s ↔ s = "null".toList :=
  ⟨fun ⟨_,h,hs⟩ => by cases h; exact hs,fun h => ⟨_,rfl,h⟩⟩

theorem renders_bool {b : Bool} {s : List Char} : Renders nfc (.bool b) s ↔ s = (Json.bool b).print :=
  ⟨fun ⟨_,h,hs⟩ => by cases h; exact hs,fun h => ⟨_,rfl,h⟩⟩

theorem renders_int {n : Int} {s : List Char} : Renders nfc (.int n) s ↔
    (-maxSafeInteger ≤ n ∧ n ≤ maxSafeInteger) ∧ s = Json.printInt n := by
  constructor
  · rintro ⟨j,hj,rfl⟩
    cases normal_iff.mpr hj with
    | int h => exact ⟨h rfl,rfl⟩
  · rintro ⟨h,rfl⟩
    exact ⟨_,normal_iff.mp (.int fun _ => h),rfl⟩

theorem renders_text {k : TextKind} {s : PyStr} {t : List Char} : Renders nfc (.text k s) t ↔
    ∃ cs, s.scalars = some cs ∧ t = Json.quote (nfc.run cs) := by
  constructor
  · rintro ⟨j,hj,rfl⟩
    cases normal_iff.mpr hj with
    | text h => exact ⟨_,h,rfl⟩
  · rintro ⟨cs,h,rfl⟩
    exact ⟨_,normal_iff.mp (.text h),rfl⟩

theorem renders_seq {k : SeqKind} {xs : List PyVal} {s : List Char} : Renders nfc (.seq k xs) s ↔
    ∃ ss, List.Forall₂ (Renders nfc) xs ss ∧ s = '[' :: [','].intercalate ss ++ [']'] := by
  constructor
  · rintro ⟨j,hj,rfl⟩
    cases normal_iff.mpr hj with
    | @seq _ _ js hf =>
      refine ⟨js.map Json.print,List.forall₂_map_right_iff.mpr (hf.imp fun x j h => ⟨j,h,rfl⟩),Json.print_arr js⟩
  · rintro ⟨ss,hf,rfl⟩
    obtain ⟨js,hjs,rfl⟩ := forall₂_map_image.mp hf
    exact ⟨_,normal_iff.mp (.seq hjs),(Json.print_arr js).symm⟩

theorem renders_mapping {k : MapKind} {es : List (PyKey × PyVal)} {s : List Char} :
    Renders nfc (.mapping k es) s ↔ ∃ ms : List (List Char × List Char),
      List.Forall₂ (fun e m => KeyText nfc e.1 m.1 ∧ Renders nfc e.2 m.2) es ms ∧ (keys ms).Nodup ∧
      s = '{' :: [','].intercalate ((sortOn id ms).map fun m => Json.printMember m.1 m.2) ++ ['}'] := by
  have sorted (kvs : List (List Char × Json)) : (sortOn id kvs).map (fun e => Json.printMember e.1 e.2.print) =
      (sortOn id (kvs.map fun e => (e.1,e.2.print))).map fun m => Json.printMember m.1 m.2 := by
    rw [← sortOn_map id id (fun e : List Char × Json => (e.1,e.2.print)) kvs fun _ _ _ _ => Iff.rfl,
      List.map_map]
    rfl
  constructor
  · rintro ⟨j,hj,rfl⟩
    cases normal_iff.mpr hj with
    | @mapping _ _ kvs _ hf hn hj =>
      subst hj
      refine ⟨kvs.map fun e => (e.1,e.2.print),?_,?_,?_⟩
      · exact List.forall₂_map_right_iff.mpr (hf.imp fun e kv h => ⟨h.1,kv.2,h.2,rfl⟩)
      · rw [keys,List.map_map]
        exact hn
      · rw [Json.print_obj,sorted]
  · rintro ⟨ms,hf,hn,rfl⟩
    obtain ⟨kvs,hkvs,rfl⟩ := forall₂_map_image.mp (hf.imp fun e m h => by
      obtain ⟨hk,j,hj,hm⟩ := h
      exact (⟨(m.1,j),⟨hk,hj⟩,Prod.ext rfl hm⟩ : ∃ kv : List Char × Json,
        NormalEntry nfc true e kv ∧ m = (kv.1,kv.2.print)))
    rw [keys,List.map_map] at hn
    exact ⟨_,normal_iff.mp (.mapping hkvs hn rfl),by rw [Json.print_obj,sorted]⟩

end PyVal

/-! Agreement for a code of texts into lists, at one list or mapping. -/
section
variable {β K V : Type} {nfc : Nfc} {code : List Char → List β} {canon : V → List β → Prop}

/-- A canonical encoding of `w` that is the code of the text of `v`, or fails with it -/
def Agrees (nfc : Nfc) (code : List Char → List β) (canon : V → List β → Prop) (v : PyVal) (w : V) : Prop :=
  ∀ b, canon w b ↔ ∃ s, v.Renders nfc s ∧ b = code s

theorem agrees_seq (hcode : ∀ s t, code (s ++ t) = code s ++ code t) {k : SeqKind} {xs : List PyVal} {ys : List V}
    (h : List.Forall₂ (Agrees nfc code canon) xs ys) (b : List β) :
    (∃ bs, List.Forall₂ canon ys bs ∧ b = code ['['] ++ (code [',']).intercalate bs ++ code [']']) ↔
      ∃ s, PyVal.Renders nfc (.seq k xs) s ∧ b = code s := by
  have printed := code_listing hcode '[' ']'
  simp only [forall₂_iff_map_image h]
  constructor
  · rintro ⟨_,⟨ss,hss,rfl⟩,rfl⟩
    exact ⟨_,PyVal.renders_seq.mpr ⟨ss,hss,rfl⟩,(printed ss).symm⟩
  · rintro ⟨s,hs,rfl⟩
    obtain ⟨ss,hss,rfl⟩ := PyVal.renders_seq.mp hs
    exact ⟨_,⟨ss,hss,rfl⟩,printed ss⟩

theorem agrees_mapping (hcode : ∀ s t, code (s ++ t) = code s ++ code t) {text : K → List Char → Prop}
    {k : MapKind} {es : List (PyKey × PyVal)} {gs fs : List (K × V)}
    (h : List.Forall₂ (fun e g => (∀ t, text g.1 t ↔ PyVal.KeyText nfc e.1 t) ∧ Agrees nfc code canon e.2 g.2) es gs)
    (hperm : gs.Perm fs) (b : List β) :
    (∃ ms : List (List Char × List β), List.Forall₂ (fun f m => text f.1 m.1 ∧ canon f.2 m.2) fs ms ∧
      (keys ms).Nodup ∧ b = code ['{'] ++ (code [',']).intercalate ((sortOn id ms).map fun m =>
        code (Json.quote m.1) ++ code [':'] ++ m.2) ++ code ['}']) ↔
      ∃ s, PyVal.Renders nfc (.mapping k es) s ∧ b = code s := by
  have printed (ms : List (List Char × List Char)) :
      code ('{' :: [','].intercalate ((sortOn id ms).map fun m => Json.printMember m.1 m.2) ++ ['}']) =
        code ['{'] ++ (code [',']).intercalate ((sortOn id (ms.map fun m => (m.1,code m.2))).map fun m =>
          code (Json.quote m.1) ++ code [':'] ++ m.2) ++ code ['}'] := by
    rw [code_listing hcode,List.map_map,
      ← sortOn_map id id (fun m : List Char × List Char => (m.1,code m.2)) ms fun _ _ _ _ => Iff.rfl,
      List.map_map]
    refine congrArg (fun ls => code ['{'] ++ (code [',']).intercalate ls ++ code ['}']) (List.map_congr_left ?_)
    exact fun m _ => code_printMember hcode m.1 m.2
  have sorted {ms ns : List (List Char × List β)} (hn : (keys ms).Nodup) (hp : ms.Perm ns) : sortOn id ms = sortOn id ns :=
    sortOn_eq_of_perm (fun _ _ _ _ he => he) hn hp
  have members (ms : List (List Char × List β)) : List.Forall₂ (fun g m => text g.1 m.1 ∧ canon g.2 m.2) gs ms ↔
      ∃ ts : List (List Char × List Char), List.Forall₂ (fun e t => PyVal.KeyText nfc e.1 t.1 ∧ PyVal.Renders nfc e.2 t.2)
        es ts ∧ ms = ts.map fun t => (t.1,code t.2) := by
    refine forall₂_iff_map_image (h.imp fun e g hg m => ?_)
    rw [hg.1,hg.2]
    constructor
    · rintro ⟨hk,s,hs,hm⟩
      exact ⟨(m.1,s),⟨hk,hs⟩,Prod.ext rfl hm⟩
    · rintro ⟨t,⟨hk,hs⟩,rfl⟩
      exact ⟨hk,_,hs,rfl⟩
  have distinct (ts : List (List Char × List Char)) : (keys (ts.map fun t => (t.1,code t.2))).Nodup ↔ (keys ts).Nodup := by
    rw [keys,List.map_map]
    rfl
  constructor
  · rintro ⟨ms,hms,hn,rfl⟩
    obtain ⟨ns,hns,hp⟩ := List.perm_comp_forall₂ hperm hms
    obtain ⟨ts,hts,rfl⟩ := (members ns).mp hns
    have hn' : (keys ts).Nodup := (distinct ts).mp ((hp.map Prod.fst).nodup_iff.mpr hn)
    exact ⟨_,PyVal.renders_mapping.mpr ⟨ts,hts,hn',rfl⟩,by rw [printed,sorted hn hp.symm]⟩
  · rintro ⟨s,hs,rfl⟩
    obtain ⟨ts,hts,hn,rfl⟩ := PyVal.renders_mapping.mp hs
    obtain ⟨ms,hms,hp⟩ := List.perm_comp_forall₂ hperm.symm ((members _).mpr ⟨ts,hts,rfl⟩)
    have hn' : (keys ms).Nodup := (hp.map Prod.fst).nodup_iff.mpr ((distinct ts).mpr hn)
    exact ⟨ms,hms,hn',by rw [printed,sorted hn' hp]⟩

end
variable {nfc : Nfc}

/-- The Go encoding is the canonical text in UTF-8. -/
theorem goCanonical_agrees (p : PyVal) : ∀ g, GoValue p g →
    Agrees nfc Utf8.encode (fun g b => Go.canonical nfc g = .ok b) p g := by
  induction p using PyVal.recOn_members with
  | none =>
    intro g h b
    cases g with
    | nil =>
      simp only [PyVal.renders_none,exists_eq_left]
      exact ⟨fun h => (Except.ok.inj h).symm,fun h => h ▸ rfl⟩
    | _ => exact h.elim
  | bool a =>
    intro g h b
    cases g with
    | bool b' =>
      cases h
      simp only [PyVal.renders_bool,exists_eq_left]
      cases a <;> exact ⟨fun h => (Except.ok.inj h).symm,fun h => h ▸ rfl⟩
    | _ => exact h.elim
  | int n =>
    intro g h b
    cases g with
    | number t =>
      cases h
      simp only [PyVal.renders_int,Go.canonical,Go.appendCanonical,CheckChains.bind_eq_ok,CheckChains.pure_eq_ok,
        Go.validateInteger_printInt,exists_const]
      constructor
      · rintro ⟨hs,rfl⟩
        exact ⟨_,⟨hs,rfl⟩,rfl⟩
      · rintro ⟨_,⟨hs,rfl⟩,rfl⟩
        exact ⟨hs,rfl⟩
    | _ => exact h.elim
  | text k s =>
    intro g h b
    cases g with
    | string t =>
      obtain ⟨cs,hs,rfl⟩ := h
      simp only [PyVal.renders_text,Go.canonical,Go.appendCanonical,Go.appendJSONString_eq_ok]
      constructor
      · rintro ⟨ds,he,rfl⟩
        cases Utf8.encode_injective he
        exact ⟨_,⟨cs,hs,rfl⟩,rfl⟩
      · rintro ⟨_,⟨ds,hds,rfl⟩,rfl⟩
        cases hs.symm.trans hds
        exact ⟨cs,rfl,rfl⟩
    | _ => exact h.elim
  | seq k xs ih =>
    intro g h b
    cases g with
    | slice ys =>
      rw [← agrees_seq Utf8.encode_append (k := k) (forall₂_imp_of_mem ih (goItems_iff.mp h)) b]
      simp only [Go.canonical,Go.appendCanonical,CheckChains.bind_eq_ok,CheckChains.pure_eq_ok,Go.appendElements_eq,
        CheckChains.mapM_eq_ok]
      exact exists_congr fun _ => and_congr_right fun _ => eq_comm
    | _ => exact h.elim
  | mapping k es ih =>
    intro g h b
    cases g with
    | map fs =>
      obtain ⟨_,gs,hperm,hes⟩ := h
      have hes' := forall₂_imp_of_mem (fun e he g (hg : GoKey e.1 g.1 ∧ GoValue e.2 g.2) =>
        And.intro (goKey_text nfc hg.1) (ih e he g.2 hg.2)) (goEntries_iff.mp hes)
      exact Go.appendCanonical_map.trans (agrees_mapping Utf8.encode_append (k := k) hes' hperm b)
    | _ => exact h.elim
  | bytes | float | other =>
    intro g h
    cases g <;> exact h.elim

variable {pf : Node.Platform}

/-- The Node encoding is the canonical text in UTF-16. -/
theorem nodeCanonical_agrees (p : PyVal) : ∀ v, NodeValue p v →
    Agrees pf.nfc Utf16.encode (fun v s => Node.canonical pf v = .ok s) p v := by
  induction p using PyVal.recOn_members with
  | none =>
    intro v h b
    cases v with
    | null =>
      simp only [PyVal.renders_none,exists_eq_left]
      exact ⟨fun h => (Except.ok.inj h).symm,fun h => h ▸ rfl⟩
    | _ => exact h.elim
  | bool a =>
    intro v h b
    cases v with
    | bool b' =>
      cases h
      simp only [PyVal.renders_bool,exists_eq_left]
      cases a <;> exact ⟨fun h => (Except.ok.inj h).symm,fun h => h ▸ rfl⟩
    | _ => exact h.elim
  | int n =>
    intro v h b
    cases v with
    | number x =>
      cases h
      simp only [Node.canonical_number,PyVal.renders_int,abs_le]
      constructor
      · rintro ⟨hs,rfl⟩
        exact ⟨_,⟨hs,rfl⟩,rfl⟩
      · rintro ⟨_,⟨hs,rfl⟩,rfl⟩
        exact ⟨hs,rfl⟩
    | _ => exact h.elim
  | text k s =>
    intro v h b
    cases v with
    | string u =>
      cases h
      simp only [PyVal.renders_text,Node.canonical_string,scalars_codePoints]
      constructor
      · rintro ⟨cs,rfl,rfl⟩
        exact ⟨_,⟨cs,rfl,rfl⟩,rfl⟩
      · rintro ⟨_,⟨cs,rfl,rfl⟩,rfl⟩
        exact ⟨cs,rfl,rfl⟩
    | _ => exact h.elim
  | seq k xs ih =>
    intro v h b
    cases v with
    | array ys =>
      exact Node.canonical_array.trans
        (agrees_seq Utf16.encode_append (k := k) (forall₂_imp_of_mem ih (nodeItems_iff.mp h)) b)
    | _ => exact h.elim
  | mapping k es ih =>
    intro v h b
    cases v with
    | object fs =>
      obtain ⟨_,gs,hperm,hes⟩ := h
      have hes' := forall₂_imp_of_mem (fun e he g (hg : NodeKey e.1 g.1 ∧ NodeValue e.2 g.2) =>
        And.intro (nodeKey_text pf.nfc hg.1) (ih e he g.2 hg.2)) (nodeEntries_iff.mp hes)
      exact Node.canonical_object.trans (agrees_mapping Utf16.encode_append (k := k) hes' hperm b)
    | _ => exact h.elim
  | bytes | float | other =>
    intro v h
    cases v <;> exact h.elim

theorem portableCanonicalBytes_iff {p : PyVal} {b : Bytes} :
    pf.portableCanonicalBytes p = .ok b ↔ ∃ s, p.Renders pf.nfc s ∧ b = Utf8.encode s := by
  rw [Platform.portableCanonicalBytes_eq_ok]
  constructor
  · rintro ⟨j,hj,_,rfl⟩
    exact ⟨_,⟨j,hj,rfl⟩,rfl⟩
  · rintro ⟨_,⟨j,hj,rfl⟩,rfl⟩
    exact ⟨j,hj,fun n hn => Platform.prints_of_safe ((PyVal.normalize_portable p j hj).2 n hn),rfl⟩

theorem goCanonical_iff {p : PyVal} {g : GoAny} (h : GoValue p g) {b : Bytes} :
    Go.canonical pf.nfc g = .ok b ↔ pf.portableCanonicalBytes p = .ok b := by
  rw [portableCanonicalBytes_iff]
  exact goCanonical_agrees p g h b

theorem nodeCanonicalBytes_iff {p : PyVal} {v : JsVal} (h : NodeValue p v) {b : Bytes} :
    Node.canonicalBytes pf v = .ok b ↔ pf.portableCanonicalBytes p = .ok b := by
  rw [portableCanonicalBytes_iff,Node.canonicalBytes_eq_ok]
  constructor
  · rintro ⟨u,hu,rfl⟩
    obtain ⟨s,hs,rfl⟩ := (nodeCanonical_agrees p v h u).mp hu
    exact ⟨s,hs,Node.utf8_encode s⟩
  · rintro ⟨s,hs,rfl⟩
    exact ⟨_,(nodeCanonical_agrees p v h _).mpr ⟨s,hs,rfl⟩,(Node.utf8_encode s).symm⟩

/-- The local profile extends the portable one. -/
theorem canonicalBytes_of_portable {p : PyVal} {b : Bytes} (h : pf.portableCanonicalBytes p = .ok b) :
    pf.canonicalBytes p = .ok b := by
  obtain ⟨j,hj,hp,rfl⟩ := Platform.portableCanonicalBytes_eq_ok.mp h
  exact Platform.canonicalBytes_eq_ok.mpr ⟨j,(PyVal.normalize_portable p j hj).1,hp,rfl⟩

/-- The three canonicalizers accept the same typed values with the same bytes, whatever
the order of entries in each language; the signing encoding of Python gives them too. -/
theorem canonicalizers_agree (pf : Node.Platform) (p : PyVal) :
    (∀ g, GoValue p g → ∀ b, Go.canonical pf.nfc g = .ok b ↔ pf.portableCanonicalBytes p = .ok b) ∧
    (∀ v, NodeValue p v → ∀ b, Node.canonicalBytes pf v = .ok b ↔ pf.portableCanonicalBytes p = .ok b) ∧
    ∀ b, pf.portableCanonicalBytes p = .ok b → pf.canonicalBytes p = .ok b :=
  ⟨fun _ h _ => goCanonical_iff h,fun _ h _ => nodeCanonicalBytes_iff h,fun _ => canonicalBytes_of_portable⟩

/-- Two keys that JavaScript enumerates as array indices and Go in the other order. -/
theorem canonicalizers_agree_sample : ∃ b,
    Go.canonical sampleNfc (.map [(go "10",.slice [.nil,.number (go "-7")]),(go "9",.string (go "K"))]) = .ok b ∧
    Node.canonicalBytes Node.samplePlatform
      (.object [(js "9",.string (js "K")),(js "10",.array [.null,.number (.finite (-7 : Int))])]) = .ok b ∧
    samplePlatform.canonicalBytes (.dict [(.str (py "9"),.str (py "K")),(.str (py "10"),.list [.none,.int (-7)])]) =
      .ok b := by
  have prints : ∀ n ∈ [(-7 : Int)], samplePlatform.Prints n := by
    intro n hn
    cases List.mem_singleton.mp hn
    exact Platform.prints_of_lt (by decide)
  have hp : samplePlatform.portableCanonicalBytes
      (.dict [(.str (py "9"),.str (py "K")),(.str (py "10"),.list [.none,.int (-7)])]) = .ok _ :=
    Platform.portableCanonicalBytes_eq_ok.mpr ⟨_,rfl,prints,rfl⟩
  obtain ⟨hgo,hnode,hlocal⟩ := canonicalizers_agree Node.samplePlatform
    (.dict [(.str (py "9"),.str (py "K")),(.str (py "10"),.list [.none,.int (-7)])])
  refine ⟨_,(hgo _ ?_ _).mpr hp,(hnode _ ?_ _).mpr hp,hlocal _ hp⟩
  · exact ⟨by decide,_,.swap _ _ [],⟨_,rfl,rfl⟩,⟨_,rfl,rfl⟩,⟨_,rfl,rfl⟩,⟨trivial,rfl,trivial⟩,trivial⟩
  · exact ⟨by decide,_,.refl _,rfl,rfl,rfl,⟨trivial,rfl,trivial⟩,trivial⟩

end ExecutionFinality
