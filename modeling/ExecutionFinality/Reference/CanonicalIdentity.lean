import ExecutionFinality.Reference.Canonical
import Mathlib.Data.List.Perm.Basic

/-! Which values share their canonical bytes. -/
namespace ExecutionFinality
open Utf8 (Bytes)
open KeyedEntries

/-- The same text up to NFC; a string with a surrogate is no text. -/
def SameText (nfc : Nfc) (s t : PyStr) : Prop :=
  ∃ a b, s.scalars = some a ∧ t.scalars = some b ∧ nfc.run a = nfc.run b

instance SameText.decidable {nfc : Nfc} {s t : PyStr} : Decidable (SameText nfc s t) :=
  decidable_of_iff (s.scalars.any fun a => t.scalars.any fun b => nfc.run a = nfc.run b) (by
    simp only [SameText,Option.any_eq_true,decide_eq_true_eq]
    constructor
    · rintro ⟨a,ha,b,hb,h⟩
      exact ⟨a,b,ha,hb,h⟩
    · rintro ⟨a,b,ha,hb,h⟩
      exact ⟨a,ha,b,hb,h⟩)

theorem SameText.symm {nfc : Nfc} {s t : PyStr} (h : SameText nfc s t) : SameText nfc t s := by
  obtain ⟨a,b,ha,hb,he⟩ := h
  exact ⟨b,a,hb,ha,he.symm⟩

theorem SameText.trans {nfc : Nfc} {s t u : PyStr} (h : SameText nfc s t) (h' : SameText nfc t u) :
    SameText nfc s u := by
  obtain ⟨a,b,ha,hb,he⟩ := h
  obtain ⟨b',c,hb',hc,he'⟩ := h'
  cases hb.symm.trans hb'
  exact ⟨a,c,ha,hc,he.trans he'⟩

def SameKey (nfc : Nfc) : PyKey → PyKey → Prop
  | .str s, .str t => SameText nfc s t
  | _, _ => False

mutual
/-- The same data up to NFC of strings and keys, the order of dictionary entries,
list versus tuple, and a dataclass or enumeration versus its dictionary or string. -/
def SameData (nfc : Nfc) : PyVal → PyVal → Prop
  | .none, .none => True
  | .bool a, .bool b => a = b
  | .int m, .int n => m = n
  | .text _ s, .text _ t => SameText nfc s t
  | .bytes a, .bytes b => a = b
  | .seq _ xs, .seq _ ys => SameItems nfc xs ys
  | .mapping _ es, .mapping _ fs => ∃ gs, gs.Perm fs ∧ SameEntries nfc es gs
  | _, _ => False

def SameItems (nfc : Nfc) : List PyVal → List PyVal → Prop
  | [], [] => True
  | v :: vs, w :: ws => SameData nfc v w ∧ SameItems nfc vs ws
  | _, _ => False

def SameEntries (nfc : Nfc) : List (PyKey × PyVal) → List (PyKey × PyVal) → Prop
  | [], [] => True
  | (k,v) :: es, (l,w) :: fs => SameKey nfc k l ∧ SameData nfc v w ∧ SameEntries nfc es fs
  | _, _ => False
end

mutual
/-- At some common position one value holds a byte string where the other holds a
mapping, which is what the tagged form of byte strings can be mistaken for. -/
def TagClash (nfc : Nfc) : PyVal → PyVal → Prop
  | .bytes _, .mapping _ _ => True
  | .mapping _ _, .bytes _ => True
  | .seq _ xs, .seq _ ys => TagClashItems nfc xs ys
  | .mapping _ es, .mapping _ fs => TagClashEntries nfc es fs
  | _, _ => False

def TagClashItems (nfc : Nfc) : List PyVal → List PyVal → Prop
  | v :: vs, w :: ws => TagClash nfc v w ∨ TagClashItems nfc vs ws
  | _, _ => False

def TagClashEntries (nfc : Nfc) : List (PyKey × PyVal) → List (PyKey × PyVal) → Prop
  | [], _ => False
  | (k,v) :: es, fs => (∃ f ∈ fs, SameKey nfc k f.1 ∧ TagClash nfc v f.2) ∨ TagClashEntries nfc es fs
end

variable {nfc : Nfc} {portable : Bool}

theorem sameItems_iff {xs ys : List PyVal} : SameItems nfc xs ys ↔ List.Forall₂ (SameData nfc) xs ys := by
  induction xs generalizing ys with
  | nil => cases ys <;> simp [SameItems]
  | cons x xs ih => cases ys <;> simp [SameItems,ih]

theorem sameEntries_iff {es fs : List (PyKey × PyVal)} : SameEntries nfc es fs ↔
    List.Forall₂ (fun e f => SameKey nfc e.1 f.1 ∧ SameData nfc e.2 f.2) es fs := by
  induction es generalizing fs with
  | nil => cases fs <;> simp [SameEntries]
  | cons e es ih => cases fs <;> simp [SameEntries,ih,and_assoc]

theorem SameKey.symm {k l : PyKey} (h : SameKey nfc k l) : SameKey nfc l k := by
  cases k <;> cases l <;> first | exact h.elim | exact SameText.symm h

theorem SameKey.meet {k l m : PyKey} (h : SameKey nfc k l) (h' : SameKey nfc k m) : SameKey nfc l m := by
  cases k <;> cases l <;> cases m <;> first | exact h.elim | exact h'.elim | exact SameText.trans (.symm h) h'

theorem tagClashItems_iff {xs ys : List PyVal} : TagClashItems nfc xs ys ↔
    ∃ p ∈ xs.zip ys, TagClash nfc p.1 p.2 := by
  induction xs generalizing ys with
  | nil => simp [TagClashItems]
  | cons x xs ih => cases ys <;> simp [TagClashItems,ih]

theorem tagClashEntries_iff {es fs : List (PyKey × PyVal)} : TagClashEntries nfc es fs ↔
    ∃ e ∈ es, ∃ f ∈ fs, SameKey nfc e.1 f.1 ∧ TagClash nfc e.2 f.2 := by
  induction es with
  | nil => simp [TagClashEntries]
  | cons e es ih => simp [TagClashEntries,ih]

namespace PyVal

theorem NormalEntry.sameKey_iff {e f : PyKey × PyVal} {kv lw : List Char × Json}
    (he : NormalEntry nfc portable e kv) (hf : NormalEntry nfc portable f lw) :
    SameKey nfc e.1 f.1 ↔ kv.1 = lw.1 := by
  obtain ⟨⟨s,a,hs,ha,hk⟩,_⟩ := he
  obtain ⟨⟨t,b,ht,hb,hl⟩,_⟩ := hf
  rw [hs,ht,← hk,← hl]
  constructor
  · rintro ⟨a',b',ha',hb',h⟩
    cases ha.symm.trans ha'
    cases hb.symm.trans hb'
    exact h
  · exact fun h => ⟨a,b,ha,hb,h⟩

/-- Entries whose keys normalize to one key are one entry. -/
theorem sameKey_unique {es : List (PyKey × PyVal)} {kvs : List (List Char × Json)}
    (h : List.Forall₂ (NormalEntry nfc portable) es kvs) (hn : (keys kvs).Nodup) {e f : PyKey × PyVal}
    (he : e ∈ es) (hf : f ∈ es) (hk : SameKey nfc e.1 f.1) : e = f := by
  induction h with
  | nil => cases he
  | @cons a kv as kvs ha has ih =>
    obtain ⟨hfresh,hn⟩ := List.nodup_cons.mp hn
    have fresh (g : PyKey × PyVal) (hg : g ∈ as) : ¬ SameKey nfc a.1 g.1 := by
      intro hs
      obtain ⟨lw,hlw,hgn⟩ := forall₂_of_mem_right has.flip hg
      exact hfresh (List.mem_map.mpr ⟨lw,hlw,((NormalEntry.sameKey_iff ha hgn).mp hs).symm⟩)
    rcases List.mem_cons.mp he with rfl | hea
    · rcases List.mem_cons.mp hf with rfl | hfa
      · rfl
      · exact absurd hk (fresh f hfa)
    · rcases List.mem_cons.mp hf with rfl | hfa
      · exact absurd hk.symm (fresh e hea)
      · exact ih hn hea hfa

private theorem forall₂_meet {α β γ : Type} {R : α → γ → Prop} {S : β → γ → Prop} {xs : List α}
    {ys : List β} {zs : List γ} (hx : List.Forall₂ R xs zs) (hy : List.Forall₂ S ys zs) :
    List.Forall₂ (fun x y => ∃ z, R x z ∧ S y z) xs ys := by
  induction hx generalizing ys with
  | nil => cases hy; exact .nil
  | cons h _ ih =>
    cases hy with
    | cons h' hy' => exact .cons ⟨_,h,h'⟩ (ih hy')

private theorem forall₂_determined {α β γ : Type} {T : α → β → Prop} {R : α → γ → Prop} {S : β → γ → Prop}
    {xs : List α} {ys : List β} {zs ws : List γ} (ht : List.Forall₂ T xs ys)
    (hx : List.Forall₂ R xs zs) (hy : List.Forall₂ S ys ws)
    (h : ∀ x ∈ xs, ∀ y z w, T x y → R x z → S y w → z = w) : zs = ws := by
  induction ht generalizing zs ws with
  | nil => cases hx; cases hy; rfl
  | cons ht _ ih =>
    cases hx with
    | cons hx hxs =>
      cases hy with
      | cons hy hys =>
        rw [h _ (by simp) _ _ _ ht hx hy,ih hxs hys fun x hm => h x (List.mem_cons_of_mem _ hm)]

/-- One normal form, and no place where a byte string met a mapping: the same data. -/
theorem sameData_of_normalize_eq (v : PyVal) : ∀ w j, normalize nfc portable v = .ok j →
    normalize nfc portable w = .ok j → ¬ TagClash nfc v w → SameData nfc v w := by
  induction v using recOn_members with
  | none =>
    intro w j hv hw _
    cases normal_iff.mpr hv
    cases normal_iff.mpr hw with
    | none => trivial
    | mapping _ _ hj => cases hj
  | bool b =>
    intro w j hv hw _
    cases normal_iff.mpr hv
    cases normal_iff.mpr hw with
    | bool => rfl
    | mapping _ _ hj => cases hj
  | int n =>
    intro w j hv hw _
    cases normal_iff.mpr hv
    cases normal_iff.mpr hw with
    | int => rfl
    | mapping _ _ hj => cases hj
  | float | other =>
    intro w j hv
    cases normal_iff.mpr hv
  | text k s =>
    intro w j hv hw _
    cases normal_iff.mpr hv with
    | text hs =>
      generalize he : Json.str _ = j at hw
      cases normal_iff.mpr hw with
      | text ht => exact ⟨_,_,hs,ht,Json.str.inj he⟩
      | mapping _ _ hj => cases he.trans hj
      | _ => cases he
  | bytes b =>
    intro w j hv hw hc
    cases normal_iff.mpr hv with
    | bytes =>
      generalize he : Json.obj _ = j at hw
      cases normal_iff.mpr hw with
      | bytes =>
        simp only [Json.obj.injEq,List.cons.injEq,Prod.mk.injEq,Json.str.injEq,and_true,true_and] at he
        exact hexChars_injective he
      | mapping => exact absurd trivial hc
      | _ => cases he
  | seq k xs ih =>
    intro w j hv hw hc
    cases normal_iff.mpr hv with
    | seq hxs =>
      cases normal_iff.mpr hw with
      | seq hys =>
        simp only [TagClash,tagClashItems_iff,not_exists,not_and] at hc
        obtain ⟨hl,hz⟩ := List.forall₂_iff_zip.mp (forall₂_meet hxs hys)
        refine sameItems_iff.mpr (List.forall₂_iff_zip.mpr ⟨hl,fun {x y} hm => ?_⟩)
        obtain ⟨i,hx,hy⟩ := hz hm
        exact ih x (List.of_mem_zip hm).1 y i hx hy (hc _ hm)
      | mapping _ _ hj => cases hj
  | mapping k es ih =>
    intro w j hv hw hc
    cases normal_iff.mpr hv with
    | mapping hes hn hj =>
      cases normal_iff.mpr hw with
      | bytes => exact absurd trivial hc
      | mapping hfs hn' hj' =>
        simp only [TagClash,tagClashEntries_iff,not_exists,not_and] at hc
        have hp := (sortOn_eq_iff Function.injective_id hn).mp (Json.obj.inj (hj.symm.trans hj'))
        obtain ⟨gs,hgs,hperm⟩ := List.perm_comp_forall₂ hp hfs.flip
        obtain ⟨hl,hz⟩ := List.forall₂_iff_zip.mp (forall₂_meet hes hgs.flip)
        refine ⟨gs,hperm,sameEntries_iff.mpr (List.forall₂_iff_zip.mpr ⟨hl,fun {e g} hm => ?_⟩)⟩
        obtain ⟨kv,he,hg⟩ := hz hm
        obtain ⟨hme,hmg⟩ := List.of_mem_zip hm
        have hk := (he.sameKey_iff hg).mpr rfl
        exact ⟨hk,ih e hme g.2 kv.2 he.2 hg.2 (hc e hme g (hperm.mem_iff.mp hmg) hk)⟩
      | _ => cases hj

/-- The same data has one normal form. -/
theorem normalize_eq_of_sameData (v : PyVal) : ∀ w i j, SameData nfc v w →
    normalize nfc portable v = .ok i → normalize nfc portable w = .ok j → i = j := by
  induction v using recOn_members with
  | seq k xs ih =>
    intro w i j h hv hw
    cases w with
    | seq l ys =>
      cases normal_iff.mpr hv with
      | seq hxs =>
        cases normal_iff.mpr hw with
        | seq hys =>
          exact congrArg Json.arr (forall₂_determined (sameItems_iff.mp h) hxs hys
            fun x hx y z w hs hz hw => ih x hx y z w hs hz hw)
    | _ => exact h.elim
  | mapping k es ih =>
    intro w i j h hv hw
    cases w with
    | mapping l fs =>
      obtain ⟨gs,hperm,hs⟩ := h
      cases normal_iff.mpr hv with
      | mapping hes hn hi =>
        cases normal_iff.mpr hw with
        | mapping hfs hn' hj =>
          obtain ⟨lws,hgs,hp⟩ := List.perm_comp_forall₂ hperm hfs
          have he := forall₂_determined (sameEntries_iff.mp hs) hes hgs fun e he g kv lw h hkv hlw =>
            Prod.ext ((hkv.sameKey_iff hlw).mp h.1) (ih e he g.2 kv.2 lw.2 h.2 hkv.2 hlw.2)
          subst he
          rw [hi,hj,(sortOn_eq_iff Function.injective_id hn).mpr hp]
    | _ => exact h.elim
  | text k s =>
    intro w i j h hv hw
    cases w with
    | text l t =>
      obtain ⟨a,b,ha,hb,he⟩ := h
      cases normal_iff.mpr hv with
      | text hs =>
        cases normal_iff.mpr hw with
        | text ht =>
          cases ha.symm.trans hs
          cases hb.symm.trans ht
          rw [he]
    | _ => exact h.elim
  | none | bool | int | bytes =>
    intro w i j h hv hw
    cases w
    all_goals first | exact h.elim | skip
    all_goals cases h; exact Except.ok.inj (hv.symm.trans hw)
  | float | other =>
    intro w i j h
    exact h.elim

/-- A byte string met by a mapping is a difference in the data. -/
theorem not_tagClash_of_sameData (v : PyVal) : ∀ w i j, SameData nfc v w →
    normalize nfc portable v = .ok i → normalize nfc portable w = .ok j → ¬ TagClash nfc v w := by
  induction v using recOn_members with
  | seq k xs ih =>
    intro w i j h hv hw
    cases w with
    | seq l ys =>
      cases normal_iff.mpr hv with
      | seq hxs =>
        cases normal_iff.mpr hw with
        | seq hys =>
          intro hc
          obtain ⟨⟨x,y⟩,hm,hc⟩ := tagClashItems_iff.mp hc
          obtain ⟨hx,hy⟩ := List.of_mem_zip hm
          obtain ⟨a,_,ha⟩ := forall₂_of_mem_right hxs.flip hx
          obtain ⟨b,_,hb⟩ := forall₂_of_mem_right hys.flip hy
          exact ih x hx y a b ((List.forall₂_iff_zip.mp (sameItems_iff.mp h)).2 hm) ha hb hc
    | _ => exact h.elim
  | mapping k es ih =>
    intro w i j h hv hw
    cases w with
    | mapping l fs =>
      obtain ⟨gs,hperm,hs⟩ := h
      cases normal_iff.mpr hv with
      | mapping hes hn hi =>
        cases normal_iff.mpr hw with
        | mapping hfs hn' hj =>
          intro hc
          obtain ⟨e,he,f,hf,hk,hc⟩ := tagClashEntries_iff.mp hc
          obtain ⟨g,hg,hkg,hsame⟩ := forall₂_of_mem_right (sameEntries_iff.mp hs).flip he
          -- The clashing entry carries the key of the entry matched with `e`, so it is that entry.
          have hfg := sameKey_unique hfs hn' hf (hperm.mem_iff.mp hg) (hk.meet hkg)
          subst hfg
          obtain ⟨kv,_,hkv⟩ := forall₂_of_mem_right hes.flip he
          obtain ⟨lw,_,hlw⟩ := forall₂_of_mem_right hfs.flip hf
          exact ih e he f.2 kv.2 lw.2 hsame hkv.2 hlw.2 hc
    | _ => exact h.elim
  | bytes b =>
    intro w i j h _ _ hc
    cases w with
    | bytes => exact hc
    | _ => exact h.elim
  | none | bool | int | text | float | other => intro w i j _ _ _ hc; exact hc

/-- The portable profile has no byte strings to mistake. -/
theorem not_tagClash_of_portable (v : PyVal) : ∀ w i j, normalize nfc true v = .ok i →
    normalize nfc true w = .ok j → ¬ TagClash nfc v w := by
  induction v using recOn_members with
  | seq k xs ih =>
    intro w i j hv hw hc
    cases w with
    | seq l ys =>
      cases normal_iff.mpr hv with
      | seq hxs =>
        cases normal_iff.mpr hw with
        | seq hys =>
          obtain ⟨⟨x,y⟩,hm,hc⟩ := tagClashItems_iff.mp hc
          obtain ⟨hx,hy⟩ := List.of_mem_zip hm
          obtain ⟨a,_,ha⟩ := forall₂_of_mem_right hxs.flip hx
          obtain ⟨b,_,hb⟩ := forall₂_of_mem_right hys.flip hy
          exact ih x hx y a b ha hb hc
    | _ => exact hc
  | mapping k es ih =>
    intro w i j hv hw hc
    cases normal_iff.mpr hv with
    | mapping hes hn hi =>
      cases normal_iff.mpr hw with
      | bytes _ hp => cases hp
      | mapping hfs hn' hj =>
        obtain ⟨e,he,f,hf,_,hc⟩ := tagClashEntries_iff.mp hc
        obtain ⟨kv,_,hkv⟩ := forall₂_of_mem_right hes.flip he
        obtain ⟨lw,_,hlw⟩ := forall₂_of_mem_right hfs.flip hf
        exact ih e he f.2 kv.2 lw.2 hkv.2 hlw.2 hc
      | _ => exact hc
  | bytes b =>
    intro w i j hv
    cases normal_iff.mpr hv with
    | bytes _ hp => cases hp
  | none | bool | int | text | float | other => intro w i j _ _ hc; exact hc

end PyVal

namespace Platform
variable {pf : Platform}

/-- Portable encodings agree exactly when the values are the same data. -/
theorem portableCanonicalBytes_eq_iff {v w : PyVal} {a b : Bytes} (hv : pf.portableCanonicalBytes v = .ok a)
    (hw : pf.portableCanonicalBytes w = .ok b) : a = b ↔ SameData pf.nfc v w := by
  obtain ⟨i,hi,_,rfl⟩ := portableCanonicalBytes_eq_ok.mp hv
  obtain ⟨j,hj,_,rfl⟩ := portableCanonicalBytes_eq_ok.mp hw
  rw [encode_print_injective.eq_iff]
  constructor
  · rintro rfl
    exact PyVal.sameData_of_normalize_eq v w i hi hj (PyVal.not_tagClash_of_portable v w i i hi hj)
  · exact fun h => PyVal.normalize_eq_of_sameData v w i j h hi hj

theorem portableCanonicalBytes_sample : ∃ a b,
    samplePlatform.portableCanonicalBytes (.dict [(.str (py "x"),.tuple [.int 1,.none]),(.str (py "K"),.bool true)]) =
      .ok a ∧
    samplePlatform.portableCanonicalBytes (.dict [(.str (py "\u212A"),.bool true),(.str (py "x"),.list [.int 1,.none])]) =
      .ok b ∧
    (a = b ↔ SameData sampleNfc
      (.dict [(.str (py "x"),.tuple [.int 1,.none]),(.str (py "K"),.bool true)])
      (.dict [(.str (py "\u212A"),.bool true),(.str (py "x"),.list [.int 1,.none])])) := by
  have prints : ∀ n ∈ [(1 : Int)], samplePlatform.Prints n := by
    intro n hn
    cases List.mem_singleton.mp hn
    exact prints_of_lt (by decide)
  have hv : samplePlatform.portableCanonicalBytes
      (.dict [(.str (py "x"),.tuple [.int 1,.none]),(.str (py "K"),.bool true)]) = .ok _ :=
    portableCanonicalBytes_eq_ok.mpr ⟨_,rfl,prints,rfl⟩
  have hw : samplePlatform.portableCanonicalBytes
      (.dict [(.str (py "\u212A"),.bool true),(.str (py "x"),.list [.int 1,.none])]) = .ok _ :=
    portableCanonicalBytes_eq_ok.mpr ⟨_,rfl,prints,rfl⟩
  exact ⟨_,_,hv,hw,portableCanonicalBytes_eq_iff hv hw⟩

/-- Under one local encoding, the values are the same data unless a byte string in one
stands where the other has a mapping. -/
theorem sameData_iff_not_tagClash {v w : PyVal} {b : Bytes} (hv : pf.canonicalBytes v = .ok b)
    (hw : pf.canonicalBytes w = .ok b) : SameData pf.nfc v w ↔ ¬ TagClash pf.nfc v w := by
  obtain ⟨j,hi,hj⟩ := canonicalBytes_inj hv hw
  exact ⟨fun h => PyVal.not_tagClash_of_sameData v w j j h hi hj,PyVal.sameData_of_normalize_eq v w j hi hj⟩

end Platform
end ExecutionFinality
