import ExecutionFinality.Library.JsonTrees
import Mathlib.Data.List.Perm.Basic

/-! When two JSON documents are the same data, and that their normalized texts then are
the same text. -/
namespace ExecutionFinality.JsonTree
open KeyedEntries
variable {ν : Type}

mutual
/-- Strings and keys are brought into a normal form, members are sorted by key. -/
def normalize (f : List Char → List Char) : JsonTree ν → JsonTree ν
  | .null => .null
  | .bool b => .bool b
  | .num n => .num n
  | .str s => .str (f s)
  | .arr xs => .arr (normalizeElements f xs)
  | .obj es => .obj (sortOn id (normalizeMembers f es))

def normalizeElements (f : List Char → List Char) : List (JsonTree ν) → List (JsonTree ν)
  | [] => []
  | x :: xs => normalize f x :: normalizeElements f xs

def normalizeMembers (f : List Char → List Char) :
    List (List Char × JsonTree ν) → List (List Char × JsonTree ν)
  | [] => []
  | (k,v) :: es => (f k,normalize f v) :: normalizeMembers f es
end

mutual
/-- The same data: numbers that are related, strings and keys of one normal form, members
in any order. -/
def Alike (R : ν → ν → Prop) (f : List Char → List Char) : JsonTree ν → JsonTree ν → Prop
  | .null, .null => True
  | .bool a, .bool b => a = b
  | .num m, .num n => R m n
  | .str s, .str t => f s = f t
  | .arr xs, .arr ys => AlikeElements R f xs ys
  | .obj es, .obj fs => ∃ gs, gs.Perm fs ∧ AlikeMembers R f es gs
  | _, _ => False

def AlikeElements (R : ν → ν → Prop) (f : List Char → List Char) : List (JsonTree ν) → List (JsonTree ν) → Prop
  | [], [] => True
  | v :: vs, w :: ws => Alike R f v w ∧ AlikeElements R f vs ws
  | _, _ => False

def AlikeMembers (R : ν → ν → Prop) (f : List Char → List Char) :
    List (List Char × JsonTree ν) → List (List Char × JsonTree ν) → Prop
  | [], [] => True
  | (k,v) :: es, (l,w) :: fs => f k = f l ∧ Alike R f v w ∧ AlikeMembers R f es fs
  | _, _ => False
end

/-- At some common position the documents hold numbers `m` and `n` with `S m n`. -/
inductive Meets (S : ν → ν → Prop) (f : List Char → List Char) : JsonTree ν → JsonTree ν → Prop
  | num {m n : ν} (h : S m n) : Meets S f (.num m) (.num n)
  | element {xs ys : List (JsonTree ν)} {p : JsonTree ν × JsonTree ν} (hp : p ∈ xs.zip ys) (h : Meets S f p.1 p.2) :
    Meets S f (.arr xs) (.arr ys)
  | member {es fs : List (List Char × JsonTree ν)} {e d : List Char × JsonTree ν} (he : e ∈ es) (hd : d ∈ fs)
    (hk : f e.1 = f d.1) (h : Meets S f e.2 d.2) : Meets S f (.obj es) (.obj fs)

/-- The numbers satisfy `P` and no two keys of an object have one normal form. -/
inductive Regular (f : List Char → List Char) (P : ν → Prop) : JsonTree ν → Prop
  | null : Regular f P .null
  | bool (b : Bool) : Regular f P (.bool b)
  | num {n : ν} (h : P n) : Regular f P (.num n)
  | str (s : List Char) : Regular f P (.str s)
  | arr {xs : List (JsonTree ν)} (h : ∀ x ∈ xs, Regular f P x) : Regular f P (.arr xs)
  | obj {es : List (List Char × JsonTree ν)} (hn : (es.map fun e => f e.1).Nodup) (h : ∀ e ∈ es, Regular f P e.2) :
    Regular f P (.obj es)

/-- The numbers satisfy `P`. -/
inductive Over (P : ν → Prop) : JsonTree ν → Prop
  | null : Over P .null
  | bool (b : Bool) : Over P (.bool b)
  | num {n : ν} (h : P n) : Over P (.num n)
  | str (s : List Char) : Over P (.str s)
  | arr {xs : List (JsonTree ν)} (h : ∀ x ∈ xs, Over P x) : Over P (.arr xs)
  | obj {es : List (List Char × JsonTree ν)} (h : ∀ e ∈ es, Over P e.2) : Over P (.obj es)

variable {R Q S : ν → ν → Prop} {f : List Char → List Char} {P : ν → Prop}

theorem normalize_arr (xs : List (JsonTree ν)) : normalize f (.arr xs) = .arr (xs.map (normalize f)) := by
  have h : normalizeElements f xs = xs.map (normalize f) := by
    induction xs with
    | nil => rfl
    | cons x xs ih => rw [normalizeElements,ih,List.map_cons]
  rw [normalize,h]

theorem normalize_obj (es : List (List Char × JsonTree ν)) :
    normalize f (.obj es) = .obj (sortOn id (es.map fun e => (f e.1,normalize f e.2))) := by
  have h : normalizeMembers f es = es.map fun e => (f e.1,normalize f e.2) := by
    induction es with
    | nil => rfl
    | cons e es ih => rw [normalizeMembers,ih,List.map_cons]
  rw [normalize,h]

theorem alikeElements_iff {xs ys : List (JsonTree ν)} : AlikeElements R f xs ys ↔ List.Forall₂ (Alike R f) xs ys := by
  induction xs generalizing ys with
  | nil => cases ys <;> simp [AlikeElements]
  | cons x xs ih => cases ys <;> simp [AlikeElements,ih]

theorem alikeMembers_iff {es fs : List (List Char × JsonTree ν)} : AlikeMembers R f es fs ↔
    List.Forall₂ (fun e d => f e.1 = f d.1 ∧ Alike R f e.2 d.2) es fs := by
  induction es generalizing fs with
  | nil => cases fs <;> simp [AlikeMembers]
  | cons e es ih => cases fs <;> simp [AlikeMembers,ih,and_assoc]

private theorem map_perm_iff {α β γ : Type} {g : α → γ} {k : β → γ} {xs : List α} {ys : List β} :
    (xs.map g).Perm (ys.map k) ↔ ∃ zs, zs.Perm ys ∧ List.Forall₂ (fun x z => g x = k z) xs zs := by
  rw [← iff_of_eq (congrFun (congrFun (List.eq_map_comp_perm k) (xs.map g)) ys)]
  exact exists_congr fun zs => and_comm.trans (and_congr_right fun _ => map_eq_iff_forall₂)

/-- Documents have one normal form when they are the same data. -/
theorem normalize_eq_iff (t : JsonTree ν) : ∀ u, Regular f P t → (normalize f t = normalize f u ↔ Alike Eq f t u) := by
  induction t using recOn_members with
  | arr xs ih =>
    intro u ht
    cases ht with
    | arr hx =>
      cases u with
      | arr ys =>
        rw [normalize_arr,normalize_arr,Alike,alikeElements_iff,JsonTree.arr.injEq,map_eq_iff_forall₂]
        exact forall₂_iff_of_mem fun x hm y => ih x hm y (hx x hm)
      | _ => simp [normalize,Alike]
  | obj es ih =>
    intro u ht
    cases ht with
    | obj hn he =>
      cases u with
      | obj fs =>
        have hkeys : (keys (es.map fun e => (f e.1,normalize f e.2))).Nodup := by
          rw [keys,List.map_map]
          exact hn
        rw [normalize_obj,normalize_obj,Alike,JsonTree.obj.injEq,sortOn_eq_iff Function.injective_id hkeys]
        rw [map_perm_iff]
        refine exists_congr fun gs => and_congr_right fun _ => ?_
        rw [alikeMembers_iff]
        refine forall₂_iff_of_mem fun e hm d => ?_
        rw [Prod.mk.injEq,ih e hm d.2 (he e hm)]
      | _ => simp [normalize,Alike]
  | _ =>
    intro u _
    cases u <;> simp [normalize,Alike]

/-- In a regular document one of two members with keys of one normal form is the other. -/
private theorem member_unique {es : List (List Char × JsonTree ν)} (hn : (es.map fun e => f e.1).Nodup)
    {e d : List Char × JsonTree ν} (he : e ∈ es) (hd : d ∈ es) (hk : f e.1 = f d.1) : e = d :=
  List.inj_on_of_nodup_map hn he hd hk

/-- Where one relation of numbers is another less some pairs, documents are alike by it
when they are alike by the other and meet in none of these pairs. -/
theorem alike_iff_not_meets (hQ : ∀ m n, Q m n ↔ R m n ∧ ¬ S m n) (t : JsonTree ν) : ∀ u, Regular f P t →
    (Alike Q f t u ↔ Alike R f t u ∧ ¬ Meets S f t u) := by
  induction t using recOn_members with
  | num m =>
    intro u _
    cases u with
    | num n =>
      simp only [Alike,hQ]
      exact and_congr_right fun _ => not_congr ⟨.num,fun | .num h => h⟩
    | _ => simp [Alike]
  | arr xs ih =>
    intro u ht
    cases ht with
    | arr hx =>
      cases u with
      | arr ys =>
        simp only [Alike,alikeElements_iff,List.forall₂_iff_zip]
        constructor
        · rintro ⟨hl,hz⟩
          have pair {a b : JsonTree ν} (hm : (a,b) ∈ xs.zip ys) := (ih a (List.of_mem_zip hm).1 b
            (hx a (List.of_mem_zip hm).1)).mp (hz hm)
          exact ⟨⟨hl,fun hm => (pair hm).1⟩,fun | .element hp h => (pair hp).2 h⟩
        · rintro ⟨⟨hl,hz⟩,hs⟩
          refine ⟨hl,fun {a b} hm => (ih a (List.of_mem_zip hm).1 b (hx a (List.of_mem_zip hm).1)).mpr ⟨hz hm,?_⟩⟩
          exact fun h => hs (.element hm h)
      | _ => simp [Alike]
  | obj es ih =>
    intro u ht
    cases ht with
    | obj hn hx =>
      cases u with
      | obj fs =>
        simp only [Alike,alikeMembers_iff]
        constructor
        · rintro ⟨gs,hp,hf⟩
          have member {e d : List Char × JsonTree ν} (he : e ∈ es) := ih e he d.2 (hx e he)
          refine ⟨⟨gs,hp,forall₂_imp_of_mem (fun e he d h => ⟨h.1,((member he).mp h.2).1⟩) hf⟩,?_⟩
          rintro (_ | _ | ⟨he,hd,hk,hs⟩)
          -- The member that meets `e` has the key of the one matched with it, so it is that one.
          obtain ⟨e',he',hk',hr⟩ := forall₂_of_mem_right hf (hp.mem_iff.mpr hd)
          cases member_unique hn he he' (hk.trans hk'.symm)
          exact ((member he).mp hr).2 hs
        · rintro ⟨⟨gs,hp,hf⟩,hs⟩
          refine ⟨gs,hp,List.forall₂_iff_zip.mpr ⟨hf.length_eq,fun {e d} hm => ?_⟩⟩
          obtain ⟨he,hd⟩ := List.of_mem_zip hm
          obtain ⟨hk,hr⟩ := (List.forall₂_iff_zip.mp hf).2 hm
          exact ⟨hk,(ih e he d.2 (hx e he)).mpr ⟨hr,fun h => hs (.member he (hp.mem_iff.mp hd) hk h)⟩⟩
      | _ => simp [Alike]
  | _ =>
    intro u _
    cases u <;> exact ⟨fun h => ⟨h,fun hs => nomatch hs⟩,And.left⟩

/-! Normalizing once is enough. -/

theorem Regular.distinct {t : JsonTree ν} (h : t.Regular f P) : t.Regular id P := by
  induction h with
  | null => exact .null
  | bool b => exact .bool b
  | num h => exact .num h
  | str s => exact .str s
  | arr _ ih => exact .arr ih
  | obj hn _ ih =>
    refine .obj (List.Nodup.of_map f ?_) ih
    rw [List.map_map]
    exact hn

theorem Regular.over {t : JsonTree ν} (h : t.Regular f P) : t.Over P := by
  induction h with
  | null => exact .null
  | bool b => exact .bool b
  | num h => exact .num h
  | str s => exact .str s
  | arr _ ih => exact .arr ih
  | obj _ _ ih => exact .obj ih

theorem Regular.imp {P' : ν → Prop} {t : JsonTree ν} (h : t.Regular f P) (hP : ∀ n, P n → P' n) : t.Regular f P' := by
  induction h with
  | null => exact .null
  | bool b => exact .bool b
  | num h => exact .num (hP _ h)
  | str s => exact .str s
  | arr _ ih => exact .arr ih
  | obj hn _ ih => exact .obj hn ih

theorem Regular.normalize {t : JsonTree ν} (hf : ∀ s, f (f s) = f s) (h : t.Regular f P) :
    (t.normalize f).Regular f P := by
  induction h with
  | null => exact .null
  | bool b => exact .bool b
  | num h => exact .num h
  | str s => exact .str _
  | arr _ ih =>
    rw [normalize_arr]
    exact .arr (List.forall_mem_map.mpr ih)
  | @obj es hn _ ih =>
    rw [normalize_obj]
    have hp := sortOn_perm id (es.map fun e => (f e.1,e.2.normalize f))
    refine .obj ((hp.map _).nodup_iff.mpr ?_) fun e he => ?_
    · rw [List.map_map]
      have hkeys : es.map ((fun e => f e.1) ∘ fun e => (f e.1,e.2.normalize f)) = es.map fun e => f e.1 :=
        List.map_congr_left fun e _ => hf e.1
      rwa [hkeys]
    · obtain ⟨d,hd,rfl⟩ := List.mem_map.mp ((mem_sortOn id).mp he)
      exact ih d hd

theorem normalize_normalize (hf : ∀ s, f (f s) = f s) (t : JsonTree ν) :
    (t.normalize f).normalize f = t.normalize f := by
  induction t using recOn_members with
  | str s => rw [normalize,normalize,hf]
  | arr xs ih =>
    rw [normalize_arr,normalize_arr,List.map_map]
    exact congrArg _ (List.map_congr_left ih)
  | obj es ih =>
    have fixed : (sortOn id (es.map fun e => (f e.1,e.2.normalize f))).map (fun e => (f e.1,e.2.normalize f)) =
        sortOn id (es.map fun e => (f e.1,e.2.normalize f)) := by
      refine (List.map_congr_left fun e he => ?_).trans (List.map_id _)
      obtain ⟨d,hd,rfl⟩ := List.mem_map.mp ((mem_sortOn id).mp he)
      exact Prod.ext (hf d.1) (ih d hd)
    rw [normalize_obj,normalize_obj,fixed,sortOn_of_sorted id (sortOn_sorted id _)]
  | _ => rfl

variable {num : ν → List Char}

/-- Documents are the same data exactly when their normalized texts are one text. -/
theorem print_normalize_eq_iff (hnum : Numerals num) {t u : JsonTree ν} (ht : Regular f P t) :
    print num (normalize f t) = print num (normalize f u) ↔ Alike Eq f t u := by
  rw [(print_injective hnum).eq_iff,normalize_eq_iff t u ht]

/-! An encoder that writes the normalized text in some code, one array or object at a time -/
section
variable {β V K : Type} {code : List Char → List β} (hcode : ∀ s t, code (s ++ t) = code s ++ code t)
  {canon : V → List β → Prop} {denotes : V → JsonTree ν → Prop}

/-- The normalized text of a document in a code -/
def render (code : List Char → List β) (num : ν → List Char) (f : List Char → List Char) (t : JsonTree ν) : List β :=
  code (print num (normalize f t))

include hcode

theorem render_arr (ts : List (JsonTree ν)) : render code num f (.arr ts) =
    code ['['] ++ (code [',']).intercalate (ts.map (render code num f)) ++ code [']'] := by
  rw [render,normalize_arr,print_arr,code_listing hcode,List.map_map,List.map_map]
  rfl

theorem render_obj (es : List (List Char × JsonTree ν)) : render code num f (.obj es) =
    code ['{'] ++ (code [',']).intercalate ((sortOn id (es.map fun e => (f e.1,render code num f e.2))).map fun m =>
      code (Json.quote m.1) ++ code [':'] ++ m.2) ++ code ['}'] := by
  have sorted : sortOn id (es.map fun e => (f e.1,render code num f e.2)) =
      (sortOn id (es.map fun e => (f e.1,normalize f e.2))).map fun e => (e.1,code (print num e.2)) := by
    rw [sortOn_map id id (fun e : List Char × JsonTree ν => (e.1,code (print num e.2))) _ fun _ _ _ _ => Iff.rfl,
      List.map_map]
    rfl
  rw [render,normalize_obj,print_obj,code_listing hcode,sorted,List.map_map,List.map_map]
  refine congrArg (fun ls => code ['{'] ++ (code [',']).intercalate ls ++ code ['}']) (List.map_congr_left ?_)
  exact fun e _ => code_printMember hcode e.1 (print num e.2)

theorem canon_arr_iff {xs : List V}
    (ih : ∀ x ∈ xs, ∀ b, canon x b ↔ ∃ t, denotes x t ∧ Regular f P t ∧ b = render code num f t) (b : List β) :
    (∃ bs, List.Forall₂ canon xs bs ∧ b = code ['['] ++ (code [',']).intercalate bs ++ code [']']) ↔
      ∃ t, (∃ ts, List.Forall₂ denotes xs ts ∧ t = .arr ts) ∧ Regular f P t ∧ b = render code num f t := by
  simp only [forall₂_iff_of_mem ih,forall₂_image]
  constructor
  · rintro ⟨_,⟨ts,hts,hreg,rfl⟩,rfl⟩
    exact ⟨_,⟨ts,hts,rfl⟩,.arr hreg,(render_arr hcode ts).symm⟩
  · rintro ⟨_,⟨ts,hts,rfl⟩,hreg,rfl⟩
    cases hreg with
    | arr hreg => exact ⟨_,⟨ts,hts,hreg,rfl⟩,render_arr hcode ts⟩

variable (canon denotes) in
theorem canon_obj_iff {text key : K → List Char → Prop} (hkey : ∀ k c, text k c ↔ ∃ cs, key k cs ∧ c = f cs)
    {es : List (K × V)}
    (ih : ∀ e ∈ es, ∀ b, canon e.2 b ↔ ∃ t, denotes e.2 t ∧ Regular f P t ∧ b = render code num f t) (b : List β) :
    (∃ ms : List (List Char × List β), List.Forall₂ (fun e m => text e.1 m.1 ∧ canon e.2 m.2) es ms ∧
      (keys ms).Nodup ∧ b = code ['{'] ++ (code [',']).intercalate ((sortOn id ms).map fun m =>
        code (Json.quote m.1) ++ code [':'] ++ m.2) ++ code ['}']) ↔
      ∃ t, (∃ ts, List.Forall₂ (fun e t => key e.1 t.1 ∧ denotes e.2 t.2) es ts ∧ t = .obj ts) ∧ Regular f P t ∧
        b = render code num f t := by
  have member (e : K × V) (he : e ∈ es) (m : List Char × List β) : text e.1 m.1 ∧ canon e.2 m.2 ↔
      ∃ t : List Char × JsonTree ν, (key e.1 t.1 ∧ denotes e.2 t.2) ∧ Regular f P t.2 ∧
        m = (f t.1,render code num f t.2) := by
    rw [hkey,ih e he]
    constructor
    · rintro ⟨⟨cs,hk,hc⟩,t,ht,hreg,hb⟩
      exact ⟨(cs,t),⟨hk,ht⟩,hreg,Prod.ext hc hb⟩
    · rintro ⟨t,⟨hk,ht⟩,hreg,rfl⟩
      exact ⟨⟨_,hk,rfl⟩,_,ht,hreg,rfl⟩
  simp only [forall₂_iff_of_mem member,forall₂_image]
  constructor
  · rintro ⟨_,⟨ts,hts,hreg,rfl⟩,hn,rfl⟩
    rw [keys,List.map_map] at hn
    exact ⟨_,⟨ts,hts,rfl⟩,.obj hn hreg,(render_obj hcode ts).symm⟩
  · rintro ⟨_,⟨ts,hts,rfl⟩,hreg,rfl⟩
    cases hreg with
    | obj hn hreg =>
      refine ⟨_,⟨ts,hts,hreg,rfl⟩,?_,render_obj hcode ts⟩
      rw [keys,List.map_map]
      exact hn

end

end ExecutionFinality.JsonTree
