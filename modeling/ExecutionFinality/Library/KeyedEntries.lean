import ExecutionFinality.Library.CheckChains
import Mathlib.Data.List.Forall2
import Mathlib.Data.List.Lex
import Mathlib.Data.List.Nodup
import Mathlib.Data.List.Sort

/-! Key-value entries of a mapping, listed in some order: the listing that a sort by
key makes of them, and the loop that renames the keys and refuses collisions. -/
namespace ExecutionFinality.KeyedEntries
variable {κ κ' α α' ι ι' : Type} [LinearOrder ι] [LinearOrder ι']

abbrev keys (es : List (κ × α)) : List κ := es.map Prod.fst

/-- Sort by an image of the key; entries with equal images keep their order. -/
def sortOn (f : κ → ι) (es : List (κ × α)) : List (κ × α) :=
  es.insertionSort (fun a b => f a.1 ≤ f b.1)

theorem sortOn_perm (f : κ → ι) (es : List (κ × α)) : (sortOn f es).Perm es :=
  List.perm_insertionSort _ es

@[simp] theorem mem_sortOn (f : κ → ι) {es : List (κ × α)} {e : κ × α} : e ∈ sortOn f es ↔ e ∈ es :=
  (sortOn_perm f es).mem_iff

theorem sortOn_sorted (f : κ → ι) (es : List (κ × α)) :
    (sortOn f es).Pairwise (fun a b => f a.1 ≤ f b.1) := by
  have : Std.Total (fun a b : κ × α => f a.1 ≤ f b.1) := ⟨fun a b => le_total _ _⟩
  have : IsTrans (κ × α) (fun a b => f a.1 ≤ f b.1) := ⟨fun a b c => le_trans⟩
  exact List.pairwise_insertionSort _ es

theorem sortOn_of_sorted (f : κ → ι) {es : List (κ × α)}
    (h : es.Pairwise (fun a b => f a.1 ≤ f b.1)) : sortOn f es = es :=
  h.insertionSort_eq

theorem value_unique {es : List (κ × α)} (hn : (keys es).Nodup) {k : κ} {a b : α}
    (ha : (k,a) ∈ es) (hb : (k,b) ∈ es) : a = b :=
  congrArg Prod.snd (List.inj_on_of_nodup_map hn ha hb rfl)

/-- Entries with distinct keys have one sorted listing. -/
theorem sortOn_eq_of_perm {f : κ → ι} {es fs : List (κ × α)}
    (hf : ∀ a ∈ keys es, ∀ b ∈ keys es, f a = f b → a = b) (hn : (keys es).Nodup) (h : es.Perm fs) :
    sortOn f es = sortOn f fs := by
  have hp : (sortOn f es).Perm (sortOn f fs) :=
    (sortOn_perm f es).trans (h.trans (sortOn_perm f fs).symm)
  refine hp.eq_of_pairwise ?_ (sortOn_sorted f es) (sortOn_sorted f fs)
  intro a b ha hb hab hba
  have ha' : a ∈ es := (mem_sortOn f).mp ha
  have hb' : b ∈ es := h.mem_iff.mpr ((mem_sortOn f).mp hb)
  have hk : a.1 = b.1 := hf _ (List.mem_map_of_mem ha') _ (List.mem_map_of_mem hb') (le_antisymm hab hba)
  have hb'' : (a.1,b.2) ∈ es := by
    rw [hk]
    exact hb'
  exact Prod.ext hk (value_unique hn ha' hb'')

/-- With distinct keys a sort forgets the order of the entries and nothing else. -/
theorem sortOn_eq_iff {f : κ → ι} (hf : Function.Injective f) {es fs : List (κ × α)}
    (hn : (keys es).Nodup) : sortOn f es = sortOn f fs ↔ es.Perm fs := by
  constructor
  · intro h
    exact (sortOn_perm f es).symm.trans (h ▸ sortOn_perm f fs)
  · exact sortOn_eq_of_perm (fun a _ b _ he => hf he) hn

/-- Sorting commutes with a translation of the entries that keeps the key order. -/
theorem sortOn_map (f : κ → ι) (f' : κ' → ι') (g : κ × α → κ' × α') (es : List (κ × α))
    (h : ∀ a ∈ es, ∀ b ∈ es, f a.1 ≤ f b.1 ↔ f' (g a).1 ≤ f' (g b).1) :
    (sortOn f es).map g = sortOn f' (es.map g) :=
  List.map_insertionSort _ _ g es h

/-- Keys and values read one by one -/
theorem mapM_entry_eq_some {key : κ → Option κ'} {value : α → Option α'} {es : List (κ × α)} {ms : List (κ' × α')} :
    (es.mapM fun e => do return (← key e.1,← value e.2)) = some ms ↔
      List.Forall₂ (fun e m => key e.1 = some m.1 ∧ value e.2 = some m.2) es ms := by
  have entry (e : κ × α) (m : κ' × α') :
      (do return (← key e.1,← value e.2)) = some m ↔ key e.1 = some m.1 ∧ value e.2 = some m.2 := by
    simp only [Option.bind_eq_bind,Option.pure_def,Option.bind_eq_some_iff,Option.some.injEq]
    constructor
    · rintro ⟨k,hk,v,hv,rfl⟩
      exact ⟨hk,hv⟩
    · exact fun ⟨hk,hv⟩ => ⟨m.1,hk,m.2,hv,rfl⟩
  simp only [CheckChains.mapM_eq_some,entry]

theorem forall₂_of_mem_right {α β : Type} {R : α → β → Prop} {xs : List α} {ys : List β}
    (h : List.Forall₂ R xs ys) {y : β} (hy : y ∈ ys) : ∃ x ∈ xs, R x y := by
  induction h with
  | nil => cases hy
  | cons hr _ ih =>
    rcases List.mem_cons.mp hy with rfl | hy
    · exact ⟨_,by simp,hr⟩
    · obtain ⟨x,hx,hr⟩ := ih hy
      exact ⟨x,List.mem_cons_of_mem _ hx,hr⟩

theorem forall₂_imp_of_mem {α β : Type} {R S : α → β → Prop} {xs : List α} {ys : List β}
    (h : ∀ x ∈ xs, ∀ y, R x y → S x y) (hf : List.Forall₂ R xs ys) : List.Forall₂ S xs ys := by
  induction hf with
  | nil => exact .nil
  | cons hr _ ih => exact .cons (h _ (by simp) _ hr) (ih fun x hx => h x (List.mem_cons_of_mem _ hx))

theorem forall₂_iff_of_mem {α β : Type} {R S : α → β → Prop} {xs : List α} {ys : List β}
    (h : ∀ x ∈ xs, ∀ y, R x y ↔ S x y) : List.Forall₂ R xs ys ↔ List.Forall₂ S xs ys :=
  ⟨forall₂_imp_of_mem fun x hx y => (h x hx y).mp,forall₂_imp_of_mem fun x hx y => (h x hx y).mpr⟩

/-- What holds of corresponding elements alike holds of all of the one list when it does of the other. -/
theorem forall_mem_iff {α β : Type} {R : α → β → Prop} {p : α → Prop} {q : β → Prop} {xs : List α} {ys : List β}
    (h : List.Forall₂ R xs ys) (hpq : ∀ x y, R x y → (p x ↔ q y)) : (∀ x ∈ xs, p x) ↔ ∀ y ∈ ys, q y := by
  induction h with
  | nil => simp
  | cons hr _ ih => rw [List.forall_mem_cons,List.forall_mem_cons,hpq _ _ hr,ih]

theorem exists_forall₂ {α β : Type} {R : α → β → Prop} {xs : List α} (h : ∀ x ∈ xs, ∃ y, R x y) :
    ∃ ys, List.Forall₂ R xs ys := by
  induction xs with
  | nil => exact ⟨[],.nil⟩
  | cons x xs ih =>
    obtain ⟨y,hy⟩ := h x (by simp)
    obtain ⟨ys,hys⟩ := ih fun x hx => h x (List.mem_cons_of_mem _ hx)
    exact ⟨y :: ys,.cons hy hys⟩

theorem exists_forall₂_iff {α β : Type} {R : α → β → Prop} {xs : List α} :
    (∃ ys, List.Forall₂ R xs ys) ↔ ∀ x ∈ xs, ∃ y, R x y := by
  refine ⟨?_,exists_forall₂⟩
  rintro ⟨ys,h⟩ x hx
  obtain ⟨y,_,hr⟩ := forall₂_of_mem_right h.flip hx
  exact ⟨y,hr⟩

/-- Two values chosen for every element are two lists. -/
theorem exists_forall₂_pairs {α β γ : Type} {R : α → γ → Prop} {S : β → γ → Prop} {T : α → β → Prop} {xs : List α}
    (h : ∀ x ∈ xs, ∃ p : β × γ, R x p.2 ∧ S p.1 p.2 ∧ T x p.1) :
    ∃ ys zs, List.Forall₂ R xs zs ∧ List.Forall₂ S ys zs ∧ List.Forall₂ T xs ys := by
  induction xs with
  | nil => exact ⟨[],[],.nil,.nil,.nil⟩
  | cons x xs ih =>
    obtain ⟨p,hr,hs,ht⟩ := h x (by simp)
    obtain ⟨ys,zs,hrs,hss,hts⟩ := ih fun x hx => h x (List.mem_cons_of_mem _ hx)
    exact ⟨p.1 :: ys,p.2 :: zs,.cons hr hrs,.cons hs hss,.cons ht hts⟩

theorem map_eq_iff_forall₂ {α β γ : Type} {g : α → γ} {k : β → γ} {xs : List α} {ys : List β} :
    xs.map g = ys.map k ↔ List.Forall₂ (fun x y => g x = k y) xs ys := by
  rw [← List.forall₂_eq_eq_eq,List.forall₂_map_left_iff,List.forall₂_map_right_iff]

/-- Two steps for every entry are a first step for all and a second for all. -/
theorem forall₂_comp {α β γ : Type} {R : α → β → Prop} {S : β → γ → Prop} {xs : List α} {zs : List γ} :
    List.Forall₂ (fun x z => ∃ y, R x y ∧ S y z) xs zs ↔ ∃ ys, List.Forall₂ R xs ys ∧ List.Forall₂ S ys zs := by
  constructor
  · intro h
    induction h with
    | nil => exact ⟨[],.nil,.nil⟩
    | cons h _ ih =>
      obtain ⟨y,hr,hs⟩ := h
      obtain ⟨ys,hrs,hss⟩ := ih
      exact ⟨y :: ys,.cons hr hrs,.cons hs hss⟩
  · rintro ⟨ys,hrs,hss⟩
    induction hrs generalizing zs with
    | nil =>
      cases hss
      exact .nil
    | cons hr _ ih =>
      cases hss with
      | cons hs hss => exact .cons ⟨_,hr,hs⟩ (ih hss)

/-- Images of intermediate values, entry by entry -/
theorem forall₂_map_image {α β γ : Type} {R : α → γ → Prop} {g : γ → β} {xs : List α} {ys : List β} :
    List.Forall₂ (fun x y => ∃ z, R x z ∧ y = g z) xs ys ↔ ∃ zs, List.Forall₂ R xs zs ∧ ys = zs.map g := by
  have image (zs : List γ) : List.Forall₂ (fun z y => y = g z) zs ys ↔ ys = zs.map g := by
    rw [eq_comm,← List.forall₂_eq_eq_eq,List.forall₂_map_left_iff]
    simp only [eq_comm]
  rw [forall₂_comp]
  exact exists_congr fun zs => and_congr_right fun _ => image zs

/-- Where the values of corresponding entries are images, so are those of the lists. -/
theorem forall₂_iff_map_image {α β γ δ : Type} {R : α → γ → Prop} {C : β → δ → Prop} {g : γ → δ} {xs : List α} {ys : List β}
    (h : List.Forall₂ (fun x y => ∀ b, C y b ↔ ∃ z, R x z ∧ b = g z) xs ys) {bs : List δ} :
    List.Forall₂ C ys bs ↔ ∃ zs, List.Forall₂ R xs zs ∧ bs = zs.map g := by
  rw [← forall₂_map_image]
  constructor
  · intro hc
    exact (forall₂_comp.mpr ⟨ys,h,hc⟩).imp fun _ b ⟨_,hy,hb⟩ => (hy b).mp hb
  · intro hr
    exact (forall₂_comp.mpr ⟨xs,h.flip,hr⟩).imp fun _ b ⟨_,hx,hb⟩ => (hx b).mpr hb

theorem forall₂_image {α β γ : Type} {R : α → γ → Prop} {P : γ → Prop} {g : γ → β} {xs : List α} {ys : List β} :
    List.Forall₂ (fun x y => ∃ z, R x z ∧ P z ∧ y = g z) xs ys ↔
      ∃ zs, List.Forall₂ R xs zs ∧ (∀ z ∈ zs, P z) ∧ ys = zs.map g := by
  have both (zs : List γ) : List.Forall₂ (fun x z => R x z ∧ P z) xs zs ↔ List.Forall₂ R xs zs ∧ ∀ z ∈ zs, P z := by
    constructor
    · intro h
      refine ⟨h.imp fun _ _ => And.left,fun z hz => ?_⟩
      obtain ⟨_,_,_,hp⟩ := forall₂_of_mem_right h hz
      exact hp
    · rintro ⟨h,hp⟩
      exact List.Forall₂.flip (forall₂_imp_of_mem (fun z hz x hr => ⟨hr,hp z hz⟩) h.flip)
  simp only [← and_assoc,forall₂_map_image,both]

/-- Two lists with the same keys, entry by entry -/
theorem forall₂_of_keys {κ α β : Type} {R : α → β → Prop} {xs : List (κ × α)} {ys : List (κ × β)}
    (hkeys : xs.map Prod.fst = ys.map Prod.fst) (h : ∀ k a b, (k,a) ∈ xs → (k,b) ∈ ys → R a b) :
    List.Forall₂ (fun x y => x.1 = y.1 ∧ R x.2 y.2) xs ys := by
  induction xs generalizing ys with
  | nil =>
    cases List.map_eq_nil_iff.mp hkeys.symm
    exact .nil
  | cons x xs ih =>
    cases ys with
    | nil => cases hkeys
    | cons y ys =>
      obtain ⟨k,a⟩ := x
      obtain ⟨l,b⟩ := y
      rw [List.map_cons,List.map_cons,List.cons.injEq] at hkeys
      obtain ⟨rfl,hrest⟩ := hkeys
      exact .cons ⟨rfl,h _ a b (List.mem_cons_self ..) (List.mem_cons_self ..)⟩
        (ih hrest fun _ _ _ hx hy => h _ _ _ (List.mem_cons_of_mem _ hx) (List.mem_cons_of_mem _ hy))

section
variable {ε : Type} [BEq κ'] [LawfulBEq κ'] {key : κ → Except ε κ'} {collision : κ' → ε} {value : α → Except ε α'}

/-- Rename the keys and convert the values entry by entry; `out` holds the entries so far. -/
def collect (key : κ → Except ε κ') (collision : κ' → ε) (value : α → Except ε α') :
    List (κ × α) → List (κ' × α') → Except ε (List (κ' × α'))
  | [], out => .ok out
  | (k,v) :: es, out => do
    let k' ← key k
    failIf (k' ∈ keys out) (collision k')
    let w ← value v
    collect key collision value es (out ++ [(k',w)])

/-- The loop succeeds when every entry does and no two of the new keys are equal. -/
theorem collect_eq_ok {es : List (κ × α)} (out : List (κ' × α')) {kvs : List (κ' × α')} (hn : (keys out).Nodup) :
    collect key collision value es out = .ok kvs ↔ ∃ new, kvs = out ++ new ∧
      List.Forall₂ (fun e kv => key e.1 = .ok kv.1 ∧ value e.2 = .ok kv.2) es new ∧ (keys kvs).Nodup := by
  induction es generalizing out with
  | nil =>
    simp only [collect,List.forall₂_nil_left_iff]
    constructor
    · intro h
      cases h
      exact ⟨[],by simp,rfl,hn⟩
    · rintro ⟨new,rfl,rfl,_⟩
      simp
  | cons e es ih =>
    simp only [collect,CheckChains.bind_eq_ok,CheckChains.failIf_eq_ok]
    constructor
    · rintro ⟨k,hk,_,hfresh,w,hw,hrest⟩
      have hn' : (keys (out ++ [(k,w)])).Nodup := by
        rw [keys,List.map_append,List.nodup_append]
        refine ⟨hn,List.nodup_singleton _,?_⟩
        rintro a ha b hb rfl
        rw [List.map_singleton,List.mem_singleton] at hb
        subst hb
        exact hfresh ha
      obtain ⟨new,he,hf,hnd⟩ := (ih _ hn').mp hrest
      exact ⟨(k,w) :: new,by simp [he],.cons ⟨hk,hw⟩ hf,hnd⟩
    · rintro ⟨new,he,hf,hnd⟩
      obtain ⟨⟨k,w⟩,rest,⟨hk,hw⟩,hf',rfl⟩ := List.forall₂_cons_left_iff.mp hf
      have he' : kvs = (out ++ [(k,w)]) ++ rest := by simp [he]
      have hn' : (keys (out ++ [(k,w)])).Nodup := by
        rw [he',keys,List.map_append] at hnd
        exact (List.nodup_append.mp hnd).1
      refine ⟨k,hk,(),fun hmem => ?_,w,hw,(ih _ hn').mpr ⟨rest,he',hf',hnd⟩⟩
      rw [keys,List.map_append,List.nodup_append] at hn'
      exact hn'.2.2 k hmem k (by simp) rfl

end

/-- Entries whose keys are codes of texts and whose values all succeed, read back. -/
theorem exists_values {ε γ : Type} {code : κ' → γ} {text : κ → κ' → Prop} {value : α → Except ε α'}
    {es : List (κ × α)} {ns : List (γ × Except ε α')}
    (hf : List.Forall₂ (fun e n => (∃ k, text e.1 k ∧ n.1 = code k) ∧ value e.2 = n.2) es ns)
    (hok : ∀ n ∈ ns, ∃ v, n.2 = .ok v) : ∃ ms : List (κ' × α'), ns = ms.map (fun m => (code m.1,.ok m.2)) ∧
      List.Forall₂ (fun e m => text e.1 m.1 ∧ value e.2 = .ok m.2) es ms := by
  induction hf with
  | nil => exact ⟨[],rfl,.nil⟩
  | @cons e n es ns h _ ih =>
    obtain ⟨⟨k,hk,hn⟩,hv⟩ := h
    obtain ⟨v,hok'⟩ := hok n (by simp)
    obtain ⟨ms,rfl,hms⟩ := ih fun n hn => hok n (List.mem_cons_of_mem _ hn)
    exact ⟨(k,v) :: ms,by rw [List.map_cons,← hn,← hok'],.cons ⟨hk,hv.trans hok'⟩ hms⟩

section
variable [BEq κ] [LawfulBEq κ] [BEq κ'] [LawfulBEq κ'] {es fs : List (κ × α)} {k : κ}

theorem lookup_eq_some (hn : (keys es).Nodup) {v : α} : es.lookup k = some v ↔ (k,v) ∈ es := by
  rw [List.lookup_eq_some_iff]
  constructor
  · rintro ⟨l,r,rfl,_⟩
    simp
  · intro h
    obtain ⟨l,r,rfl⟩ := List.append_of_mem h
    refine ⟨l,r,rfl,fun p hp => bne_iff_ne.mpr ?_⟩
    rw [keys,List.map_append,List.nodup_append] at hn
    exact (hn.2.2 _ (List.mem_map_of_mem hp) k (by simp)).symm

theorem lookup_perm (hn : (keys es).Nodup) (h : es.Perm fs) : es.lookup k = fs.lookup k := by
  ext v
  rw [lookup_eq_some hn,lookup_eq_some ((h.map _).nodup_iff.mp hn),h.mem_iff]

/-- Listings that correspond entry by entry find corresponding values. -/
theorem lookup_rel {S : α → α' → Prop} {k' : κ'} {gs : List (κ' × α')}
    (h : List.Forall₂ (fun e g => (e.1 = k ↔ g.1 = k') ∧ S e.2 g.2) es gs) :
    Option.Rel S (es.lookup k) (gs.lookup k') := by
  induction h with
  | nil => exact .none
  | @cons e g _ _ hr _ ih =>
    obtain ⟨i,v⟩ := e
    obtain ⟨j,w⟩ := g
    by_cases hi : i = k
    · have hj := hr.1.mp hi
      dsimp only at hj
      subst hi hj
      simpa only [List.lookup_cons_self] using Option.Rel.some hr.2
    · have hj : ¬ j = k' := fun hj => hi (hr.1.mpr hj)
      rw [List.lookup_cons,List.lookup_cons,beq_false_of_ne (Ne.symm hi),beq_false_of_ne (Ne.symm hj)]
      exact ih

end

end ExecutionFinality.KeyedEntries
