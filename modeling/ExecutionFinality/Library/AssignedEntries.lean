import ExecutionFinality.Library.KeyedEntries

/-! Entries written into a mapping in turn: the last one of a key is the one that stays. -/
namespace ExecutionFinality.KeyedEntries
variable {κ κ' α α' : Type} [DecidableEq κ] [DecidableEq κ']

/-- Write an entry into a mapping; a key that is there keeps its place. -/
def assign (k : κ) (v : α) : List (κ × α) → List (κ × α)
  | [] => [(k,v)]
  | e :: es => if e.1 = k then (k,v) :: es else e :: assign k v es

/-- The mapping of the entries written in turn -/
def assigned (es : List (κ × α)) : List (κ × α) := es.foldl (fun out e => assign e.1 e.2 out) []

theorem mem_assign {k : κ} {v : α} {es : List (κ × α)} {e : κ × α} (h : e ∈ assign k v es) : e = (k,v) ∨ e ∈ es := by
  induction es with
  | nil => exact .inl (List.mem_singleton.mp h)
  | cons d es ih =>
    rw [assign] at h
    split at h
    · exact (List.mem_cons.mp h).imp_right (List.mem_cons_of_mem _)
    · rcases List.mem_cons.mp h with rfl | h
      · exact .inr (List.mem_cons_self ..)
      · exact (ih h).imp_right (List.mem_cons_of_mem _)

theorem mem_keys_assign {k l : κ} {v : α} {es : List (κ × α)} : l ∈ keys (assign k v es) ↔ l = k ∨ l ∈ keys es := by
  induction es with
  | nil => simp [assign]
  | cons d es ih =>
    rw [assign]
    split
    · rename_i hd
      simp [keys,hd]
    · change l ∈ d.1 :: keys (assign k v es) ↔ l = k ∨ l ∈ d.1 :: keys es
      rw [List.mem_cons,List.mem_cons,ih]
      exact or_left_comm

theorem nodup_assign {k : κ} {v : α} {es : List (κ × α)} (h : (keys es).Nodup) : (keys (assign k v es)).Nodup := by
  induction es with
  | nil => simp [assign]
  | cons d es ih =>
    obtain ⟨hd,hes⟩ := List.nodup_cons.mp h
    rw [assign]
    split
    · rename_i hk
      exact List.nodup_cons.mpr ⟨hk ▸ hd,hes⟩
    · rename_i hk
      refine List.nodup_cons.mpr ⟨fun hmem => ?_,ih hes⟩
      rcases mem_keys_assign.mp hmem with he | he
      · exact hk he
      · exact hd he

theorem assign_of_notMem {k : κ} {v : α} {es : List (κ × α)} (h : k ∉ keys es) : assign k v es = es ++ [(k,v)] := by
  induction es with
  | nil => rfl
  | cons d es ih =>
    obtain ⟨hd,hes⟩ := not_or.mp (List.mem_cons.not.mp h)
    rw [assign,if_neg (Ne.symm hd),ih hes]
    rfl

/-- A translation of entries that confuses no key commutes with writing. -/
theorem assign_map {f : κ → κ'} {g : α → α'} {k : κ} {v : α} {es : List (κ × α)}
    (hf : ∀ l ∈ keys es, f l = f k → l = k) :
    (assign k v es).map (fun e => (f e.1,g e.2)) = assign (f k) (g v) (es.map fun e => (f e.1,g e.2)) := by
  induction es with
  | nil => rfl
  | cons d es ih =>
    have hd := hf d.1 (List.mem_cons_self ..)
    have hes := ih fun l hl => hf l (List.mem_cons_of_mem _ hl)
    by_cases hk : d.1 = k
    · simp only [assign,List.map_cons,hk,if_true]
    · simp only [assign,List.map_cons,if_neg hk,if_neg fun he => hk (hd he),hes]

private theorem assigned_from {P : List (κ × α) → Prop} {es out : List (κ × α)} (h0 : P out)
    (h : ∀ e ∈ es, ∀ out, P out → P (assign e.1 e.2 out)) : P (es.foldl (fun out e => assign e.1 e.2 out) out) := by
  induction es generalizing out with
  | nil => exact h0
  | cons e es ih => exact ih (h e (List.mem_cons_self ..) out h0) fun d hd => h d (List.mem_cons_of_mem _ hd)

theorem nodup_assigned (es : List (κ × α)) : (keys (assigned es)).Nodup :=
  assigned_from (P := fun out => (keys out).Nodup) List.nodup_nil fun _ _ _ h => nodup_assign h

theorem mem_of_mem_assigned {es : List (κ × α)} {e : κ × α} (h : e ∈ assigned es) : e ∈ es := by
  have hall : ∀ d ∈ assigned es, d ∈ es := assigned_from (P := fun out => ∀ d ∈ out, d ∈ es) (by simp) fun e he out ih d hd => by
    rcases mem_assign hd with rfl | hd
    · exact he
    · exact ih d hd
  exact hall e h

/-- Every key is in the mapping. -/
theorem mem_keys_assigned {es : List (κ × α)} {k : κ} (h : k ∈ keys es) : k ∈ keys (assigned es) := by
  have grow : ∀ (es out : List (κ × α)), k ∈ keys es ∨ k ∈ keys out →
      k ∈ keys (es.foldl (fun out e => assign e.1 e.2 out) out) := by
    intro es
    induction es with
    | nil => exact fun out h => h.resolve_left (by simp)
    | cons e es ih =>
      intro out h
      apply ih
      rcases h with h | h
      · rcases List.mem_cons.mp h with rfl | h
        · exact .inr (mem_keys_assign.mpr (.inl rfl))
        · exact .inl h
      · exact .inr (mem_keys_assign.mpr (.inr h))
  exact grow es [] (.inl h)

/-- Entries of distinct keys are the mapping that they make. -/
theorem assigned_of_nodup {es : List (κ × α)} (h : (keys es).Nodup) : assigned es = es := by
  have append : ∀ (es out : List (κ × α)), (keys (out ++ es)).Nodup →
      es.foldl (fun out e => assign e.1 e.2 out) out = out ++ es := by
    intro es
    induction es with
    | nil => simp
    | cons e es ih =>
      intro out hn
      have hsplit : out ++ e :: es = (out ++ [e]) ++ es := by simp
      have hfresh : e.1 ∉ keys out := by
        rw [keys,List.map_append,List.nodup_append] at hn
        exact fun he => hn.2.2 e.1 he e.1 (by simp) rfl
      rw [List.foldl_cons,assign_of_notMem hfresh,hsplit]
      exact ih _ (hsplit ▸ hn)
  exact append es [] h

theorem assigned_map {f : κ → κ'} {g : α → α'} {es : List (κ × α)}
    (hf : ∀ k ∈ keys es, ∀ l ∈ keys es, f k = f l → k = l) :
    assigned (es.map fun e => (f e.1,g e.2)) = (assigned es).map fun e => (f e.1,g e.2) := by
  have fold : ∀ (ds out : List (κ × α)), (∀ k ∈ keys ds, k ∈ keys es) → (∀ k ∈ keys out, k ∈ keys es) →
      (ds.map fun e => (f e.1,g e.2)).foldl (fun out e => assign e.1 e.2 out) (out.map fun e => (f e.1,g e.2)) =
        (ds.foldl (fun out e => assign e.1 e.2 out) out).map fun e => (f e.1,g e.2) := by
    intro ds
    induction ds with
    | nil => exact fun _ _ _ => rfl
    | cons d ds ih =>
      intro out hds hout
      have hd := hds d.1 (List.mem_cons_self ..)
      rw [List.map_cons,List.foldl_cons,List.foldl_cons,← assign_map fun l hl he => hf l (hout l hl) d.1 hd he]
      refine ih _ (fun k hk => hds k (List.mem_cons_of_mem _ hk)) fun k hk => ?_
      rcases mem_keys_assign.mp hk with rfl | hk
      · exact hd
      · exact hout k hk
  exact fold es [] (fun _ h => h) (by simp)

end ExecutionFinality.KeyedEntries
