import ExecutionFinality.Library.PointUpdates
import ExecutionFinality.Library.Runs
import Mathlib.Data.Set.Insert

/-! A ledger of single-use tokens: issuers mint distinct tokens, a use claims a token
that nobody claimed before, and only a use with a claim takes effect. -/
namespace ExecutionFinality
open Function (update)

structure TokenLedger (ι υ τ : Type) where
  minted : ι → Option τ
  claimed : υ → Option τ
  used : Set υ

namespace TokenLedger
variable {ι υ τ : Type} [DecidableEq ι] [DecidableEq υ]

inductive Action (ι υ τ : Type)
  | mint (i : ι) (t : τ)
  | claim (u : υ) (t : τ)
  | use (u : υ)

inductive Step : TokenLedger ι υ τ → Action ι υ τ → TokenLedger ι υ τ → Prop
  | mint {L : TokenLedger ι υ τ} {i : ι} {t : τ} (hi : L.minted i = none)
      (ht : ∀ j, L.minted j ≠ some t) :
    Step L (.mint i t) { L with minted := update L.minted i (some t) }
  | claim {L : TokenLedger ι υ τ} {u : υ} {t : τ} (hu : L.claimed u = none)
      (hm : ∃ i, L.minted i = some t) (ht : ∀ v, L.claimed v ≠ some t) :
    Step L (.claim u t) { L with claimed := update L.claimed u (some t) }
  | use {L : TokenLedger ι υ τ} {u : υ} {t : τ} (hu : L.claimed u = some t) :
    Step L (.use u) { L with used := insert u L.used }

def machine : Machine (TokenLedger ι υ τ) (Action ι υ τ) where
  Init L := (∀ i, L.minted i = none) ∧ (∀ u, L.claimed u = none) ∧ L.used = ∅
  Step := Step

structure Sound (L : TokenLedger ι υ τ) : Prop where
  minted_inj : ∀ i j t, L.minted i = some t → L.minted j = some t → i = j
  claimed_inj : ∀ u v t, L.claimed u = some t → L.claimed v = some t → u = v
  claimed_minted : ∀ u t, L.claimed u = some t → ∃ i, L.minted i = some t
  used_claimed : ∀ u ∈ L.used, ∃ t, L.claimed u = some t

/-- A fresh value at one more index keeps a partial assignment injective. -/
private theorem update_inj {κ : Type} [DecidableEq κ] {f : κ → Option τ} {k : κ} {t : τ}
    (hinj : ∀ i j t, f i = some t → f j = some t → i = j) (hnew : ∀ j, f j ≠ some t) :
    ∀ i j t', update f k (some t) i = some t' → update f k (some t) j = some t' → i = j := by
  intro i j t' hi hj
  rcases update_cases hi with ⟨rfl,ht⟩ | ⟨_,hfi⟩ <;> rcases update_cases hj with ⟨rfl,ht'⟩ | ⟨_,hfj⟩
  · rfl
  · exact absurd (hfj.trans ht.symm) (hnew j)
  · exact absurd (hfi.trans ht'.symm) (hnew i)
  · exact hinj i j t' hfi hfj

theorem sound_preserved : Machine.Preserved (machine : Machine (TokenLedger ι υ τ) (Action ι υ τ))
    (fun _ _ => True) Sound where
  init L h := ⟨by simp [h.1],by simp [h.2.1],by simp [h.2.1],by simp [h.2.2]⟩
  step := by
    rintro L a L' - ⟨hmi,hci,hcm,hu⟩ - hs
    cases hs with
    | mint hi ht =>
      refine ⟨update_inj hmi ht,hci,fun u t' h => ?_,hu⟩
      obtain ⟨j,hj⟩ := hcm u t' h
      exact ⟨j,update_kept (by simp [hi]) hj⟩
    | @claim u t hu' hm ht =>
      refine ⟨hmi,update_inj hci ht,fun v t' h => ?_,fun v hv => ?_⟩
      · rcases update_cases h with ⟨_,ht'⟩ | ⟨_,h⟩
        · cases ht'
          exact hm
        · exact hcm v t' h
      · obtain ⟨t',h⟩ := hu v hv
        exact ⟨t',update_kept (by simp [hu']) h⟩
    | use h =>
      refine ⟨hmi,hci,hcm,fun v hv => ?_⟩
      rcases Set.mem_insert_iff.mp hv with rfl | hv
      · exact ⟨_,h⟩
      · exact hu v hv

/-- The uses inject into the mints, each into the mint of the token it claimed. -/
theorem exists_injection {L : TokenLedger ι υ τ} (h : Machine.Reaches machine (fun _ _ => True) L) :
    ∃ f : L.used → ι, Function.Injective f ∧
      ∀ u : L.used, ∃ t, L.claimed u = some t ∧ L.minted (f u) = some t := by
  have hs := h.invariant sound_preserved
  have mint (u : L.used) : ∃ i t, L.claimed u = some t ∧ L.minted i = some t := by
    obtain ⟨t,ht⟩ := hs.used_claimed u u.2
    obtain ⟨i,hi⟩ := hs.claimed_minted u t ht
    exact ⟨i,t,ht,hi⟩
  choose f hf using mint
  refine ⟨f,fun u v huv => ?_,hf⟩
  obtain ⟨t,hu,hmu⟩ := hf u
  obtain ⟨t',hv,hmv⟩ := hf v
  rw [huv,hmv] at hmu
  cases hmu
  exact Subtype.ext (hs.claimed_inj u v t hu hv)

end TokenLedger
end ExecutionFinality
