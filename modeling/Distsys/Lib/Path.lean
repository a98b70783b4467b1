import Mathlib.Data.List.Basic
import Mathlib.Tactic.Common

/-! Paths as lists of segments, and where they lead lexically: a `.` stays, a `..` goes back one
    segment, every other segment goes one down. -/

namespace Distsys
namespace Path
variable {σ : Type} [DecidableEq σ]

/-- One segment from the directory that the segments `at_` lead to. -/
def step (dot dotdot : σ) (at_ : List σ) (s : σ) : List σ :=
  if s = dot then at_ else if s = dotdot then at_.dropLast else at_ ++ [s]

/-- Where a path leads from a directory. -/
def resolve (dot dotdot : σ) (from_ : List σ) (segments : List σ) : List σ :=
  segments.foldl (step dot dotdot) from_

section
variable {dot dotdot : σ} {from_ u v : List σ}

theorem resolve_append : resolve dot dotdot from_ (u ++ v) = resolve dot dotdot (resolve dot dotdot from_ u) v := by
  simp [resolve]

/-- A path without `..` never leaves the directory that it starts from. -/
theorem prefix_resolve : ∀ {v from_ : List σ}, dotdot ∉ v → from_ <+: resolve dot dotdot from_ v
  | [], from_, _ => List.prefix_refl _
  | s :: v, from_, h => by
    have hs : s ≠ dotdot := fun heq => h (by simp [heq])
    have ih : step dot dotdot from_ s <+: resolve dot dotdot (step dot dotdot from_ s) v :=
      prefix_resolve fun hv => h (List.mem_cons_of_mem _ hv)
    have hstep : from_ <+: step dot dotdot from_ s := by
      unfold step
      rw [if_neg hs]
      split
      · exact List.prefix_refl _
      · exact List.prefix_append _ _
    exact hstep.trans ih

end
end Path

end Distsys
