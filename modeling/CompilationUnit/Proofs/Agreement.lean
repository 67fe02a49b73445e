import CompilationUnit.Proofs.Reachability
import CompilationUnit.Proofs.Walk

/-! Searches and walks over two registries. A search goes the same way in both as long as both tell it
the same; a walk sees nothing of a registry but its live entries. -/
namespace CompilationUnit

variable {r other : Registry} {live : List String}

namespace Search

theorem runAgrees {P : Search → Prop} {s : Search}
    (keeps : ∀ {s next}, P s → s.step r = some next → P next)
    (agrees : ∀ {s}, P s → s.step r = s.step other) (holds : P s) : s.run r = s.run other := by
  fun_induction run r s with
  | case1 s stops =>
    rw [agrees holds] at stops
    rw [run]
    split <;> simp_all
  | case2 s next steps ih =>
    have later := keeps holds steps
    rw [agrees holds] at steps
    rw [ih later, run.eq_def other s]
    split <;> simp_all

end Search

namespace Walk

theorem targetSame (same : r.starts live = other.starts live) (name : String) :
    target? r live name = target? other live name := by
  refine Option.ext fun e => ?_
  rw [targetIff, targetIff, same]

theorem stepSame (same : r.starts live = other.starts live) (w : Walk) :
    w.step r live = w.step other live := by
  unfold step
  simp only [targetSame same]

theorem runSame (same : r.starts live = other.starts live) (w : Walk) :
    w.run r live = w.run other live := by
  fun_induction run r live w with
  | case1 w stops =>
    rw [stepSame same] at stops
    rw [run]
    split <;> simp_all
  | case2 w next steps ih =>
    rw [stepSame same] at steps
    rw [ih, run.eq_def other live w]
    split <;> simp_all

end Walk

theorem Registry.sequenceSame (same : r.starts live = other.starts live) :
    r.sequence live = other.sequence live := by
  have visit : Walk.visit r live = Walk.visit other live := by
    funext w entry
    unfold Walk.visit
    rw [Walk.runSame same]
  unfold Registry.sequence
  rw [same, visit]

end CompilationUnit
