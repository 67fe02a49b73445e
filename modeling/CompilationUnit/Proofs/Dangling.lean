import CompilationUnit.Proofs.Reachability

/-! Dependencies on names that are not registered. A function leaves the stack of the search only once, so
each name it misses is recorded once, whatever leads to the function and whoever else misses the name. -/
namespace CompilationUnit
namespace Search

variable {r : Registry} {s : Search}

theorem stepDanglingOnce {next : Search} (sound : s.Accounted r) (once : s.dangling.Nodup)
    (h : s.step r = some next) : next.dangling.Nodup := by
  obtain ⟨e, looked⟩ := stepLooked sound.stacked sound.registered h
  have missing : (e.dependencies.names.filter fun name => !r.contains name).Nodup :=
    e.dependencies.distinct.filter _
  rw [looked.dangling, List.nodup_append]
  constructor
  · exact once
  constructor
  · exact missing.map fun _ _ same => congrArg Edge.callee same
  · rintro edge old _ new rfl
    obtain ⟨callee, _, rfl⟩ := List.mem_map.mp new
    -- Nothing is recorded yet of a function that waits on the stack.
    have explored := ((sound.dangling e.name callee).mp old).1
    exact explored.2 looked.waiting

theorem runDanglingOnce (sound : s.Accounted r) (once : s.dangling.Nodup) :
    (s.run r).dangling.Nodup := by
  induction s using run.induct r with
  | case1 s stopped =>
    rw [run, stopped]
    exact once
  | case2 s next continues ih =>
    rw [run, continues]
    exact ih (stepAccounted sound continues) (stepDanglingOnce sound once continues)

end Search

namespace Registry

theorem danglingOnce (r : Registry) : r.reachable.dangling.Nodup := by
  have none : (Search.start r).dangling = [] := Search.markAllDangling _ Search.blank
  exact Search.runDanglingOnce (Search.startAccounted r) (none ▸ List.nodup_nil)

theorem missingDependenciesRecorded (r : Registry) :
    (∀ caller callee, ⟨caller, callee⟩ ∈ r.reachable.dangling ↔
      caller ∈ r.names ∧ r.Reached caller ∧ r.Depends caller callee ∧ callee ∉ r.names) ∧
    r.reachable.dangling.Nodup ∧ r.extraction.report.dangling = r.reachable.dangling := by
  refine ⟨fun caller callee => ?_, danglingOnce r, rfl⟩
  rw [danglingIff]
  constructor
  · intro found
    exact ⟨reachedRegistered found.1, found⟩
  · exact And.right

end Registry
end CompilationUnit
