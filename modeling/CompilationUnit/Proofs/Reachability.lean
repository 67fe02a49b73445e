import CompilationUnit.Proofs.Dependency

/-! The search from the entry points finds live exactly the names on a path of stored dependencies,
and records exactly the dependencies of these names that are not registered. -/
namespace CompilationUnit
namespace Search

variable {r : Registry} {s : Search}

theorem markLive (s : Search) (name other : String) :
    other ∈ (s.mark name).live.names ↔ other ∈ s.live.names ∨ other = name := by
  unfold mark
  split
  · rename_i known
    refine ⟨?_, ?_⟩
    · exact Or.inl
    · intro found
      rcases found with member | rfl
      · exact member
      · exact known
  · exact NameSet.memInsert

theorem markPending (s : Search) (name other : String) :
    other ∈ (s.mark name).pending ↔ other ∈ s.pending ∨ other = name ∧ other ∉ s.live.names := by
  unfold mark
  split
  · rename_i known
    refine ⟨?_, ?_⟩
    · exact Or.inl
    · intro found
      rcases found with member | ⟨rfl, fresh⟩
      · exact member
      · exact absurd known fresh
  · rename_i fresh
    rw [List.mem_cons, or_comm]
    refine ⟨?_, ?_⟩
    · intro found
      rcases found with member | rfl
      · exact .inl member
      · exact .inr ⟨rfl, fresh⟩
    · intro found
      rcases found with member | ⟨same, _⟩
      · exact .inl member
      · exact .inr same

theorem markDangling (s : Search) (name : String) : (s.mark name).dangling = s.dangling := by
  unfold mark
  split <;> rfl

structure Stacked (s : Search) : Prop where
  live : ∀ name ∈ s.pending, name ∈ s.live.names
  once : s.pending.Nodup

theorem markStacked (stacked : s.Stacked) (name : String) : (s.mark name).Stacked := by
  unfold mark
  split
  · exact stacked
  · rename_i fresh
    refine ⟨?_, ?_⟩
    · intro other member
      rw [NameSet.memInsert]
      rcases List.mem_cons.mp member with same | old
      · exact .inr same
      · exact .inl (stacked.live other old)
    · exact List.nodup_cons.mpr ⟨fun old => fresh (stacked.live name old), stacked.once⟩

theorem markAllLive (names : List String) (s : Search) (other : String) :
    other ∈ (names.foldl mark s).live.names ↔ other ∈ s.live.names ∨ other ∈ names := by
  induction names generalizing s with
  | nil => simp
  | cons name names ih => rw [List.foldl_cons, ih, markLive, List.mem_cons, or_assoc]

theorem markAllPending (names : List String) (s : Search) (other : String) :
    other ∈ (names.foldl mark s).pending ↔
      other ∈ s.pending ∨ other ∈ names ∧ other ∉ s.live.names := by
  induction names generalizing s with
  | nil => simp
  | cons name names ih =>
    rw [List.foldl_cons, ih, markPending, markLive, List.mem_cons]
    by_cases same : other = name <;> simp [same]

theorem markAllStacked (names : List String) (stacked : s.Stacked) :
    (names.foldl mark s).Stacked := by
  induction names generalizing s with
  | nil => exact stacked
  | cons name names ih => exact ih (markStacked stacked name)

theorem markAllDangling (names : List String) (s : Search) :
    (names.foldl mark s).dangling = s.dangling := by
  induction names generalizing s with
  | nil => rfl
  | cons name names ih => rw [List.foldl_cons, ih, markDangling]

theorem markAllFrame (names : List String) (s : Search) (edges : List Edge) :
    names.foldl mark { s with dangling := edges } =
      { names.foldl mark s with dangling := edges } := by
  induction names generalizing s with
  | nil => rfl
  | cons name names ih =>
    have single : mark { s with dangling := edges } name =
        { s.mark name with dangling := edges } := by
      unfold mark
      split <;> rfl
    rw [List.foldl_cons, single, ih, List.foldl_cons]

theorem followAll (names : List String) (caller : String) (s : Search) :
    names.foldl (follow r caller) s =
      { (names.filter r.contains).foldl mark s with
        dangling := s.dangling ++ (names.filter fun name => !r.contains name).map (Edge.mk caller) } := by
  induction names generalizing s with
  | nil => simp
  | cons name names ih =>
    rw [List.foldl_cons, ih]
    cases known : r.contains name with
    | true => simp [follow, known, markDangling]
    | false => simp [follow, known, markAllFrame]

def Explored (s : Search) (name : String) : Prop := name ∈ s.live.names ∧ name ∉ s.pending

structure Looked (r : Registry) (s next : Search) (e : Entry) : Prop where
  member : e ∈ r.entries
  waiting : e.name ∈ s.pending
  stacked : next.Stacked
  live : ∀ other, other ∈ next.live.names ↔ other ∈ s.live.names ∨ r.Leads e.name other
  explored : ∀ other, next.Explored other ↔ s.Explored other ∨ other = e.name
  dangling : next.dangling = s.dangling ++
    (e.dependencies.names.filter fun name => !r.contains name).map (Edge.mk e.name)

theorem stepLooked {next : Search} (stacked : s.Stacked)
    (registered : ∀ name ∈ s.live.names, name ∈ r.names) (h : s.step r = some next) :
    ∃ e, Looked r s next e := by
  unfold step at h
  split at h
  · contradiction
  rename_i name rest pending
  have nameLive : name ∈ s.live.names := stacked.live name (by simp [pending])
  have nameOnce : name ∉ rest ∧ rest.Nodup := by simpa [pending] using stacked.once
  obtain ⟨e, member, rfl⟩ := List.mem_map.mp (registered name nameLive)
  rw [Registry.getIff.mpr ⟨member, rfl⟩] at h
  dsimp only at h
  rw [followAll, Option.some.injEq] at h
  have known : ∀ other, other ∈ e.dependencies.names.filter r.contains ↔ r.Leads e.name other := by
    intro other
    rw [List.mem_filter, Registry.containsIff, Registry.Leads, Registry.dependsIff member]
  have live : ∀ other, other ∈ next.live.names ↔ other ∈ s.live.names ∨ r.Leads e.name other := by
    intro other
    rw [← h, ← known]
    exact markAllLive _ _ other
  have popped : ∀ other, other ∈ next.pending ↔
      other ∈ rest ∨ r.Leads e.name other ∧ other ∉ s.live.names := by
    intro other
    rw [← h, ← known]
    exact markAllPending _ _ other
  have before : ({ s with pending := rest } : Search).Stacked :=
    ⟨fun other old => stacked.live other (by simp [pending, old]), nameOnce.2⟩
  have after := markAllStacked (e.dependencies.names.filter r.contains) before
  refine ⟨e, member, by simp [pending], ?_, live, ?_, ?_⟩
  · rw [← h]
    exact ⟨after.live, after.once⟩
  · intro other
    rw [Explored, live, popped, Explored, pending, List.mem_cons]
    by_cases same : other = e.name
    · simp [same, nameLive, nameOnce.1]
    · simp only [same, false_or, or_false]
      tauto
  · rw [← h]

structure Accounted (r : Registry) (s : Search) : Prop where
  stacked : s.Stacked
  entryPoints : ∀ e ∈ r.entries, e.isEntryPoint = true → e.name ∈ s.live.names
  reached : ∀ name ∈ s.live.names, r.Reached name
  followed : ∀ caller callee, s.Explored caller → r.Leads caller callee → callee ∈ s.live.names
  dangling : ∀ caller callee, ⟨caller, callee⟩ ∈ s.dangling ↔
    s.Explored caller ∧ r.Depends caller callee ∧ callee ∉ r.names

theorem Accounted.registered (sound : s.Accounted r) : ∀ name ∈ s.live.names, name ∈ r.names :=
  fun name isLive => Registry.reachedRegistered (sound.reached name isLive)

theorem startAccounted (r : Registry) : (start r).Accounted r := by
  have live : ∀ name, name ∈ (start r).live.names ↔ name ∈ r.entryPoints.map Entry.name := by
    intro name
    exact (markAllLive _ blank name).trans (by simp [blank, NameSet.empty])
  have unexplored : ∀ name, ¬ (start r).Explored name := by
    intro name explored
    have pending := (markAllPending (r.entryPoints.map Entry.name) blank name).mpr
    exact explored.2 (pending (.inr ⟨(live name).mp explored.1, by simp [blank, NameSet.empty]⟩))
  refine ⟨?_, ?_, ?_, ?_, ?_⟩
  · exact markAllStacked _ ⟨by simp [blank], by simp [blank]⟩
  · intro e member isEntry
    rw [live]
    exact List.mem_map.mpr ⟨e, List.mem_filter.mpr ⟨member, isEntry⟩, rfl⟩
  · intro name isLive
    obtain ⟨e, entry, rfl⟩ := List.mem_map.mp ((live name).mp isLive)
    obtain ⟨member, isEntry⟩ := List.mem_filter.mp entry
    exact ⟨e, member, isEntry, .refl⟩
  · intro caller callee explored
    exact absurd explored (unexplored caller)
  · intro caller callee
    have none : (start r).dangling = [] := markAllDangling _ blank
    simp [none, unexplored caller]

theorem stepAccounted {next : Search} (sound : s.Accounted r) (h : s.step r = some next) :
    next.Accounted r := by
  obtain ⟨e, looked⟩ := stepLooked sound.stacked sound.registered h
  refine ⟨?_, ?_, ?_, ?_, ?_⟩
  · exact looked.stacked
  · intro entry present isEntry
    exact (looked.live entry.name).mpr (.inl (sound.entryPoints entry present isEntry))
  · intro other isLive
    rcases (looked.live other).mp isLive with old | leads
    · exact sound.reached other old
    · have waiting := sound.stacked.live e.name looked.waiting
      obtain ⟨entry, present, isEntry, path⟩ := sound.reached e.name waiting
      exact ⟨entry, present, isEntry, path.tail leads⟩
  · intro caller callee explored leads
    rcases (looked.explored caller).mp explored with old | rfl
    · exact (looked.live callee).mpr (.inl (sound.followed caller callee old leads))
    · exact (looked.live callee).mpr (.inr leads)
  · intro caller callee
    have unknown : (⟨caller, callee⟩ : Edge) ∈
        (e.dependencies.names.filter fun name => !r.contains name).map (Edge.mk e.name) ↔
          caller = e.name ∧ r.Depends e.name callee ∧ callee ∉ r.names := by
      rw [Registry.dependsIff looked.member, ← Registry.containsIff]
      simp only [List.mem_map, List.mem_filter, Edge.mk.injEq]
      grind
    rw [looked.dangling, List.mem_append, sound.dangling, looked.explored, unknown]
    refine ⟨?_, ?_⟩
    · intro recorded
      rcases recorded with ⟨old, missing⟩ | ⟨rfl, missing⟩
      · exact ⟨.inl old, missing⟩
      · exact ⟨.inr rfl, missing⟩
    · intro found
      obtain ⟨old | rfl, missing⟩ := found
      · exact .inl ⟨old, missing⟩
      · exact .inr ⟨rfl, missing⟩

theorem stepStops (h : s.step r = none) : s.pending = [] := by
  unfold step at h
  split at h
  · assumption
  · dsimp only at h
    split at h <;> contradiction

theorem runAccounted (sound : s.Accounted r) : (s.run r).Accounted r ∧ (s.run r).pending = [] := by
  induction s using run.induct r with
  | case1 s stopped =>
    rw [run, stopped]
    exact ⟨sound, stepStops stopped⟩
  | case2 s next continues ih =>
    rw [run, continues]
    exact ih (stepAccounted sound continues)

end Search

namespace Registry

variable {r : Registry}

theorem exploredAll {name : String} :
    ((Search.start r).run r).Explored name ↔ name ∈ r.reachable.live.names := by
  have done := (Search.runAccounted (Search.startAccounted r)).2
  simp [Search.Explored, done, reachable]

theorem reachableIff {name : String} : name ∈ r.reachable.live.names ↔ r.Reached name := by
  have sound := (Search.runAccounted (Search.startAccounted r)).1
  refine ⟨?_, ?_⟩
  · exact sound.reached name
  · intro reached
    obtain ⟨e, member, isEntry, path⟩ := reached
    induction path with
    | refl => exact sound.entryPoints e member isEntry
    | tail before leads ih => exact sound.followed _ _ (exploredAll.mpr ih) leads

theorem danglingIff {caller callee : String} :
    ⟨caller, callee⟩ ∈ r.reachable.dangling ↔
      r.Reached caller ∧ r.Depends caller callee ∧ callee ∉ r.names := by
  have sound := (Search.runAccounted (Search.startAccounted r)).1
  rw [← reachableIff, ← exploredAll]
  exact sound.dangling caller callee

end Registry
end CompilationUnit
