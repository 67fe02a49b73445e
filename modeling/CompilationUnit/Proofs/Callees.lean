import CompilationUnit.Proofs.History
import CompilationUnit.Proofs.Position

/-! The names a body calls directly, in the order of their first calls, and what an ordinary function is
stored to depend on: these names, then the declared ones that are not among them. -/
namespace CompilationUnit

def FirstAt (placed : List (List Nat × String)) (name : String) (path : List Nat) : Prop :=
  (path, name) ∈ placed ∧ ∀ other, (other, name) ∈ placed → other = path ∨ Before path other

theorem firstAtSnoc {placed : List (List Nat × String)} {name last : String} {path lastPath : List Nat}
    (later : ∀ p ∈ placed, Before p.1 lastPath) (first : FirstAt placed name path) :
    FirstAt (placed ++ [(lastPath, last)]) name path := by
  refine ⟨List.mem_append_left _ first.1, ?_⟩
  intro other member
  rcases List.mem_append.mp member with before | now
  · exact first.2 other before
  · obtain ⟨rfl, rfl⟩ := Prod.mk.inj (List.mem_singleton.mp now)
    exact .inr (later _ first.1)

theorem firstAtNew {placed : List (List Nat × String)} {name : String} {path : List Nat}
    (fresh : name ∉ placed.map Prod.snd) : FirstAt (placed ++ [(path, name)]) name path := by
  refine ⟨List.mem_append_right _ List.mem_cons_self, ?_⟩
  intro other member
  rcases List.mem_append.mp member with before | now
  · exact absurd (List.mem_map_of_mem before) fresh
  · obtain ⟨rfl, _⟩ := Prod.mk.inj (List.mem_singleton.mp now)
    exact .inl rfl

theorem firstsPlaced {placed : List (List Nat × String)} {names : List String} {paths : List (List Nat)}
    (firsts : List.Forall₂ (FirstAt placed) names paths) :
    ∀ path ∈ paths, ∃ name, (path, name) ∈ placed := by
  induction firsts with
  | nil => nofun
  | @cons name path names paths first _ ih =>
    intro other member
    rcases List.mem_cons.mp member with rfl | later
    · exact ⟨name, first.1⟩
    · exact ih other later

theorem firstsInOrder {placed : List (List Nat × String)}
    (sorted : placed.Pairwise fun a b => Before a.1 b.1) :
    ∃ paths, List.Forall₂ (FirstAt placed) (NameSet.ofList (placed.map Prod.snd)).names paths ∧
      paths.Pairwise Before := by
  induction placed using List.reverseRecOn with
  | nil => exact ⟨[], .nil, .nil⟩
  | append_singleton placed last ih =>
    obtain ⟨path, name⟩ := last
    obtain ⟨before, _, later⟩ := List.pairwise_append.mp sorted
    obtain ⟨paths, firsts, increasing⟩ := ih before
    have below : ∀ p ∈ placed, Before p.1 path := fun p member => later p member _ List.mem_cons_self
    have kept : List.Forall₂ (FirstAt (placed ++ [(path, name)])) _ paths :=
      firsts.imp fun _ _ => firstAtSnoc below
    rw [List.map_append, List.map_singleton, NameSet.ofListSnoc, NameSet.insertNames]
    split
    · exact ⟨paths, kept, increasing⟩
    · rename_i fresh
      have unseen : name ∉ placed.map Prod.snd := fun seen => fresh (insertAllIff.mpr (.inr seen))
      refine ⟨paths ++ [path], List.rel_append kept (.cons (firstAtNew unseen) .nil), ?_⟩
      refine List.pairwise_append.mpr ⟨increasing, List.pairwise_singleton _ _, ?_⟩
      intro other member last single
      cases List.mem_singleton.mp single
      obtain ⟨_, met⟩ := firstsPlaced firsts other member
      exact below _ met

def Definition.CallsAt (d : Definition) (path : List Nat) (name : String) : Prop :=
  ∃ args, d.at? path = some (.expr (.call (.id name) args))

def Definition.FirstCall (d : Definition) (name : String) (path : List Nat) : Prop :=
  d.CallsAt path name ∧ ∀ other, d.CallsAt other name → other = path ∨ Before path other

def placedCalls (found : List (List Nat × Expr)) : List (List Nat × String) :=
  found.filterMap fun p => p.2.directCallee?.map fun name => (p.1, name)

theorem placedCallIff {d : Definition} {found : List (List Nat × Expr)} (listed : Listed d.at? found)
    {path : List Nat} {name : String} : (path, name) ∈ placedCalls found ↔ d.CallsAt path name := by
  simp only [placedCalls, List.mem_filterMap, Option.map_eq_some_iff, directCalleeIff, Prod.mk.injEq,
    Prod.exists, listed.same, Definition.CallsAt]
  constructor
  · rintro ⟨_, e, look, _, ⟨args, rfl⟩, rfl, rfl⟩
    exact ⟨args, look⟩
  · rintro ⟨args, look⟩
    exact ⟨path, _, look, name, ⟨args, rfl⟩, rfl, rfl⟩

theorem placedCallNames (found : List (List Nat × Expr)) :
    (placedCalls found).map Prod.snd = (found.map Prod.snd).filterMap Expr.directCallee? := by
  simp [placedCalls, List.map_filterMap, List.filterMap_map, Function.comp_def]

theorem placedCallsSorted {found : List (List Nat × Expr)}
    (sorted : found.Pairwise fun a b => Before a.1 b.1) :
    (placedCalls found).Pairwise fun a b => Before a.1 b.1 := by
  refine sorted.filterMap _ ?_
  simp only [Option.map_eq_some_iff]
  rintro a b less _ ⟨_, _, rfl⟩ _ ⟨_, _, rfl⟩
  exact less

theorem calleesInOrder (d : Definition) :
    ∃ paths, List.Forall₂ d.FirstCall d.directCallees.names paths ∧ paths.Pairwise Before := by
  obtain ⟨found, listed, all⟩ := expressionsInOrder d
  obtain ⟨paths, firsts, increasing⟩ := firstsInOrder (placedCallsSorted listed.sorted)
  rw [placedCallNames, all] at firsts
  refine ⟨paths, firsts.imp fun name path first => ?_, increasing⟩
  refine ⟨(placedCallIff listed).mp first.1, fun other calls => ?_⟩
  exact first.2 other ((placedCallIff listed).mpr calls)

theorem callsIffAt {d : Definition} {name : String} : d.Calls name ↔ ∃ path, d.CallsAt path name := by
  obtain ⟨found, listed, all⟩ := expressionsInOrder d
  unfold Definition.Calls Definition.CallsAt
  simp only [← expressionsIff, ← all, List.mem_map, Prod.exists, exists_eq_right, listed.same]
  exact exists_comm

theorem ordinaryDependencies (d : Definition) (info : Info) :
    (Entry.ofRegistration (.ordinary d info)).dependencies.names = d.directCallees.names ++
      (info.dependsOn.filter fun name => decide (name ∉ d.directCallees.names)).eraseDups :=
  (registrationBuilt (.ordinary d info)).dependencies

theorem ordinaryStored {r : Registry} {d : Definition} (info : Info) (unfinished : r.finalized = false)
    (admitted : ¬ (d.name ∈ r.names ∧ r.policy = .strict)) :
    ∃ next, r.register (.ordinary d info) = .ok next ∧
      next.get? d.name = some (.ofRegistration (.ordinary d info)) := by
  have stored := (Registry.registerOpen unfinished (.ordinary d info)).trans (if_neg admitted)
  refine ⟨_, stored, ?_⟩
  rw [Registry.registeredGet stored]
  exact if_pos rfl

theorem directCallsScanned (d : Definition) (info : Info) :
    (∀ name, name ∈ d.directCallees.names ↔ d.Calls name) ∧
    (∀ name, d.Calls name ↔ ∃ path, d.CallsAt path name) ∧
    d.directCallees.names.Nodup ∧
    (∃ paths, List.Forall₂ d.FirstCall d.directCallees.names paths ∧ paths.Pairwise Before) ∧
    ∀ r : Registry, r.finalized = false → ¬ (d.name ∈ r.names ∧ r.policy = .strict) →
      ∃ next e, r.register (.ordinary d info) = .ok next ∧ next.get? d.name = some e ∧
        e.dependencies.names = d.directCallees.names ++
          (info.dependsOn.filter fun name => decide (name ∉ d.directCallees.names)).eraseDups := by
  refine ⟨fun _ => directCalleesIff, fun _ => callsIffAt, d.directCallees.distinct, calleesInOrder d, ?_⟩
  intro r unfinished admitted
  obtain ⟨next, stored, found⟩ := ordinaryStored info unfinished admitted
  exact ⟨next, _, stored, found, ordinaryDependencies d info⟩

/- Neither the method nor the computed callee is a name that is called; what stands in them is. -/
theorem computedCalleePassedOver :
    ∃ d : Definition, d.body = [.expr (.method (.callName "load" []) "store"
        [.call (.callName "pick" [.id "key"]) []] true), .ret (.callName "load" [])] ∧
      ∃ next e, (Registry.empty .strict).register (.ordinary d ⟨none, false, ["key", "pick", "key"]⟩) =
          .ok next ∧
        next.get? d.name = some e ∧ e.dependencies.names = ["load", "pick", "key"] := by
  refine ⟨⟨[], "f", [], .unit, _⟩, rfl, ?_⟩
  obtain ⟨next, e, stored, found, dependencies⟩ :=
    (directCallsScanned _ _).2.2.2.2 (.empty .strict) rfl fun known => nomatch known.1
  refine ⟨next, e, stored, found, dependencies.trans ?_⟩
  decide

end CompilationUnit
