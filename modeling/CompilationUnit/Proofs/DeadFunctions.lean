import CompilationUnit.Proofs.Agreement
import CompilationUnit.Proofs.Extraction

/-! Functions that no entry point leads to, and their want of influence. Entries that come in between
those of a registry, and that nothing live in it needs, change an extraction in nothing but the list of
pruned functions; neither does taking pruned functions away. -/
namespace CompilationUnit

theorem filterWithin {l more : List α} {p : α → Bool} (within : l.Sublist more) (once : more.Nodup)
    (kept : ∀ a ∈ more, p a = true → a ∈ l) : more.filter p = l.filter p := by
  induction within with
  | slnil => rfl
  | @cons l more a within ih =>
    obtain ⟨fresh, once⟩ := List.nodup_cons.mp once
    have left : ¬ p a = true :=
      fun chosen => fresh (within.subset (kept a List.mem_cons_self chosen))
    rw [List.filter_cons_of_neg left, ih once]
    exact fun b member chosen => kept b (List.mem_cons_of_mem a member) chosen
  | @cons_cons l more a within ih =>
    obtain ⟨fresh, once⟩ := List.nodup_cons.mp once
    rw [List.filter_cons, List.filter_cons, ih once]
    intro b member chosen
    rcases List.mem_cons.mp (kept b (List.mem_cons_of_mem a member) chosen) with rfl | inside
    · exact absurd member fresh
    · exact inside

namespace Registry

/- Names are distinct in a registry, so those of the further entries are new ones. -/
structure Extends (r more : Registry) : Prop where
  within : r.entries.Sublist more.entries
  idle : ∀ e ∈ more.entries, e ∉ r.entries → e.isEntryPoint = false
  unneeded : ∀ e ∈ more.entries, e ∉ r.entries → ∀ f ∈ r.entries, r.Reached f.name →
    e.name ∉ f.dependencies.names

variable {r more : Registry}

theorem getExtended (extended : r.Extends more) {name : String} {e : Entry}
    (found : r.get? name = some e) : more.get? name = some e := by
  rw [getIff] at found ⊢
  exact ⟨extended.within.subset found.1, found.2⟩

theorem keptOfName (extended : r.Extends more) {e : Entry} (member : e ∈ more.entries)
    (named : e.name ∈ r.names) : e ∈ r.entries := by
  obtain ⟨other, present, same⟩ := List.mem_map.mp named
  rwa [← entryOfName (extended.within.subset present) member same]

theorem containsExtended (extended : r.Extends more) {f : Entry} {name : String} (member : f ∈ r.entries)
    (reached : r.Reached f.name) (needed : name ∈ f.dependencies.names) :
    r.contains name = more.contains name := by
  rw [Bool.eq_iff_iff, containsIff, containsIff]
  refine ⟨fun known => (extended.within.map Entry.name).subset known, ?_⟩
  intro known
  obtain ⟨e, present, rfl⟩ := List.mem_map.mp known
  by_cases kept : e ∈ r.entries
  · exact nameRegistered kept
  · exact absurd needed (extended.unneeded e present kept f member reached)

theorem followExtended (extended : r.Extends more) {f : Entry} (member : f ∈ r.entries)
    (reached : r.Reached f.name) (s : Search) :
    f.dependencies.names.foldl (Search.follow r f.name) s =
      f.dependencies.names.foldl (Search.follow more f.name) s := by
  refine List.foldl_ext _ _ s fun s name needed => ?_
  unfold Search.follow
  rw [containsExtended extended member reached needed]

theorem searchStepExtended (extended : r.Extends more) {s : Search} (sound : s.Accounted r) :
    s.step r = s.step more := by
  unfold Search.step
  split
  · rfl
  · rename_i name rest pending
    have reached := sound.reached name (sound.stacked.live name (by simp [pending]))
    obtain ⟨f, member, rfl⟩ := List.mem_map.mp (reachedRegistered reached)
    have found := getIff.mpr ⟨member, rfl⟩
    simp only [found, getExtended extended found, followExtended extended member reached]

theorem entryPointsExtended (extended : r.Extends more) : more.entryPoints = r.entryPoints := by
  refine filterWithin extended.within (entriesOnce more) fun e member isEntry => ?_
  by_contra new
  simp [extended.idle e member new] at isEntry

theorem reachableExtended (extended : r.Extends more) : more.reachable = r.reachable := by
  have runs := Search.runAgrees Search.stepAccounted (searchStepExtended extended)
    (Search.startAccounted r)
  have starts : Search.start more = Search.start r := by
    unfold Search.start
    rw [entryPointsExtended extended]
  unfold reachable
  rw [starts, runs]

theorem startsExtended (extended : r.Extends more) :
    more.starts r.reachable.live.names = r.starts r.reachable.live.names := by
  refine filterWithin extended.within (entriesOnce more) fun e member isLive => ?_
  have reached := reachableIff.mp (of_decide_eq_true isLive)
  exact keptOfName extended member (reachedRegistered reached)

theorem sequenceExtended (extended : r.Extends more) :
    more.sequence more.reachable.live.names = r.sequence r.reachable.live.names := by
  rw [reachableExtended extended]
  exact sequenceSame (startsExtended extended)

theorem prunedExtended (extended : r.Extends more) :
    (more.extraction.report.pruned.filter fun name => decide (name ∈ r.names)) =
      r.extraction.report.pruned := by
  have names : (more.names.filter fun name => decide (name ∈ r.names)) = r.names := by
    refine (filterWithin (extended.within.map Entry.name) more.distinct fun _ _ known =>
      of_decide_eq_true known).trans ?_
    exact List.filter_eq_self.mpr fun _ known => decide_eq_true known
  unfold extraction
  dsimp only
  rw [reachableExtended extended, List.filter_comm, names]

def without (r : Registry) (removed : List String) : Registry :=
  { r with
    entries := r.entries.filter fun e => decide (e.name ∉ removed)
    distinct := r.distinct.sublist (List.filter_sublist.map Entry.name) }

theorem withoutIff {removed : List String} {e : Entry} :
    e ∈ (r.without removed).entries ↔ e ∈ r.entries ∧ e.name ∉ removed := by
  simp [without]

theorem leadsWithout {removed : List String} {caller callee : String}
    (leads : (r.without removed).Leads caller callee) : r.Leads caller callee := by
  obtain ⟨⟨e, member, same, stored⟩, known⟩ := leads
  obtain ⟨f, present, rfl⟩ := List.mem_map.mp known
  exact ⟨⟨e, (withoutIff.mp member).1, same, stored⟩, nameRegistered (withoutIff.mp present).1⟩

theorem reachedWithout {removed : List String} {name : String}
    (reached : (r.without removed).Reached name) : r.Reached name := by
  obtain ⟨e, member, isEntry, path⟩ := reached
  exact ⟨e, (withoutIff.mp member).1, isEntry, path.lift id fun _ _ => leadsWithout⟩

theorem prunedIff {name : String} :
    name ∈ r.extraction.report.pruned ↔ name ∈ r.names ∧ ¬ r.Reached name := by
  rw [prunedSource, List.mem_filter, decide_eq_true_eq, extractedNamesIff]

theorem withoutExtends {removed : List String}
    (pruned : ∀ name ∈ removed, name ∈ r.extraction.report.pruned) : (r.without removed).Extends r := by
  have gone : ∀ e ∈ r.entries, e ∉ (r.without removed).entries → ¬ r.Reached e.name := by
    intro e member absent
    rw [withoutIff, not_and, Decidable.not_not] at absent
    exact (prunedIff.mp (pruned e.name (absent member))).2
  refine ⟨List.filter_sublist, ?_, ?_⟩
  · intro e member absent
    by_contra isEntry
    exact gone e member absent ⟨e, member, by simpa using isEntry, .refl⟩
  · intro e member absent f present reached needed
    obtain ⟨start, startMember, isEntry, path⟩ := reachedWithout reached
    have leads : r.Leads f.name e.name :=
      ⟨⟨f, (withoutIff.mp present).1, rfl, needed⟩, nameRegistered member⟩
    exact gone e member absent ⟨start, startMember, isEntry, path.tail leads⟩

theorem prunedWithout {removed : List String}
    (pruned : ∀ name ∈ removed, name ∈ r.extraction.report.pruned) :
    (r.without removed).extraction.report.pruned =
      r.extraction.report.pruned.filter fun name => decide (name ∉ removed) := by
  rw [← prunedExtended (withoutExtends pruned)]
  refine List.filter_congr fun name member => ?_
  obtain ⟨e, present, rfl⟩ := List.mem_map.mp (prunedIff.mp member).1
  rw [decide_eq_decide]
  refine ⟨?_, fun kept => nameRegistered (withoutIff.mpr ⟨present, kept⟩)⟩
  intro known
  obtain ⟨f, kept, same⟩ := List.mem_map.mp known
  exact same ▸ (withoutIff.mp kept).2

theorem extractedExtended (extended : r.Extends more) :
    more.extraction.functions = r.extraction.functions ∧
    more.extraction.report.dangling = r.extraction.report.dangling ∧
    more.extraction.report.backEdges = r.extraction.report.backEdges := by
  have sequence := sequenceExtended extended
  exact ⟨congrArg Sequence.order sequence, congrArg Reachability.dangling (reachableExtended extended),
    congrArg Sequence.backEdges sequence⟩

theorem deadFunctionsInert (r : Registry) :
    (∀ more, r.Extends more →
      more.extraction.functions = r.extraction.functions ∧
      more.extraction.report.dangling = r.extraction.report.dangling ∧
      more.extraction.report.backEdges = r.extraction.report.backEdges ∧
      (more.extraction.report.pruned.filter fun name => decide (name ∈ r.names)) =
        r.extraction.report.pruned) ∧
    ∀ removed, (∀ name ∈ removed, name ∈ r.extraction.report.pruned) →
      (r.without removed).extraction =
        { functions := r.extraction.functions
          report :=
            { pruned := r.extraction.report.pruned.filter fun name => decide (name ∉ removed)
              dangling := r.extraction.report.dangling
              backEdges := r.extraction.report.backEdges } } := by
  refine ⟨?_, ?_⟩
  · intro more extended
    obtain ⟨functions, dangling, backEdges⟩ := extractedExtended extended
    exact ⟨functions, dangling, backEdges, prunedExtended extended⟩
  · intro removed pruned
    obtain ⟨functions, dangling, backEdges⟩ := extractedExtended (withoutExtends pruned)
    rw [functions, dangling, backEdges, ← prunedWithout pruned]

def lonely : Registry where
  entries := [.ofRegistration (.placeholder "main" ⟨none, true, ["main", "lost"]⟩)]
  policy := .overwrite
  finalized := false
  distinct := by decide

def crowded : Registry where
  entries := [.ofRegistration (.placeholder "idle" ⟨none, false, ["main", "lazy", "gone"]⟩),
    .ofRegistration (.placeholder "main" ⟨none, true, ["main", "lost"]⟩),
    .ofRegistration (.placeholder "lazy" ⟨none, false, ["idle"]⟩)]
  policy := .strict
  finalized := true
  distinct := by decide

theorem crowdUnnoticed :
    lonely.Extends crowded ∧
    crowded.extraction.functions = lonely.extraction.functions ∧
    crowded.extraction.report.dangling = lonely.extraction.report.dangling ∧
    crowded.extraction.report.backEdges = lonely.extraction.report.backEdges ∧
    (crowded.extraction.report.pruned.filter fun name => decide (name ∈ lonely.names)) =
      lonely.extraction.report.pruned := by
  have extended : lonely.Extends crowded := by
    refine ⟨.cons _ (.cons_cons _ (.cons _ .slnil)), by decide, ?_⟩
    have unneeded : ∀ e ∈ crowded.entries, e ∉ lonely.entries → ∀ f ∈ lonely.entries,
        e.name ∉ f.dependencies.names := by decide
    exact fun e member new f present _ => unneeded e member new f present
  exact ⟨extended, (deadFunctionsInert lonely).1 crowded extended⟩

end Registry
end CompilationUnit
