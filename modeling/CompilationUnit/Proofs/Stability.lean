import CompilationUnit.Proofs.Callees
import CompilationUnit.Proofs.Extraction
import CompilationUnit.Proofs.Replay

/-! Registries in which every function stands behind what it needs. A walk leaves such functions in the
order in which they came in. So a unit that was extracted without back edges, and registered again in
the order of its extraction, is extracted as it stands. -/
namespace CompilationUnit

def Registry.Sorted (r : Registry) (live : List String) : Prop :=
  ∀ caller callee, r.LiveEdge live caller callee → Precedes r.names callee caller

namespace Walk

variable {r : Registry} {live : List String} {w : Walk}

theorem runSettled {frame : Frame} (frames : w.frames = [frame])
    (settled : ∀ name ∈ frame.entry.dependencies.names, name ∈ r.names → name ∈ live →
      w.markOf name = .done) : w.run r live = w.leave frame.entry [] := by
  induction w using run.induct r live generalizing frame with
  | case1 w stopped => simp [stepStops.mp stopped] at frames
  | case2 w next continues ih =>
    have met : ∀ {name}, frame.dependency? = some name → name ∈ frame.entry.dependencies.names :=
      fun ahead => List.mem_of_getElem? ahead
    have targetDone : ∀ {target : Entry}, frame.dependency? = some target.name →
        target ∈ r.starts live → w.markOf target.name = .done := by
      intro target ahead start
      obtain ⟨member, isLive⟩ := Registry.startsIff.mp start
      exact settled _ (met ahead) (Registry.nameRegistered member) isLive
    rw [run, continues]
    change next.run r live = _
    cases stepSource continues with
    | leave same last =>
      cases frames.symm.trans same
      rw [idleRun rfl]
    | pass same ahead passed =>
      cases frames.symm.trans same
      exact @ih frame.advance rfl settled
    | enter same ahead start unvisited =>
      cases frames.symm.trans same
      rw [targetDone ahead start] at unvisited
      contradiction
    | close same ahead start inProgress =>
      cases frames.symm.trans same
      rw [targetDone ahead start] at inProgress
      contradiction

theorem visitSettled {e : Entry} (rests : w.frames = []) (unvisited : w.markOf e.name = .unvisited)
    (settled : ∀ name ∈ e.dependencies.names, name ∈ r.names → name ∈ live → w.markOf name = .done) :
    visit r live w e = (w.enter e).leave e [] := by
  have frames : (w.enter e).frames = [⟨e, 0⟩] := by simp [enter, rests]
  have still : ∀ name ∈ e.dependencies.names, name ∈ r.names → name ∈ live →
      (w.enter e).markOf name = .done := by
    intro name needed registered isLive
    have done := settled name needed registered isLive
    have other : name ≠ e.name := by
      rintro rfl
      rw [unvisited] at done
      contradiction
    simpa [markOf, enter, markOfCons, other] using done
  rw [visit, if_pos unvisited, runSettled frames still]

structure Through (r : Registry) (live : List String) (w : Walk) (front : List Entry) : Prop where
  idle : w.Idle r live
  order : w.order = front
  forward : w.backEdges = []

theorem neededBefore (sorted : r.Sorted live) {front back : List Entry} {e : Entry} {name : String}
    (starts : r.starts live = front ++ e :: back) (needed : name ∈ e.dependencies.names)
    (registered : name ∈ r.names) (isLive : name ∈ live) : name ∈ front.map Entry.name := by
  obtain ⟨member, callerLive⟩ := Registry.startsIff.mp (starts ▸ List.mem_append_right front List.mem_cons_self)
  have before := sorted e.name name ⟨⟨⟨e, member, rfl, needed⟩, registered⟩, callerLive, isLive⟩
  have inOrder : (r.starts live).Pairwise fun a b => Precedes r.names a.name b.name :=
    (List.pairwise_map.mp (precedesInOrder r.distinct)).sublist List.filter_sublist
  rw [starts, List.pairwise_append] at inOrder
  have behind := List.pairwise_cons.mp inOrder.2.1
  have started := Registry.startNamesIff.mpr ⟨registered, isLive⟩
  rw [starts, List.map_append, List.map_cons, List.mem_append, List.mem_cons] at started
  rcases started with inFront | rfl | inBack
  · exact inFront
  · exact absurd before (precedesIrrefl _ _)
  · obtain ⟨f, later, rfl⟩ := List.mem_map.mp inBack
    exact absurd before (precedesAsymm (behind.1 f later))

theorem visitThrough (sorted : r.Sorted live) {front back : List Entry} {e : Entry}
    (starts : r.starts live = front ++ e :: back) (through : w.Through r live front) :
    (visit r live w e).Through r live (front ++ [e]) := by
  obtain ⟨idle, rfl, forward⟩ := through
  have lined := arisesLined idle.arises
  have start : e ∈ r.starts live := starts ▸ List.mem_append_right _ List.mem_cons_self
  have once : ((r.starts live).map Entry.name).Nodup :=
    r.distinct.sublist (List.filter_sublist.map Entry.name)
  rw [starts, List.map_append, List.map_cons, List.nodup_middle, List.nodup_cons] at once
  have unvisited : w.markOf e.name = .unvisited := by
    rw [unvisitedIff lined, idleNames idle]
    exact fun closed => once.1 (List.mem_append_left _ closed)
  have visited : visit r live w e = (w.enter e).leave e [] :=
    visitSettled idle.rests unvisited fun name needed registered isLive =>
      (lined.done name).mpr (neededBefore sorted starts needed registered isLive)
  refine ⟨visitIdle idle start, ?_, ?_⟩
  · rw [visited]
    rfl
  · rw [visited]
    exact forward

theorem visitAllThrough (sorted : r.Sorted live) {front back : List Entry}
    (starts : r.starts live = front ++ back) (through : w.Through r live front) :
    (back.foldl (visit r live) w).Through r live (r.starts live) := by
  induction back generalizing w front with
  | nil => simpa [starts] using through
  | cons e back ih => exact ih (by simp [starts]) (visitThrough sorted starts through)

end Walk

theorem Registry.sequenceSorted {r : Registry} {live : List String} (sorted : r.Sorted live) :
    r.sequence live = ⟨r.starts live, []⟩ := by
  have blank : Walk.blank.Through r live [] := ⟨⟨.blank, rfl⟩, rfl, rfl⟩
  have through : (r.walked live).Through r live (r.starts live) :=
    Walk.visitAllThrough sorted rfl blank
  change Sequence.mk (r.walked live).order (r.walked live).backEdges = _
  rw [through.order, through.forward]

namespace NameSet

variable {s : NameSet} {names : List String}

theorem insertAllKnown (known : ∀ name ∈ names, name ∈ s.names) : s.insertAll names = s := by
  induction names with
  | nil => rfl
  | cons name names ih =>
    have same : s.insert name = s := dif_pos (known name List.mem_cons_self)
    change (s.insert name).insertAll names = s
    rw [same, ih fun other member => known other (List.mem_cons_of_mem name member)]

theorem insertAllFresh (distinct : (s.names ++ names).Nodup) :
    (s.insertAll names).names = s.names ++ names := by
  induction names generalizing s with
  | nil => simp [insertAll]
  | cons name names ih =>
    have fresh : name ∉ s.names :=
      fun known => (List.nodup_append.mp distinct).2.2 name known name List.mem_cons_self rfl
    have more : (s.insert name).names = s.names ++ [name] := by rw [insertNames, if_neg fresh]
    change ((s.insert name).insertAll names).names = _
    rw [ih (by simpa [more] using distinct), more, List.append_assoc, List.singleton_append]

theorem ofSameNames {s other : NameSet} (same : s.names = other.names) : s = other := by
  cases s
  cases other
  cases same
  rfl

theorem insertAllAgain (s : NameSet) (names : List String) :
    s.insertAll (s.insertAll names).names = s.insertAll names := by
  apply ofSameNames
  have once := (s.insertAll names).distinct
  rw [insertAllNames s names] at once ⊢
  unfold insertAll
  rw [List.foldl_append]
  change ((s.insertAll s.names).insertAll _).names = _
  rw [insertAllKnown fun _ member => member, insertAllFresh once]

end NameSet

def Entry.info (e : Entry) : Info := ⟨e.placement, e.isEntryPoint, e.dependencies.names⟩

def Entry.registration (e : Entry) : Registration :=
  match e.body with
  | .ordinary definition => .ordinary definition e.info
  | .asm definition => .asm definition e.info
  | .placeholder => .placeholder e.name e.info

theorem ofRegistrationAgain (registration : Registration) :
    Entry.ofRegistration (Entry.ofRegistration registration).registration =
      Entry.ofRegistration registration := by
  cases registration <;>
    simp [Entry.ofRegistration, Entry.registration, Entry.info, NameSet.ofList, NameSet.insertAllAgain]

theorem placeEntryFresh {entry : Entry} {entries : List Entry}
    (fresh : entry.name ∉ entries.map Entry.name) : placeEntry entry entries = entries ++ [entry] := by
  induction entries with
  | nil => rfl
  | cons e entries ih =>
    rw [List.map_cons, List.mem_cons, not_or] at fresh
    rw [placeEntry, if_neg (Ne.symm fresh.1), ih fresh.2, List.cons_append]

namespace Registry

variable {r again : Registry}

def reissue (r : Registry) (policy : Policy) : Manifest :=
  ⟨policy, r.extraction.functions.map Entry.registration⟩

theorem replayFresh {registrations : List Registration} (unfinished : r.finalized = false)
    (distinct : (r.names ++ registrations.map Registration.name).Nodup) :
    ∃ next, r.replay registrations = ⟨next, none⟩ ∧
      next.entries = r.entries ++ registrations.map Entry.ofRegistration := by
  induction registrations generalizing r with
  | nil => exact ⟨r, rfl, by simp⟩
  | cons first others ih =>
    have fresh : first.name ∉ r.names :=
      fun known => (List.nodup_append.mp distinct).2.2 first.name known first.name List.mem_cons_self rfl
    obtain ⟨second, stored⟩ : ∃ second, r.register first = .ok second :=
      ⟨_, (registerOpen unfinished first).trans (if_neg fun known => fresh known.1)⟩
    obtain ⟨_, _, placed, _, stillOpen⟩ := insertSource stored
    rw [placeEntryFresh (by rwa [ofRegistrationName])] at placed
    have names : second.names = r.names ++ [first.name] := by
      rw [registeredNames stored, if_neg fresh]
    obtain ⟨next, replayed, entries⟩ := ih (stillOpen.trans unfinished) (by simpa [names] using distinct)
    rw [replay, stored]
    refine ⟨next, replayed, ?_⟩
    rw [entries, placed, List.append_assoc]
    rfl

theorem registrationStores (registered : r.Registered) {e : Entry} (member : e ∈ r.entries) :
    Entry.ofRegistration e.registration = e := by
  obtain ⟨registration, rfl⟩ := registered e member
  exact ofRegistrationAgain registration

theorem reissued (registered : r.Registered) (policy : Policy) :
    ∃ again, (r.reissue policy).registry = .ok again ∧ again.entries = r.extraction.functions := by
  have stores : ∀ e ∈ r.extraction.functions, Entry.ofRegistration e.registration = e :=
    fun e member => registrationStores registered (extractedIff.mp member).1
  have entries : (r.extraction.functions.map Entry.registration).map Entry.ofRegistration =
      r.extraction.functions := by
    rw [List.map_map]
    exact (List.map_congr_left stores).trans (List.map_id _)
  have names : (r.extraction.functions.map Entry.registration).map Registration.name = r.extraction.names := by
    rw [List.map_map]
    refine List.map_congr_left fun e member => ?_
    rw [Function.comp_apply, ← ofRegistrationName, stores e member]
  have unfinished : (Registry.empty policy).finalized = false := rfl
  obtain ⟨again, replayed, stored⟩ := replayFresh unfinished (by
    change ((r.extraction.functions.map Entry.registration).map Registration.name).Nodup
    rw [names]
    exact extractedDistinct r)
  refine ⟨again, (builtIff _ again).mpr replayed, ?_⟩
  rw [stored, entries]
  rfl

theorem reissuedRegistered (registered : r.Registered) (same : again.entries = r.extraction.functions) :
    again.Registered := by
  intro e member
  rw [same] at member
  exact registered e (extractedIff.mp member).1

section Again

variable (same : again.entries = r.extraction.functions)
include same

theorem againNames : again.names = r.extraction.names := by
  unfold names
  rw [same]
  rfl

theorem leadsBefore {caller callee : String} (leads : again.Leads caller callee) :
    r.Reached caller ∧ r.Leads caller callee := by
  obtain ⟨⟨e, member, rfl, needed⟩, known⟩ := leads
  rw [same] at member
  rw [againNames same, extractedNamesIff] at known
  obtain ⟨present, reached⟩ := extractedIff.mp member
  exact ⟨reached, ⟨e, present, rfl, needed⟩, reachedRegistered known⟩

theorem reachedAgain {name : String} (reached : r.Reached name) : again.Reached name := by
  obtain ⟨e, member, isEntry, path⟩ := reached
  have start : e ∈ again.entries := by
    rw [same]
    exact extractedIff.mpr ⟨member, e, member, isEntry, .refl⟩
  refine ⟨e, start, isEntry, ?_⟩
  induction path with
  | refl => exact .refl
  | @tail caller callee before leads ih =>
    have reached : r.Reached caller := ⟨e, member, isEntry, before⟩
    obtain ⟨⟨f, present, rfl, needed⟩, known⟩ := leads
    refine ih.tail ⟨⟨f, ?_, rfl, needed⟩, ?_⟩
    · rw [same]
      exact extractedIff.mpr ⟨present, reached⟩
    · rw [againNames same, extractedNamesIff]
      exact ⟨e, member, isEntry, before.tail ⟨⟨f, present, rfl, needed⟩, known⟩⟩

theorem allLiveAgain {e : Entry} (member : e ∈ again.entries) : e.name ∈ again.reachable.live.names := by
  rw [same] at member
  exact reachableIff.mpr (reachedAgain same (extractedIff.mp member).2)

theorem sortedAgain (forward : r.extraction.report.backEdges = []) (live : List String) :
    again.Sorted live := by
  intro caller callee edge
  obtain ⟨reached, leads⟩ := leadsBefore same edge.1
  rw [againNames same]
  refine keptPrecedes (reachedEdge reached leads) ?_
  rw [show (r.sequence r.reachable.live.names).backEdges = [] from forward]
  exact List.not_mem_nil

theorem extractedAgain (forward : r.extraction.report.backEdges = []) :
    again.extraction.functions = r.extraction.functions ∧ again.extraction.report.pruned = [] ∧
      again.extraction.report.backEdges = [] := by
  have sequence := sequenceSorted (sortedAgain same forward again.reachable.live.names)
  have starts : again.starts again.reachable.live.names = again.entries :=
    List.filter_eq_self.mpr fun e member => decide_eq_true (allLiveAgain same member)
  refine ⟨?_, ?_, congrArg Sequence.backEdges sequence⟩
  · rw [← same, ← starts]
    exact congrArg Sequence.order sequence
  · refine List.filter_eq_nil_iff.mpr fun name member => ?_
    obtain ⟨e, present, rfl⟩ := List.mem_map.mp member
    have isLive : e.name ∈ again.reachable.live := allLiveAgain same present
    simp [isLive]

end Again

theorem reissuedAll (registered : r.Registered) (forward : r.extraction.report.backEdges = [])
    (policies : List Policy) :
    ∃ again, policies.foldlM (fun r policy => (r.reissue policy).registry) r = .ok again ∧
      again.extraction.functions = r.extraction.functions ∧ again.extraction.report.backEdges = [] := by
  -- Each repetition begins with a registry that has all the hypotheses of the first one.
  induction policies generalizing r with
  | nil => exact ⟨r, rfl, rfl, forward⟩
  | cons policy policies ih =>
    obtain ⟨next, built, same⟩ := reissued registered policy
    obtain ⟨order, _, none⟩ := extractedAgain same forward
    obtain ⟨again, repeated, later⟩ := ih (reissuedRegistered registered same) none
    rw [order] at later
    refine ⟨again, ?_, later⟩
    rw [List.foldlM_cons, built]
    exact repeated

/-- Functions that were registered behind all they need stay in their order; so does what was extracted
without back edges, however often it is registered again. -/
theorem extractionStable (policy : Policy) (operations : List Operation) :
    (∀ (r : Registry) (live : List String),
      (∀ caller callee, r.LiveEdge live caller callee → Precedes r.names callee caller) →
        r.sequence live = ⟨r.entries.filter fun e => decide (e.name ∈ live), []⟩) ∧
    ((ofRun policy operations).extraction.report.backEdges = [] →
      ∀ policies : List Policy, ∃ again,
        policies.foldlM (fun r policy => (r.reissue policy).registry) (ofRun policy operations) =
          .ok again ∧
        again.extraction.functions = (ofRun policy operations).extraction.functions ∧
        again.extraction.report.backEdges = []) :=
  ⟨fun _ _ => sequenceSorted, fun forward => reissuedAll (ofRunRegistered policy operations) forward⟩

def chain : List Operation :=
  [.register (.placeholder "main" ⟨none, true, ["leaf", "middle", "lost"]⟩),
    .register (.placeholder "middle" ⟨some .stdlib, false, ["leaf"]⟩),
    .register (.placeholder "leaf" .default)]

def leafFirst : Registry where
  entries := [.ofRegistration (.placeholder "leaf" .default),
    .ofRegistration (.placeholder "main" ⟨none, true, ["leaf", "lost"]⟩)]
  policy := .overwrite
  finalized := false
  distinct := by decide

theorem chainExtractedAlike :
    (∀ caller callee, leafFirst.LiveEdge leafFirst.names caller callee →
      Precedes leafFirst.names callee caller) ∧
    leafFirst.sequence leafFirst.names =
      ⟨leafFirst.entries.filter fun e => decide (e.name ∈ leafFirst.names), []⟩ ∧
    (ofRun .overwrite chain).extraction.report.backEdges = [] ∧
    ∃ again, [Policy.strict, .overwrite].foldlM (fun r policy => (r.reissue policy).registry)
        (ofRun .overwrite chain) = .ok again ∧
      again.extraction.functions = (ofRun .overwrite chain).extraction.functions ∧
      again.extraction.report.backEdges = [] := by
  have sorted : ∀ caller callee, leafFirst.LiveEdge leafFirst.names caller callee →
      Precedes leafFirst.names callee caller := by
    rintro caller callee ⟨⟨⟨e, member, rfl, needed⟩, known⟩, _⟩
    have needs : ∀ e ∈ leafFirst.entries, ∀ callee ∈ e.dependencies.names, callee ∈ leafFirst.names →
        Precedes leafFirst.names callee e.name := by decide
    exact needs e member callee needed known
  have forward : (ofRun .overwrite chain).extraction.report.backEdges = [] := by decide +kernel
  obtain ⟨stays, repeats⟩ := extractionStable .overwrite chain
  exact ⟨sorted, stays leafFirst leafFirst.names sorted, forward, repeats forward [.strict, .overwrite]⟩

end Registry
end CompilationUnit
