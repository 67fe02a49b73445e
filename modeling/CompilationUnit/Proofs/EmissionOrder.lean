import CompilationUnit.Proofs.Precedence
import CompilationUnit.Proofs.WalkedEdges

/-! The order of the live functions and the dependencies it does not respect. The invariant of the
walk is about its line: a live edge that was looked at is a back edge exactly if its callee does not
stand before its caller. When the walk ends, the line is the order and every live edge was looked at. -/
namespace CompilationUnit
namespace Walk

variable {r : Registry} {live : List String} {w next : Walk}

def Placed (w : Walk) (caller callee : String) : Prop :=
  callee ∈ w.lineNames ∧ (⟨caller, callee⟩ ∈ w.backEdges ↔ ¬ Precedes w.lineNames callee caller)

structure Classified (r : Registry) (live : List String) (w : Walk) : Prop where
  placed : ∀ caller callee, w.Met r live caller callee → w.Placed caller callee
  recorded : ∀ edge ∈ w.backEdges, w.Met r live edge.caller edge.callee
  once : w.backEdges.Nodup

theorem stepBackEdges (steps : Steps r live w next) : next.backEdges = w.backEdges ∨
    ∃ edge, w.upcoming = some edge ∧ (edge.callee ∈ r.names ∧ edge.callee ∈ live) ∧
      next.backEdges = w.backEdges ++ [edge] := by
  cases steps with
  | leave frames last => exact .inl rfl
  | pass frames ahead settled => exact .inl rfl
  | enter frames ahead start unvisited => exact .inl rfl
  | close frames ahead start inProgress =>
    refine .inr ⟨_, upcomingSome frames ahead, ?_, rfl⟩
    obtain ⟨member, isLive⟩ := Registry.startsIff.mp start
    exact ⟨Registry.nameRegistered member, isLive⟩

theorem upcomingUnrecorded (lined : w.Lined r live) (classified : w.Classified r live) {edge : Edge}
    (h : w.upcoming = some edge) : edge ∉ w.backEdges :=
  fun recorded => upcomingFresh lined h (classified.recorded edge recorded).1

theorem advancedPlaced {frame : Frame} {outer : List Frame} {caller callee : String}
    (frames : w.frames = frame :: outer) :
    (w.advanced frame outer).Placed caller callee ↔ w.Placed caller callee := by
  rw [Placed, advancedNames frames]
  exact Iff.rfl

theorem enterPlaced {e : Entry} {caller callee : String} (lined : w.Lined r live)
    (unvisited : w.markOf e.name = .unvisited) (callerIn : caller ∈ w.lineNames)
    (placed : w.Placed caller callee) : (w.enter e).Placed caller callee := by
  obtain ⟨calleeIn, back⟩ := placed
  have fresh := (unvisitedIff lined).mp unvisited
  have different : ∀ {name}, name ∈ w.lineNames → name ≠ e.name :=
    fun member same => fresh (same ▸ member)
  -- The function entered is new in the line, so no two functions of the line change places.
  rw [Placed, enterNames, precedesInsert (different calleeIn) (different callerIn)]
  refine ⟨?_, back⟩
  rw [lineNames, List.mem_append] at calleeIn
  rw [List.mem_append, List.mem_cons]
  tauto

theorem stepPlaced (lined : w.Lined r live) (steps : Steps r live w next) {caller callee : String}
    (met : w.Met r live caller callee) (placed : w.Placed caller callee) :
    next.Placed caller callee := by
  cases steps with
  | leave frames last =>
    rw [Placed, leaveNames frames]
    exact placed
  | pass frames ahead settled => exact (advancedPlaced frames).mpr placed
  | enter frames ahead start unvisited =>
    have callerIn := metInLine met
    rw [← advancedNames frames] at callerIn
    exact enterPlaced (advancedLined lined frames ahead) unvisited callerIn
      ((advancedPlaced frames).mpr placed)
  | @close frame outer target frames ahead start inProgress =>
    obtain ⟨calleeIn, back⟩ := (advancedPlaced frames).mpr placed
    refine ⟨calleeIn, ?_⟩
    have other : (⟨caller, callee⟩ : Edge) ≠ ⟨frame.name, target.name⟩ := by
      intro same
      rw [Edge.mk.injEq] at same
      obtain ⟨rfl, rfl⟩ := same
      exact upcomingFresh lined (upcomingSome frames ahead) met.1
    refine Iff.trans ?_ back
    change (⟨caller, callee⟩ : Edge) ∈ w.backEdges ++ [⟨frame.name, target.name⟩] ↔ _ ∈ w.backEdges
    simp [other]

theorem innermostOpen {frame : Frame} {outer : List Frame} (frames : w.frames = frame :: outer) :
    frame.name ∈ w.openNames := by
  simp [openNames, frames]

theorem openOutside (lined : w.Lined r live) {name : String} (member : name ∈ w.openNames) :
    name ∉ w.closedNames :=
  fun closed => (List.nodup_append.mp lined.distinct).2.2 name closed name member rfl

theorem closedPrecedes (lined : w.Lined r live) {a b : String} (closed : a ∈ w.closedNames)
    (opened : b ∈ w.openNames) : Precedes w.lineNames a b :=
  precedesAcross closed (openOutside lined opened) opened

theorem enteredPrecedes {e : Entry} {name : String} (lined : w.Lined r live)
    (unvisited : w.markOf e.name = .unvisited) (opened : name ∈ w.openNames) :
    Precedes (w.enter e).lineNames e.name name := by
  have fresh := (unvisitedIff lined).mp unvisited
  have different : name ≠ e.name :=
    fun same => fresh (same ▸ List.mem_append_right w.closedNames opened)
  rw [enterNames, ← List.singleton_append, ← List.append_assoc]
  refine precedesAcross (by simp) ?_ opened
  simp [openOutside lined opened, different]

theorem innermostFirst {frame : Frame} {outer : List Frame} {name : String} (lined : w.Lined r live)
    (frames : w.frames = frame :: outer) (opened : name ∈ w.openNames) :
    ¬ Precedes w.lineNames name frame.name := by
  have innermost : w.openNames = frame.name :: outer.map Frame.name := by simp [openNames, frames]
  rw [lineNames, innermost]
  exact notPrecedesFirst (openOutside lined opened) (openOutside lined (innermostOpen frames))

theorem upcomingPlaced (lined : w.Lined r live) (classified : w.Classified r live)
    (steps : Steps r live w next) {caller callee : String}
    (h : w.upcoming = some ⟨caller, callee⟩) (target : callee ∈ r.names ∧ callee ∈ live) :
    next.Placed caller callee := by
  have unrecorded := upcomingUnrecorded lined classified h
  cases steps with
  | leave frames last => simp [upcoming, frames, last] at h
  | pass frames ahead settled =>
    obtain ⟨rfl, rfl⟩ := (upcomingIff frames ahead).mp h
    have closed := (lined.done _).mp (settled target)
    have before := closedPrecedes lined closed (innermostOpen frames)
    rw [advancedPlaced frames]
    exact ⟨List.mem_append_left _ closed, iff_of_false unrecorded (not_not_intro before)⟩
  | @enter frame outer entered frames ahead start unvisited =>
    obtain ⟨rfl, rfl⟩ := (upcomingIff frames ahead).mp h
    have opened : frame.name ∈ (w.advanced frame outer).openNames := List.mem_cons_self
    have before := enteredPrecedes (advancedLined lined frames ahead) unvisited opened
    exact ⟨precedesMember before, iff_of_false unrecorded (not_not_intro before)⟩
  | @close frame outer entered frames ahead start inProgress =>
    obtain ⟨rfl, rfl⟩ := (upcomingIff frames ahead).mp h
    have opened := (lined.inProgress entered.name).mp inProgress
    have after := innermostFirst lined frames opened
    rw [← advancedNames frames] at after
    refine ⟨?_, iff_of_true (List.mem_append_right _ List.mem_cons_self) after⟩
    change entered.name ∈ (w.advanced frame outer).lineNames
    rw [advancedNames frames]
    exact List.mem_append_right _ opened

theorem stepClassified (lined : w.Lined r live) (classified : w.Classified r live)
    (steps : Steps r live w next) : next.Classified r live := by
  refine ⟨?_, ?_, ?_⟩
  · intro caller callee met
    rcases (stepMet lined steps caller callee).mp met with old | ⟨ahead, target⟩
    · exact stepPlaced lined steps old (classified.placed caller callee old)
    · exact upcomingPlaced lined classified steps ahead target
  · intro edge member
    rw [stepMet lined steps]
    rcases stepBackEdges steps with same | ⟨closed, ahead, target, more⟩
    · rw [same] at member
      exact .inl (classified.recorded edge member)
    · rw [more, List.mem_append, List.mem_singleton] at member
      rcases member with old | rfl
      · exact .inl (classified.recorded edge old)
      · exact .inr ⟨ahead, target⟩
  · rcases stepBackEdges steps with same | ⟨closed, ahead, target, more⟩
    · rw [same]
      exact classified.once
    · rw [more, ← List.concat_eq_append]
      exact List.Nodup.concat (upcomingUnrecorded lined classified ahead) classified.once

theorem enterClassified {e : Entry} (lined : w.Lined r live) (classified : w.Classified r live)
    (unvisited : w.markOf e.name = .unvisited) : (w.enter e).Classified r live := by
  have met : ∀ caller callee, (w.enter e).Met r live caller callee ↔ w.Met r live caller callee := by
    intro caller callee
    rw [Met, enterLooked, Met]
  refine ⟨?_, ?_, ?_⟩
  · intro caller callee isMet
    have old := (met caller callee).mp isMet
    exact enterPlaced lined unvisited (metInLine old) (classified.placed caller callee old)
  · intro edge member
    exact (met _ _).mpr (classified.recorded edge member)
  · exact classified.once

theorem arisesClassified (arises : Arises r live w) : w.Classified r live := by
  induction arises with
  | blank =>
    refine ⟨?_, by simp [blank], by simp [blank]⟩
    intro caller callee met
    obtain ⟨⟨f, member, _⟩, _⟩ := met
    simp [blank, line] at member
  | start before idle start unvisited ih => exact enterClassified (arisesLined before) ih unvisited
  | step before steps ih => exact stepClassified (arisesLined before) ih steps

end Walk

namespace Registry

variable {r : Registry} {live : List String}

theorem sequenceNames (r : Registry) (live : List String) :
    (r.walked live).lineNames = (r.sequence live).order.map Entry.name :=
  Walk.idleNames (walkedIdle r live)

theorem sequenceDistinct (r : Registry) (live : List String) :
    ((r.sequence live).order.map Entry.name).Nodup := by
  rw [← sequenceNames]
  exact (walkedLined r live).distinct

theorem sequencePerm (r : Registry) (live : List String) :
    (r.sequence live).order.Perm (r.starts live) := by
  refine (List.perm_ext_iff_of_nodup ?_ (startsOnce r live)).mpr fun e => walkedOrder
  exact List.Nodup.of_map Entry.name (sequenceDistinct r live)

theorem backEdgesOnce (r : Registry) (live : List String) : (r.sequence live).backEdges.Nodup :=
  (Walk.arisesClassified (walkedIdle r live).arises).once

theorem backEdgeLive {edge : Edge} (member : edge ∈ (r.sequence live).backEdges) :
    r.LiveEdge live edge.caller edge.callee :=
  walkedMet.mp ((Walk.arisesClassified (walkedIdle r live).arises).recorded edge member)

theorem sequenceMember {name : String} :
    name ∈ (r.sequence live).order.map Entry.name ↔ name ∈ r.names ∧ name ∈ live := by
  rw [((sequencePerm r live).map Entry.name).mem_iff, startNamesIff]

theorem liveEdgeOrdered {caller callee : String} (edge : r.LiveEdge live caller callee) :
    caller ∈ (r.sequence live).order.map Entry.name ∧
      callee ∈ (r.sequence live).order.map Entry.name := by
  obtain ⟨⟨depends, registered⟩, callerLive, calleeLive⟩ := edge
  exact ⟨sequenceMember.mpr ⟨callerRegistered depends, callerLive⟩,
    sequenceMember.mpr ⟨registered, calleeLive⟩⟩

theorem backEdgePlaced {caller callee : String} (edge : r.LiveEdge live caller callee) :
    ⟨caller, callee⟩ ∈ (r.sequence live).backEdges ↔
      ¬ Precedes ((r.sequence live).order.map Entry.name) callee caller := by
  have classified := Walk.arisesClassified (walkedIdle r live).arises
  have placed := (classified.placed caller callee (walkedMet.mpr edge)).2
  rwa [sequenceNames] at placed

theorem backEdgeIff {caller callee : String} :
    ⟨caller, callee⟩ ∈ (r.sequence live).backEdges ↔ r.LiveEdge live caller callee ∧
      (caller = callee ∨ Precedes ((r.sequence live).order.map Entry.name) caller callee) := by
  have later : r.LiveEdge live caller callee → (⟨caller, callee⟩ ∈ (r.sequence live).backEdges ↔
      caller = callee ∨ Precedes ((r.sequence live).order.map Entry.name) caller callee) := by
    intro edge
    obtain ⟨callerIn, calleeIn⟩ := liveEdgeOrdered edge
    rw [backEdgePlaced edge, notPrecedesIff calleeIn callerIn]
  refine ⟨?_, ?_⟩
  · intro reported
    have edge := backEdgeLive reported
    exact ⟨edge, (later edge).mp reported⟩
  · intro both
    exact (later both.1).mpr both.2

theorem keptPrecedes {caller callee : String} (edge : r.LiveEdge live caller callee)
    (unreported : ⟨caller, callee⟩ ∉ (r.sequence live).backEdges) :
    Precedes ((r.sequence live).order.map Entry.name) callee caller :=
  Decidable.not_not.mp fun later => unreported ((backEdgePlaced edge).mpr later)

theorem sequenceOrdersLiveFunctions (r : Registry) (live : List String) :
    (r.sequence live).order.Perm (r.entries.filter fun e => decide (e.name ∈ live)) ∧
    ((r.sequence live).order.map Entry.name).Nodup ∧
    (r.sequence live).backEdges.Nodup ∧
    (∀ caller callee, ⟨caller, callee⟩ ∈ (r.sequence live).backEdges ↔
      r.LiveEdge live caller callee ∧ (caller = callee ∨
        Precedes ((r.sequence live).order.map Entry.name) caller callee)) ∧
    ∀ caller callee, r.LiveEdge live caller callee →
      ⟨caller, callee⟩ ∉ (r.sequence live).backEdges →
      Precedes ((r.sequence live).order.map Entry.name) callee caller :=
  ⟨sequencePerm r live, sequenceDistinct r live, backEdgesOnce r live,
    fun _ _ => backEdgeIff, fun _ _ => keptPrecedes⟩

end Registry
end CompilationUnit
