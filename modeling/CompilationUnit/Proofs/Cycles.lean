import CompilationUnit.Proofs.EmissionOrder

/-! Back edges and cycles. From each function being walked a path leads inwards to each function
walked inside it, over live edges that were looked at and did not become back edges; an edge once
settled so stays settled. A back edge closes such a path, so it can not be spared. -/
namespace CompilationUnit
open Relation

def Acyclic (edge : String → String → Prop) : Prop := ∀ name, ¬ TransGen edge name name

def Registry.LiveWithout (r : Registry) (live : List String) (removed : List Edge)
    (caller callee : String) : Prop :=
  r.LiveEdge live caller callee ∧ ⟨caller, callee⟩ ∉ removed

namespace Walk

variable {r : Registry} {live : List String} {w next : Walk}

def Settled (r : Registry) (live : List String) (w : Walk) (caller callee : String) : Prop :=
  w.Met r live caller callee ∧ ⟨caller, callee⟩ ∉ w.backEdges

theorem stepSettles (lined : w.Lined r live) (steps : Steps r live w next) {caller callee : String}
    (settled : w.Settled r live caller callee) : next.Settled r live caller callee := by
  obtain ⟨met, unrecorded⟩ := settled
  refine ⟨(stepMet lined steps caller callee).mpr (.inl met), ?_⟩
  rcases stepBackEdges steps with same | ⟨edge, ahead, target, more⟩
  · rwa [same]
  · rw [more, List.mem_append, List.mem_singleton]
    intro recorded
    rcases recorded with old | rfl
    · exact unrecorded old
    · exact upcomingFresh lined ahead met.1

structure Rejoined (r : Registry) (live : List String) (w : Walk) : Prop where
  tied : w.openNames.Pairwise fun inner outer => ReflTransGen (w.Settled r live) outer inner
  closed : ∀ edge ∈ w.backEdges, ReflTransGen (w.Settled r live) edge.callee edge.caller

theorem stepRejoined (lined : w.Lined r live) (classified : w.Classified r live)
    (rejoined : w.Rejoined r live) (steps : Steps r live w next) : next.Rejoined r live := by
  have path : ∀ {a b}, ReflTransGen (w.Settled r live) a b →
      ReflTransGen (next.Settled r live) a b :=
    fun old => old.lift id fun _ _ => stepSettles lined steps
  have tied := rejoined.tied.imp path
  have closed : ∀ edge ∈ w.backEdges, ReflTransGen (next.Settled r live) edge.callee edge.caller :=
    fun edge member => path (rejoined.closed edge member)
  cases steps with
  | leave frames last =>
    rw [openNames, frames] at tied
    exact ⟨(List.pairwise_cons.mp tied).2, closed⟩
  | pass frames ahead settled =>
    rw [openNames, frames] at tied
    exact ⟨tied, closed⟩
  | @enter frame outer target frames ahead start unvisited =>
    have steps : Steps r live w _ := .enter frames ahead start unvisited
    have upcoming := upcomingSome frames ahead
    have settled : ((w.advanced frame outer).enter target).Settled r live frame.name target.name := by
      obtain ⟨member, isLive⟩ := Registry.startsIff.mp start
      refine ⟨(stepMet lined steps _ _).mpr (.inr ⟨upcoming, ?_⟩), ?_⟩
      · exact ⟨Registry.nameRegistered member, isLive⟩
      · exact upcomingUnrecorded lined classified upcoming
    rw [openNames, frames] at tied
    refine ⟨List.pairwise_cons.mpr ⟨?_, tied⟩, closed⟩
    intro name opened
    rcases List.mem_cons.mp opened with rfl | outside
    · exact .single settled
    · exact ((List.pairwise_cons.mp tied).1 name outside).tail settled
  | @close frame outer target frames ahead start inProgress =>
    have opened := (lined.inProgress target.name).mp inProgress
    rw [openNames, frames] at tied opened
    refine ⟨tied, ?_⟩
    intro edge member
    rcases List.mem_append.mp member with old | new
    · exact closed edge old
    · rw [List.mem_singleton.mp new]
      rcases List.mem_cons.mp opened with same | outside
      · rw [same]
      · exact (List.pairwise_cons.mp tied).1 target.name outside

theorem arisesRejoined (arises : Arises r live w) : w.Rejoined r live := by
  induction arises with
  | blank => exact ⟨by simp [blank, openNames], by simp [blank]⟩
  | @start w e before idle start unvisited ih =>
    have settled : ∀ caller callee, w.Settled r live caller callee →
        (w.enter e).Settled r live caller callee := by
      intro caller callee
      rw [Settled, Settled, Met, Met, enterLooked]
      exact id
    refine ⟨by simp [enter, openNames, idle], ?_⟩
    intro edge member
    exact (ih.closed edge member).lift id settled
  | step before steps ih =>
    exact stepRejoined (arisesLined before) (arisesClassified before) ih steps

end Walk

namespace Registry

variable {r : Registry} {live : List String}

theorem backEdgeRejoins {edge : Edge} (member : edge ∈ (r.sequence live).backEdges) :
    ReflTransGen (r.LiveWithout live (r.sequence live).backEdges) edge.callee edge.caller := by
  have path := (Walk.arisesRejoined (walkedIdle r live).arises).closed edge member
  refine path.lift id ?_
  intro caller callee settled
  exact ⟨walkedMet.mp settled.1, settled.2⟩

theorem withoutBackEdgesAcyclic (r : Registry) (live : List String) :
    Acyclic (r.LiveWithout live (r.sequence live).backEdges) := by
  have earlier : ∀ {caller callee},
      TransGen (r.LiveWithout live (r.sequence live).backEdges) caller callee →
      Precedes ((r.sequence live).order.map Entry.name) callee caller := by
    intro caller callee path
    induction path with
    | single step => exact keptPrecedes step.1 step.2
    | tail before step ih => exact precedesTrans (keptPrecedes step.1 step.2) ih
  intro name cycle
  exact precedesIrrefl _ name (earlier cycle)

theorem backEdgeOnCycle {edge : Edge} (member : edge ∈ (r.sequence live).backEdges) :
    ReflTransGen (r.LiveEdge live) edge.callee edge.caller :=
  (backEdgeRejoins member).lift id fun _ _ step => step.1

theorem backEdgesEmptyIff : (r.sequence live).backEdges = [] ↔ Acyclic (r.LiveEdge live) := by
  refine ⟨?_, ?_⟩
  · intro none name cycle
    have acyclic := withoutBackEdgesAcyclic r live name
    rw [none] at acyclic
    exact acyclic (cycle.lift id fun _ _ step => ⟨step, by simp⟩)
  · intro acyclic
    refine List.eq_nil_iff_forall_not_mem.mpr ?_
    intro edge member
    exact acyclic edge.caller (.head' (backEdgeLive member) (backEdgeOnCycle member))

theorem backEdgesMinimal {removed : List Edge}
    (within : ∀ edge ∈ removed, edge ∈ (r.sequence live).backEdges)
    (acyclic : Acyclic (r.LiveWithout live removed)) :
    ∀ edge ∈ (r.sequence live).backEdges, edge ∈ removed := by
  intro edge member
  by_contra spared
  -- A spared edge would close the path that led to it, which takes no back edge.
  have path : ReflTransGen (r.LiveWithout live removed) edge.callee edge.caller :=
    (backEdgeRejoins member).lift id fun _ _ step => ⟨step.1, fun inside => step.2 (within _ inside)⟩
  exact acyclic edge.caller (.head' ⟨backEdgeLive member, spared⟩ path)

theorem backEdgesBreakCyclesMinimally (r : Registry) (live : List String) :
    Acyclic (r.LiveWithout live (r.sequence live).backEdges) ∧
    (∀ edge ∈ (r.sequence live).backEdges, r.LiveEdge live edge.caller edge.callee ∧
      ReflTransGen (r.LiveWithout live (r.sequence live).backEdges) edge.callee edge.caller) ∧
    (∀ removed : List Edge, (∀ edge ∈ removed, edge ∈ (r.sequence live).backEdges) →
      Acyclic (r.LiveWithout live removed) →
      ∀ edge ∈ (r.sequence live).backEdges, edge ∈ removed) ∧
    ((r.sequence live).backEdges = [] ↔ Acyclic (r.LiveEdge live)) ∧
    ∀ caller callee, ¬ ReflTransGen (r.LiveEdge live) callee caller →
      ⟨caller, callee⟩ ∉ (r.sequence live).backEdges :=
  ⟨withoutBackEdgesAcyclic r live,
    fun _ member => ⟨backEdgeLive member, backEdgeRejoins member⟩,
    fun _ => backEdgesMinimal, backEdgesEmptyIff,
    fun _ _ noCycle member => noCycle (backEdgeOnCycle member)⟩

end Registry
end CompilationUnit
