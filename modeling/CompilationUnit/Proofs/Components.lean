import CompilationUnit.Proofs.Cycles
import Mathlib.Order.Antisymmetrization

/-! Strongly connected components of the live dependencies, in the order of their last functions. All
that a function leads to waits for a function of its own component: one that is still being walked, or
the last one of the component to be done. So what a component leads to is out before the component is. -/
namespace CompilationUnit
open Relation

namespace Registry

def Joined (r : Registry) (live : List String) : String → String → Prop :=
  AntisymmRel (ReflTransGen (r.LiveEdge live))

def Component (r : Registry) (live : List String) (members : Set String) : Prop :=
  ∃ root, (root ∈ r.names ∧ root ∈ live) ∧ members = {name | r.Joined live root name}

end Registry

namespace Walk

variable {r : Registry} {live : List String} {w next : Walk}

def Outlasts (w : Walk) (later name : String) : Prop :=
  later ∈ w.openNames ∨ name = later ∨ Precedes w.closedNames name later

def Outlasted (r : Registry) (live : List String) (w : Walk) : Prop :=
  ∀ caller ∈ w.closedNames, ∀ callee, ReflTransGen (r.LiveEdge live) caller callee →
    ∃ later, r.Joined live caller later ∧ w.Outlasts later callee

theorem settledLive (lined : w.Lined r live) {caller callee : String}
    (path : ReflTransGen (w.Settled r live) caller callee) :
    ReflTransGen (r.LiveEdge live) caller callee :=
  path.lift id fun _ _ settled => metLive lined settled.1

/- From a function that is left, a path stays among the functions that are done until it comes to one
that is still being walked, and from there the walk came to the function that is left. -/
theorem leaveWithin {frame : Frame} {outer : List Frame} {name : String} (lined : w.Lined r live)
    (classified : w.Classified r live) (rejoined : w.Rejoined r live)
    (frames : w.frames = frame :: outer) (last : frame.dependency? = none)
    (path : ReflTransGen (r.LiveEdge live) frame.name name) :
    name ∈ (w.leave frame.entry outer).closedNames ∨
      ∃ later ∈ outer.map Frame.name, r.Joined live frame.name later := by
  have steps : Steps r live w _ := .leave frames last
  have linedNext := stepLined lined steps
  have classifiedNext := stepClassified lined classified steps
  induction path with
  | refl => exact .inl (by simp [leave, closedNames, Frame.name])
  | @tail caller callee before edge ih =>
    rcases ih with closed | joined
    · have placed := classifiedNext.placed caller callee (closedMet linedNext closed edge)
      rcases List.mem_append.mp placed.1 with done | opened
      · exact .inl done
      · have tied := rejoined.tied
        rw [openNames, frames] at tied
        have inwards := (List.pairwise_cons.mp tied).1 callee opened
        exact .inr ⟨callee, opened, before.tail edge, settledLive lined inwards⟩
    · exact .inr joined

theorem leaveOutlasted {frame : Frame} {outer : List Frame} (lined : w.Lined r live)
    (classified : w.Classified r live) (rejoined : w.Rejoined r live)
    (frames : w.frames = frame :: outer) (last : frame.dependency? = none)
    (outlasted : w.Outlasted r live) : (w.leave frame.entry outer).Outlasted r live := by
  have closed : (w.leave frame.entry outer).closedNames = w.closedNames ++ [frame.name] := by
    simp [leave, closedNames, Frame.name]
  have left : ∀ callee, ReflTransGen (r.LiveEdge live) frame.name callee →
      ∃ later, r.Joined live frame.name later ∧
        (w.leave frame.entry outer).Outlasts later callee := by
    intro callee path
    rcases leaveWithin lined classified rejoined frames last path with done | ⟨later, opened, joined⟩
    · refine ⟨frame.name, .rfl, .inr ?_⟩
      rw [closed] at done ⊢
      rcases List.mem_append.mp done with earlier | now
      · exact .inr (precedesAcross earlier (openOutside lined (innermostOpen frames)) (by simp))
      · exact .inl (List.mem_singleton.mp now)
    · exact ⟨later, joined, .inl opened⟩
  intro caller member callee path
  rw [closed, List.mem_append, List.mem_singleton] at member
  rcases member with old | rfl
  · obtain ⟨later, joined, opened | same | before⟩ := outlasted caller old callee path
    · rw [openNames, frames] at opened
      rcases List.mem_cons.mp opened with rfl | outside
      · obtain ⟨last, onwards, outlasts⟩ := left callee (joined.2.trans path)
        exact ⟨last, joined.trans onwards, outlasts⟩
      · exact ⟨later, joined, .inl outside⟩
    · exact ⟨later, joined, .inr (.inl same)⟩
    · refine ⟨later, joined, .inr (.inr ?_)⟩
      rw [closed]
      exact precedesAppend before _
  · exact left callee path

theorem Outlasted.grow (outlasted : w.Outlasted r live) (closed : next.closedNames = w.closedNames)
    (opened : ∀ name ∈ w.openNames, name ∈ next.openNames) : next.Outlasted r live := by
  intro caller member callee path
  rw [closed] at member
  obtain ⟨later, joined, outlasts⟩ := outlasted caller member callee path
  refine ⟨later, joined, ?_⟩
  rw [Outlasts, closed]
  exact outlasts.imp_left (opened later)

theorem stepOutlasted (lined : w.Lined r live) (classified : w.Classified r live)
    (rejoined : w.Rejoined r live) (outlasted : w.Outlasted r live) (steps : Steps r live w next) :
    next.Outlasted r live := by
  cases steps with
  | leave frames last => exact leaveOutlasted lined classified rejoined frames last outlasted
  | pass frames ahead settled =>
    exact outlasted.grow rfl fun name opened => (advancedOpen frames).symm ▸ opened
  | enter frames ahead start unvisited =>
    refine outlasted.grow rfl fun name opened => List.mem_cons_of_mem _ ?_
    rw [← advancedOpen frames] at opened
    exact opened
  | close frames ahead start inProgress =>
    exact outlasted.grow rfl fun name opened => (advancedOpen frames).symm ▸ opened

theorem arisesOutlasted (arises : Arises r live w) : w.Outlasted r live := by
  induction arises with
  | blank => exact fun caller member => nomatch member
  | start before idle start unvisited ih =>
    exact ih.grow rfl fun name opened => List.mem_cons_of_mem _ opened
  | step before steps ih =>
    exact stepOutlasted (arisesLined before) (arisesClassified before) (arisesRejoined before) ih steps

end Walk

namespace Registry

variable {r : Registry} {live : List String}

theorem sequenceOutlasted {caller callee : String}
    (ordered : caller ∈ (r.sequence live).order.map Entry.name)
    (path : ReflTransGen (r.LiveEdge live) caller callee) :
    ∃ later, r.Joined live caller later ∧
      (callee = later ∨ Precedes ((r.sequence live).order.map Entry.name) callee later) := by
  have idle := walkedIdle r live
  obtain ⟨later, joined, outlasts⟩ := Walk.arisesOutlasted idle.arises caller ordered callee path
  refine ⟨later, joined, outlasts.resolve_left ?_⟩
  simp [Walk.openNames, idle.rests]

theorem pathOrdered {caller callee : String}
    (ordered : caller ∈ (r.sequence live).order.map Entry.name)
    (path : ReflTransGen (r.LiveEdge live) caller callee) :
    callee ∈ (r.sequence live).order.map Entry.name := by
  cases path with
  | refl => exact ordered
  | tail before edge => exact (liveEdgeOrdered edge).2

theorem componentOrdered {members : Set String} {name : String} (component : r.Component live members)
    (inside : name ∈ members) : name ∈ (r.sequence live).order.map Entry.name := by
  obtain ⟨root, isLive, rfl⟩ := component
  exact pathOrdered (sequenceMember.mpr isLive) inside.1

theorem componentJoined {members : Set String} {a b : String} (component : r.Component live members)
    (inside : a ∈ members) : b ∈ members ↔ r.Joined live a b := by
  obtain ⟨root, _, rfl⟩ := component
  exact ⟨inside.symm.trans, inside.trans⟩

theorem componentSame {A B : Set String} {name : String} (left : r.Component live A)
    (right : r.Component live B) (inLeft : name ∈ A) (inRight : name ∈ B) : A = B := by
  ext other
  rw [componentJoined left inLeft, componentJoined right inRight]

theorem cyclelessJoined {name later : String} (cycleless : ¬ TransGen (r.LiveEdge live) name name)
    (joined : r.Joined live name later) : later = name := by
  rcases reflTransGen_iff_eq_or_transGen.mp joined.1 with same | onwards
  · exact same
  · exact absurd (onwards.trans_left joined.2) cycleless

theorem componentsInOrder (r : Registry) (live : List String) :
    (∀ A B, r.Component live A → r.Component live B → A ≠ B →
      (∃ a ∈ A, ∃ b ∈ B, ReflTransGen (r.LiveEdge live) a b) →
      ∃ last ∈ A,
        (∀ a ∈ A, a = last ∨ Precedes ((r.sequence live).order.map Entry.name) a last) ∧
        ∀ b ∈ B, Precedes ((r.sequence live).order.map Entry.name) b last) ∧
    ∀ caller callee, ¬ TransGen (r.LiveEdge live) caller caller →
      TransGen (r.LiveEdge live) caller callee →
      Precedes ((r.sequence live).order.map Entry.name) callee caller := by
  refine ⟨?_, ?_⟩
  · intro A B left right different path
    obtain ⟨a, aIn, b, bIn, path⟩ := path
    obtain ⟨last, lastIn, latest⟩ := lastAmong (componentOrdered left aIn) aIn
    have all : ∀ a ∈ A, a = last ∨ Precedes ((r.sequence live).order.map Entry.name) a last :=
      fun a inside => latest a (componentOrdered left inside) inside
    refine ⟨last, lastIn, all, ?_⟩
    intro other otherIn
    have onwards := path.trans ((componentJoined right bIn).mp otherIn).1
    obtain ⟨later, joined, same | before⟩ := sequenceOutlasted (componentOrdered left aIn) onwards
    · have shared : other ∈ A := same ▸ (componentJoined left aIn).mpr joined
      exact absurd (componentSame left right shared otherIn) different
    · rcases all later ((componentJoined left aIn).mpr joined) with same | after
      · exact same ▸ before
      · exact precedesTrans before after
  · intro caller callee cycleless path
    obtain ⟨second, edge, _⟩ := TransGen.head'_iff.mp path
    obtain ⟨later, joined, same | before⟩ := sequenceOutlasted (liveEdgeOrdered edge).1 path.to_reflTransGen
    · have returned := same.trans (cyclelessJoined cycleless joined)
      exact absurd (returned ▸ path) cycleless
    · exact cyclelessJoined cycleless joined ▸ before

def tangled : Registry where
  entries := [.ofRegistration (.placeholder "even" ⟨none, false, ["odd"]⟩),
    .ofRegistration (.placeholder "main" ⟨none, true, ["odd"]⟩),
    .ofRegistration (.placeholder "odd" ⟨none, false, ["even"]⟩)]
  policy := .strict
  finalized := false
  distinct := by decide

def mainAlone : Set String := {name | tangled.Joined tangled.names "main" name}

def evenAndOdd : Set String := {name | tangled.Joined tangled.names "odd" name}

theorem cycleBeforeMain :
    tangled.Component tangled.names mainAlone ∧ tangled.Component tangled.names evenAndOdd ∧
    mainAlone ≠ evenAndOdd ∧
    (∃ last ∈ mainAlone,
      (∀ a ∈ mainAlone, a = last ∨
        Precedes ((tangled.sequence tangled.names).order.map Entry.name) a last) ∧
      ∀ b ∈ evenAndOdd, Precedes ((tangled.sequence tangled.names).order.map Entry.name) b last) ∧
    Precedes ((tangled.sequence tangled.names).order.map Entry.name) "even" "main" := by
  have edge : ∀ caller callee, callee ∈ tangled.names → tangled.Depends caller callee →
      caller ∈ tangled.names → tangled.LiveEdge tangled.names caller callee :=
    fun caller callee calleeIn depends callerIn => ⟨⟨depends, calleeIn⟩, callerIn, calleeIn⟩
  have mainOdd := edge "main" "odd" (by decide) ⟨_, .tail _ (.head _), rfl, by decide⟩ (by decide)
  have oddEven := edge "odd" "even" (by decide) ⟨_, .tail _ (.tail _ (.head _)), rfl, by decide⟩ (by decide)
  have unneeded : ∀ e ∈ tangled.entries, "main" ∉ e.dependencies.names := by decide
  have noReturn : ∀ caller, ¬ tangled.LiveEdge tangled.names caller "main" := by
    intro caller edge
    obtain ⟨⟨⟨e, member, _, stored⟩, _⟩, _⟩ := edge
    exact unneeded e member stored
  have cycleless : ¬ TransGen (tangled.LiveEdge tangled.names) "main" "main" := by
    intro cycle
    obtain ⟨caller, _, last⟩ := TransGen.tail'_iff.mp cycle
    exact noReturn caller last
  have alone : tangled.Component tangled.names mainAlone := ⟨"main", by decide, rfl⟩
  have pair : tangled.Component tangled.names evenAndOdd := ⟨"odd", by decide, rfl⟩
  have different : mainAlone ≠ evenAndOdd := by
    intro same
    have joined : tangled.Joined tangled.names "main" "odd" :=
      show "odd" ∈ mainAlone from same ▸ (.rfl : tangled.Joined tangled.names "odd" "odd")
    exact absurd (cyclelessJoined cycleless joined) (by decide)
  have ordered := componentsInOrder tangled tangled.names
  exact ⟨alone, pair, different,
    ordered.1 mainAlone evenAndOdd alone pair different ⟨"main", .rfl, "odd", .rfl, .single mainOdd⟩,
    ordered.2 "main" "even" cycleless (.tail (.single mainOdd) oddEven)⟩

end Registry
end CompilationUnit
