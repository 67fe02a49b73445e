import CompilationUnit.Proofs.Dependency

/-! The depth-first walk as a step relation, and the line of a walk: the functions it is done with,
in order, and behind them the functions being walked, the innermost first. Being done with a function
does not move it in the line, and a function is entered between the two parts. So the line is at
every moment the final order of the functions visited so far. -/
namespace CompilationUnit

namespace Frame

def name (f : Frame) : String := f.entry.name

def looked (f : Frame) : List String := f.entry.dependencies.names.take f.next

def finished (e : Entry) : Frame := ⟨e, e.dependencies.names.length⟩

theorem advanceLooked {f : Frame} {dependency : String} (h : f.dependency? = some dependency) :
    f.advance.looked = f.looked ++ [dependency] := by
  unfold looked advance
  rw [List.take_add_one]
  unfold dependency? at h
  simp [h]

theorem finishedLooked (e : Entry) : (finished e).looked = e.dependencies.names :=
  List.take_length

theorem finishedOfNone {f : Frame} (bounded : f.next ≤ f.entry.dependencies.names.length)
    (last : f.dependency? = none) : f = finished f.entry := by
  have past := List.getElem?_eq_none_iff.mp last
  have same : f.next = f.entry.dependencies.names.length := Nat.le_antisymm bounded past
  cases f
  simp only [finished, Frame.mk.injEq, true_and]
  exact same

theorem advanceBounded {f : Frame} {dependency : String} (h : f.dependency? = some dependency) :
    f.advance.next ≤ f.advance.entry.dependencies.names.length := by
  obtain ⟨inside, _⟩ := List.getElem?_eq_some_iff.mp h
  exact inside

theorem dependencyFresh {f : Frame} {dependency : String} (h : f.dependency? = some dependency) :
    dependency ∉ f.looked := by
  intro member
  obtain ⟨inside, there⟩ := List.getElem?_eq_some_iff.mp h
  obtain ⟨i, before, here⟩ := List.mem_take_iff_getElem.mp member
  -- A dependency is stored once.
  have same := (List.Nodup.getElem_inj_iff f.entry.dependencies.distinct).mp (here.trans there.symm)
  omega

end Frame

namespace Walk

variable {r : Registry} {live : List String} {w next : Walk}

theorem targetIff {name : String} {e : Entry} :
    target? r live name = some e ↔ e ∈ r.starts live ∧ e.name = name := by
  rw [target?, Option.filter_eq_some_iff, Registry.getIff, Registry.startsIff, decide_eq_true_eq]
  tauto

theorem targetNone {name : String} :
    target? r live name = none ↔ ¬ (name ∈ r.names ∧ name ∈ live) := by
  rw [← Registry.startNamesIff, List.mem_map, Option.eq_none_iff_forall_not_mem]
  refine ⟨?_, ?_⟩
  · intro absent target
    obtain ⟨e, start, same⟩ := target
    exact absent e (targetIff.mpr ⟨start, same⟩)
  · intro absent e found
    exact absent ⟨e, targetIff.mp found⟩

def advanced (w : Walk) (frame : Frame) (outer : List Frame) : Walk :=
  { w with frames := frame.advance :: outer }

def close (w : Walk) (edge : Edge) : Walk := { w with backEdges := w.backEdges ++ [edge] }

inductive Steps (r : Registry) (live : List String) (w : Walk) : Walk → Prop where
  | leave {frame outer} (frames : w.frames = frame :: outer) (last : frame.dependency? = none) :
      Steps r live w (w.leave frame.entry outer)
  | pass {frame outer dependency} (frames : w.frames = frame :: outer)
      (ahead : frame.dependency? = some dependency)
      (settled : dependency ∈ r.names ∧ dependency ∈ live → w.markOf dependency = .done) :
      Steps r live w (w.advanced frame outer)
  | enter {frame outer target} (frames : w.frames = frame :: outer)
      (ahead : frame.dependency? = some target.name) (start : target ∈ r.starts live)
      (unvisited : w.markOf target.name = .unvisited) :
      Steps r live w ((w.advanced frame outer).enter target)
  | close {frame outer target} (frames : w.frames = frame :: outer)
      (ahead : frame.dependency? = some target.name) (start : target ∈ r.starts live)
      (inProgress : w.markOf target.name = .inProgress) :
      Steps r live w ((w.advanced frame outer).close ⟨frame.name, target.name⟩)

theorem stepSource (h : w.step r live = some next) : Steps r live w next := by
  unfold step at h
  split at h
  · contradiction
  rename_i frame outer frames
  split at h
  · rename_i last
    cases h
    exact .leave frames last
  rename_i dependency ahead
  dsimp only at h
  split at h
  · rename_i absent
    cases h
    exact .pass frames ahead fun target => absurd target (targetNone.mp absent)
  rename_i target found
  obtain ⟨start, rfl⟩ := targetIff.mp found
  split at h
  · rename_i unvisited
    cases h
    exact .enter frames ahead start unvisited
  · rename_i inProgress
    cases h
    exact .close frames ahead start inProgress
  · rename_i done
    cases h
    exact .pass frames ahead fun _ => done

theorem stepStops : w.step r live = none ↔ w.frames = [] := by
  refine ⟨?_, ?_⟩
  · intro h
    unfold step at h
    split at h
    · assumption
    split at h
    · contradiction
    dsimp only at h
    split at h
    · contradiction
    split at h <;> contradiction
  · intro idle
    simp [step, idle]

theorem idleRun (idle : w.frames = []) : w.run r live = w := by
  rw [run, stepStops.mpr idle]

/- The walks that come up while an order is made: between two steps, or between two starts. -/
inductive Arises (r : Registry) (live : List String) : Walk → Prop where
  | blank : Arises r live .blank
  | start {w : Walk} {e : Entry} (before : Arises r live w) (idle : w.frames = [])
      (start : e ∈ r.starts live) (unvisited : w.markOf e.name = .unvisited) : Arises r live (w.enter e)
  | step {w next : Walk} (before : Arises r live w) (steps : Steps r live w next) : Arises r live next

theorem runArises (arises : Arises r live w) :
    Arises r live (w.run r live) ∧ (w.run r live).frames = [] := by
  induction w using run.induct r live with
  | case1 w stopped =>
    rw [run, stopped]
    exact ⟨arises, stepStops.mp stopped⟩
  | case2 w next continues ih =>
    rw [run, continues]
    exact ih (.step arises (stepSource continues))

def openNames (w : Walk) : List String := w.frames.map Frame.name

def closedNames (w : Walk) : List String := w.order.map Entry.name

def line (w : Walk) : List Frame := w.order.map Frame.finished ++ w.frames

def lineNames (w : Walk) : List String := w.closedNames ++ w.openNames

theorem lineNamesSource (w : Walk) : w.line.map Frame.name = w.lineNames := by
  simp [line, lineNames, closedNames, openNames, Frame.finished, Frame.name, Function.comp_def]

theorem lineNameOf {f : Frame} (member : f ∈ w.line) : f.name ∈ w.lineNames := by
  rw [← lineNamesSource]
  exact List.mem_map.mpr ⟨f, member, rfl⟩

structure Lined (r : Registry) (live : List String) (w : Walk) : Prop where
  distinct : w.lineNames.Nodup
  starts : ∀ f ∈ w.line, f.entry ∈ r.starts live
  bounded : ∀ f ∈ w.line, f.next ≤ f.entry.dependencies.names.length
  inProgress : ∀ name, w.markOf name = .inProgress ↔ name ∈ w.openNames
  done : ∀ name, w.markOf name = .done ↔ name ∈ w.closedNames

theorem blankLined : blank.Lined r live := by
  constructor <;> simp [blank, line, lineNames, openNames, closedNames, markOf, CompilationUnit.markOf]

theorem unvisitedIff (lined : w.Lined r live) {name : String} :
    w.markOf name = .unvisited ↔ name ∉ w.lineNames := by
  rw [lineNames, List.mem_append, ← lined.done, ← lined.inProgress]
  cases w.markOf name <;> simp

theorem advancedOpen {frame : Frame} {outer : List Frame} (frames : w.frames = frame :: outer) :
    (w.advanced frame outer).openNames = w.openNames := by
  simp [advanced, openNames, frames, Frame.advance, Frame.name]

theorem advancedNames {frame : Frame} {outer : List Frame} (frames : w.frames = frame :: outer) :
    (w.advanced frame outer).lineNames = w.lineNames := by
  rw [lineNames, advancedOpen frames]
  rfl

theorem advancedLine {frame f : Frame} {outer : List Frame} (frames : w.frames = frame :: outer)
    (member : f ∈ (w.advanced frame outer).line) : f = frame.advance ∨ f ∈ w.line := by
  simp only [line, advanced, frames, List.mem_append, List.mem_cons] at member ⊢
  tauto

theorem advancedLined {frame : Frame} {outer : List Frame} {dependency : String}
    (lined : w.Lined r live) (frames : w.frames = frame :: outer)
    (ahead : frame.dependency? = some dependency) : (w.advanced frame outer).Lined r live := by
  have present : frame ∈ w.line := by simp [line, frames]
  refine ⟨?_, ?_, ?_, ?_, ?_⟩
  · rw [advancedNames frames]
    exact lined.distinct
  · intro f member
    rcases advancedLine frames member with rfl | old
    · exact lined.starts frame present
    · exact lined.starts f old
  · intro f member
    rcases advancedLine frames member with rfl | old
    · exact Frame.advanceBounded ahead
    · exact lined.bounded f old
  · rw [advancedOpen frames]
    exact lined.inProgress
  · exact lined.done

theorem enterMember {e : Entry} {f : Frame} :
    f ∈ (w.enter e).line ↔ f = ⟨e, 0⟩ ∨ f ∈ w.line := by
  change f ∈ w.order.map Frame.finished ++ ⟨e, 0⟩ :: w.frames ↔ _
  simp only [line, List.mem_append, List.mem_cons]
  tauto

theorem enterNames (w : Walk) (e : Entry) :
    (w.enter e).lineNames = w.closedNames ++ e.name :: w.openNames := rfl

theorem enterLined {e : Entry} (lined : w.Lined r live) (start : e ∈ r.starts live)
    (unvisited : w.markOf e.name = .unvisited) : (w.enter e).Lined r live := by
  have fresh := (unvisitedIff lined).mp unvisited
  refine ⟨?_, ?_, ?_, ?_, ?_⟩
  · rw [enterNames, List.nodup_middle]
    exact List.nodup_cons.mpr ⟨fresh, lined.distinct⟩
  · intro f member
    rcases enterMember.mp member with rfl | old
    · exact start
    · exact lined.starts f old
  · intro f member
    rcases enterMember.mp member with rfl | old
    · exact Nat.zero_le _
    · exact lined.bounded f old
  · intro name
    have old := lined.inProgress name
    simp only [markOf, enter, markOfCons, openNames, List.map_cons, List.mem_cons, Frame.name]
      at old ⊢
    by_cases same : name = e.name <;> simp [same, old]
  · intro name
    have old := lined.done name
    simp only [markOf, enter, markOfCons, closedNames] at old ⊢
    by_cases same : name = e.name
    · have outside : e.name ∉ w.closedNames := fun inside => fresh (List.mem_append_left _ inside)
      rw [same]
      simpa [closedNames] using outside
    · simpa [same] using old

theorem leaveLine {frame : Frame} {outer : List Frame} (lined : w.Lined r live)
    (frames : w.frames = frame :: outer) (last : frame.dependency? = none) :
    (w.leave frame.entry outer).line = w.line := by
  have present : frame ∈ w.line := by simp [line, frames]
  -- The frame left turns into the last function of the order, where it was in the line already.
  have same := Frame.finishedOfNone (lined.bounded frame present) last
  simp only [line, leave, frames, List.map_append, List.map_cons, List.map_nil, List.append_assoc,
    List.cons_append, List.nil_append]
  rw [← same]

theorem leaveNames {frame : Frame} {outer : List Frame} (frames : w.frames = frame :: outer) :
    (w.leave frame.entry outer).lineNames = w.lineNames := by
  simp [leave, lineNames, closedNames, openNames, frames, Frame.name]

theorem leaveLined {frame : Frame} {outer : List Frame} (lined : w.Lined r live)
    (frames : w.frames = frame :: outer) (last : frame.dependency? = none) :
    (w.leave frame.entry outer).Lined r live := by
  have same := leaveLine lined frames last
  have distinct := lined.distinct
  rw [lineNames, openNames, frames, List.map_cons, List.nodup_middle] at distinct
  have fresh := (List.nodup_cons.mp distinct).1
  refine ⟨?_, ?_, ?_, ?_, ?_⟩
  · rw [leaveNames frames]
    exact lined.distinct
  · rw [same]
    exact lined.starts
  · rw [same]
    exact lined.bounded
  · intro name
    have old := lined.inProgress name
    simp only [markOf, leave, markOfCons, openNames, frames, List.map_cons, List.mem_cons] at old ⊢
    by_cases left : name = frame.entry.name
    · have outside : frame.name ∉ outer.map Frame.name :=
        fun inside => fresh (List.mem_append_right _ inside)
      rw [left]
      simpa [Frame.name] using outside
    · simpa [left, Frame.name] using old
  · intro name
    have old := lined.done name
    simp only [markOf, leave, markOfCons, closedNames, List.map_append, List.map_cons, List.map_nil,
      List.mem_append, List.mem_singleton] at old ⊢
    by_cases left : name = frame.entry.name <;> simp [left, old]

theorem stepLined (lined : w.Lined r live) (steps : Steps r live w next) : next.Lined r live := by
  cases steps with
  | leave frames last => exact leaveLined lined frames last
  | pass frames ahead settled => exact advancedLined lined frames ahead
  | enter frames ahead start unvisited => exact enterLined (advancedLined lined frames ahead) start unvisited
  | close frames ahead start inProgress =>
    have moved := advancedLined lined frames ahead
    exact ⟨moved.distinct, moved.starts, moved.bounded, moved.inProgress, moved.done⟩

theorem arisesLined (arises : Arises r live w) : w.Lined r live := by
  induction arises with
  | blank => exact blankLined
  | start before idle start unvisited ih => exact enterLined ih start unvisited
  | step before steps ih => exact stepLined ih steps

end Walk
end CompilationUnit
