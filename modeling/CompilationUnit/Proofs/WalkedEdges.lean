import CompilationUnit.Proofs.Walk

/-! The live edges a walk has looked at. Each step looks at one dependency at most, and never at one
that was looked at before. When the walk is at its end, it has visited every live function and looked
at every live edge. -/
namespace CompilationUnit
namespace Walk

variable {r : Registry} {live : List String} {w next : Walk}

def Looked (w : Walk) (caller callee : String) : Prop :=
  ∃ f ∈ w.line, f.name = caller ∧ callee ∈ f.looked

def upcoming (w : Walk) : Option Edge :=
  w.frames.head?.bind fun f => f.dependency?.map (Edge.mk f.name)

theorem upcomingSome {frame : Frame} {outer : List Frame} {dependency : String}
    (frames : w.frames = frame :: outer) (ahead : frame.dependency? = some dependency) :
    w.upcoming = some ⟨frame.name, dependency⟩ := by
  simp [upcoming, frames, ahead]

theorem upcomingIff {frame : Frame} {outer : List Frame} {dependency caller callee : String}
    (frames : w.frames = frame :: outer) (ahead : frame.dependency? = some dependency) :
    w.upcoming = some ⟨caller, callee⟩ ↔ caller = frame.name ∧ callee = dependency := by
  rw [upcomingSome frames ahead, Option.some.injEq, Edge.mk.injEq, eq_comm, @eq_comm _ dependency]

theorem upcomingFrame {caller callee : String} (h : w.upcoming = some ⟨caller, callee⟩) :
    ∃ frame ∈ w.line, frame.name = caller ∧ frame.dependency? = some callee := by
  cases frames : w.frames with
  | nil => simp [upcoming, frames] at h
  | cons frame outer =>
    simp only [upcoming, frames, List.head?_cons, Option.bind_some, Option.map_eq_some_iff,
      Edge.mk.injEq] at h
    obtain ⟨dependency, ahead, same, rfl⟩ := h
    exact ⟨frame, by simp [line, frames], same, ahead⟩

theorem frameOfName (lined : w.Lined r live) {f g : Frame} (left : f ∈ w.line) (right : g ∈ w.line)
    (same : f.name = g.name) : f = g := by
  have distinct := lined.distinct
  rw [← lineNamesSource] at distinct
  exact List.inj_on_of_nodup_map distinct left right same

theorem upcomingFresh (lined : w.Lined r live) {caller callee : String}
    (h : w.upcoming = some ⟨caller, callee⟩) : ¬ w.Looked caller callee := by
  intro before
  obtain ⟨f, member, same, looked⟩ := before
  obtain ⟨frame, present, rfl, ahead⟩ := upcomingFrame h
  rw [frameOfName lined member present same] at looked
  exact Frame.dependencyFresh ahead looked

theorem advancedLooked {frame : Frame} {outer : List Frame} {dependency : String}
    (frames : w.frames = frame :: outer) (ahead : frame.dependency? = some dependency)
    (caller callee : String) :
    (w.advanced frame outer).Looked caller callee ↔
      w.Looked caller callee ∨ caller = frame.name ∧ callee = dependency := by
  have split : ∀ (f : Frame) (frames : List Frame), f ∈ w.order.map Frame.finished ++ frames ↔
      f ∈ w.order.map Frame.finished ∨ f ∈ frames := fun f frames => List.mem_append
  simp only [Looked, line, advanced, frames, split, List.mem_cons]
  refine ⟨?_, ?_⟩
  · intro now
    obtain ⟨f, old | rfl | old, same, looked⟩ := now
    · exact .inl ⟨f, .inl old, same, looked⟩
    · rw [Frame.advanceLooked ahead, List.mem_append, List.mem_singleton] at looked
      rcases looked with before | rfl
      · exact .inl ⟨frame, .inr (.inl rfl), same, before⟩
      · exact .inr ⟨same.symm, rfl⟩
    · exact .inl ⟨f, .inr (.inr old), same, looked⟩
  · intro before
    rcases before with ⟨f, old | rfl | old, same, looked⟩ | ⟨rfl, rfl⟩
    · exact ⟨f, .inl old, same, looked⟩
    · refine ⟨f.advance, .inr (.inl rfl), same, ?_⟩
      rw [Frame.advanceLooked ahead]
      exact List.mem_append_left _ looked
    · exact ⟨f, .inr (.inr old), same, looked⟩
    · refine ⟨frame.advance, .inr (.inl rfl), rfl, ?_⟩
      rw [Frame.advanceLooked ahead]
      simp

theorem enterLooked (w : Walk) (e : Entry) (caller callee : String) :
    (w.enter e).Looked caller callee ↔ w.Looked caller callee := by
  refine ⟨?_, ?_⟩
  · intro now
    obtain ⟨f, member, same, looked⟩ := now
    rcases enterMember.mp member with rfl | old
    · simp [Frame.looked] at looked
    · exact ⟨f, old, same, looked⟩
  · intro before
    obtain ⟨f, old, same, looked⟩ := before
    exact ⟨f, enterMember.mpr (.inr old), same, looked⟩

theorem stepLooked (lined : w.Lined r live) (steps : Steps r live w next) (caller callee : String) :
    next.Looked caller callee ↔ w.Looked caller callee ∨ w.upcoming = some ⟨caller, callee⟩ := by
  cases steps with
  | @leave frame outer frames last =>
    have none : w.upcoming = none := by simp [upcoming, frames, last]
    simp [Looked, leaveLine lined frames last, none]
  | pass frames ahead settled => rw [advancedLooked frames ahead, upcomingIff frames ahead]
  | enter frames ahead start unvisited =>
    rw [enterLooked, advancedLooked frames ahead, upcomingIff frames ahead]
  | close frames ahead start inProgress =>
    rw [upcomingIff frames ahead]
    exact advancedLooked frames ahead caller callee

/- A dependency on a function that is not live, or not there, is looked at but is no live edge. -/
def Met (r : Registry) (live : List String) (w : Walk) (caller callee : String) : Prop :=
  w.Looked caller callee ∧ callee ∈ r.names ∧ callee ∈ live

theorem stepMet (lined : w.Lined r live) (steps : Steps r live w next) (caller callee : String) :
    next.Met r live caller callee ↔ w.Met r live caller callee ∨
      w.upcoming = some ⟨caller, callee⟩ ∧ callee ∈ r.names ∧ callee ∈ live := by
  rw [Met, stepLooked lined steps, Met, or_and_right]

theorem metLive (lined : w.Lined r live) {caller callee : String}
    (met : w.Met r live caller callee) : r.LiveEdge live caller callee := by
  obtain ⟨⟨f, member, rfl, looked⟩, registered, calleeLive⟩ := met
  obtain ⟨present, callerLive⟩ := Registry.startsIff.mp (lined.starts f member)
  have stored : callee ∈ f.entry.dependencies.names := List.mem_of_mem_take looked
  exact ⟨⟨⟨f.entry, present, rfl, stored⟩, registered⟩, callerLive, calleeLive⟩

theorem metInLine {caller callee : String} (met : w.Met r live caller callee) :
    caller ∈ w.lineNames := by
  obtain ⟨⟨f, member, rfl, _⟩, _⟩ := met
  exact lineNameOf member

theorem orderLooked {e : Entry} {name : String} (ordered : e ∈ w.order)
    (needed : name ∈ e.dependencies.names) : w.Looked e.name name := by
  refine ⟨Frame.finished e, List.mem_append_left _ (List.mem_map_of_mem ordered), rfl, ?_⟩
  rwa [Frame.finishedLooked]

theorem closedMet (lined : w.Lined r live) {caller callee : String} (closed : caller ∈ w.closedNames)
    (edge : r.LiveEdge live caller callee) : w.Met r live caller callee := by
  obtain ⟨e, ordered, rfl⟩ := List.mem_map.mp closed
  have finished : Frame.finished e ∈ w.line := List.mem_append_left _ (List.mem_map_of_mem ordered)
  have member := (Registry.startsIff.mp (lined.starts _ finished)).1
  obtain ⟨⟨depends, registered⟩, _, calleeLive⟩ := edge
  exact ⟨orderLooked ordered ((Registry.dependsIff member callee).mp depends), registered, calleeLive⟩

theorem stepKeeps (steps : Steps r live w next) {name : String} (member : name ∈ w.lineNames) :
    name ∈ next.lineNames := by
  cases steps with
  | leave frames last => rwa [leaveNames frames]
  | pass frames ahead settled => rwa [advancedNames frames]
  | enter frames ahead start unvisited =>
    rw [← advancedNames frames, lineNames, List.mem_append] at member
    rw [enterNames, List.mem_append, List.mem_cons]
    tauto
  | close frames ahead start inProgress => rwa [← advancedNames frames] at member

theorem runKeeps {name : String} (member : name ∈ w.lineNames) :
    name ∈ (w.run r live).lineNames := by
  induction w using run.induct r live with
  | case1 w stopped => rwa [run, stopped]
  | case2 w next continues ih =>
    rw [run, continues]
    exact ih (stepKeeps (stepSource continues) member)

structure Idle (r : Registry) (live : List String) (w : Walk) : Prop where
  arises : Arises r live w
  rests : w.frames = []

theorem visitIdle {e : Entry} (idle : w.Idle r live) (start : e ∈ r.starts live) :
    (visit r live w e).Idle r live := by
  unfold visit
  split
  · rename_i unvisited
    obtain ⟨arises, rests⟩ := runArises (.start idle.arises idle.rests start unvisited)
    exact ⟨arises, rests⟩
  · exact idle

theorem visitKeeps {name : String} (e : Entry) (member : name ∈ w.lineNames) :
    name ∈ (visit r live w e).lineNames := by
  unfold visit
  split
  · apply runKeeps
    rw [lineNames, List.mem_append] at member
    rw [enterNames, List.mem_append, List.mem_cons]
    tauto
  · exact member

theorem visitReaches {e : Entry} (idle : w.Idle r live) : e.name ∈ (visit r live w e).lineNames := by
  unfold visit
  split
  · apply runKeeps
    simp [enterNames]
  · rename_i visited
    rw [unvisitedIff (arisesLined idle.arises)] at visited
    exact Decidable.not_not.mp visited

theorem visitAll {starts : List Entry} (idle : w.Idle r live)
    (within : ∀ e ∈ starts, e ∈ r.starts live) :
    (starts.foldl (visit r live) w).Idle r live ∧
      ∀ name, name ∈ w.lineNames ∨ name ∈ starts.map Entry.name →
        name ∈ (starts.foldl (visit r live) w).lineNames := by
  induction starts generalizing w with
  | nil =>
    refine ⟨idle, ?_⟩
    intro name visited
    rcases visited with member | member
    · exact member
    · simp at member
  | cons e starts ih =>
    have start := within e List.mem_cons_self
    obtain ⟨later, all⟩ := ih (visitIdle idle start) fun f member => within f (List.mem_cons_of_mem e member)
    refine ⟨later, ?_⟩
    intro name member
    rw [List.map_cons, List.mem_cons] at member
    rcases member with old | rfl | other
    · exact all name (.inl (visitKeeps e old))
    · exact all e.name (.inl (visitReaches idle))
    · exact all name (.inr other)

theorem idleNames (idle : w.Idle r live) : w.lineNames = w.closedNames := by
  simp [lineNames, openNames, idle.rests]

end Walk

namespace Registry

variable {r : Registry} {live : List String}

def walked (r : Registry) (live : List String) : Walk :=
  (r.starts live).foldl (Walk.visit r live) .blank

theorem walkedIdle (r : Registry) (live : List String) : (r.walked live).Idle r live :=
  (Walk.visitAll ⟨.blank, rfl⟩ fun _ member => member).1

theorem walkedLined (r : Registry) (live : List String) : (r.walked live).Lined r live :=
  Walk.arisesLined (walkedIdle r live).arises

theorem walkedOrder {e : Entry} : e ∈ (r.walked live).order ↔ e ∈ r.starts live := by
  have idle := walkedIdle r live
  have lined := walkedLined r live
  have inOrder : ∀ {other : Entry}, other ∈ (r.walked live).order → other ∈ r.starts live := by
    intro other member
    refine lined.starts (Frame.finished other) (List.mem_append_left _ ?_)
    exact List.mem_map.mpr ⟨other, member, rfl⟩
  refine ⟨?_, ?_⟩
  · exact inOrder
  · intro start
    have blankIdle : Walk.blank.Idle r live := ⟨.blank, rfl⟩
    have reached := (Walk.visitAll blankIdle fun _ member => member).2 e.name
      (.inr (List.mem_map.mpr ⟨e, start, rfl⟩))
    change e.name ∈ (r.walked live).lineNames at reached
    rw [Walk.idleNames idle] at reached
    obtain ⟨other, member, same⟩ := List.mem_map.mp reached
    have left := (startsIff.mp (inOrder member)).1
    have right := (startsIff.mp start).1
    rwa [← entryOfName left right same]

theorem walkedMet {caller callee : String} :
    (r.walked live).Met r live caller callee ↔ r.LiveEdge live caller callee := by
  refine ⟨?_, ?_⟩
  · exact Walk.metLive (walkedLined r live)
  · intro edge
    obtain ⟨e, start, rfl⟩ := List.mem_map.mp
      (startNamesIff.mpr ⟨callerRegistered edge.1.1, edge.2.1⟩)
    have closed : e.name ∈ (r.walked live).closedNames :=
      List.mem_map_of_mem (walkedOrder.mpr start)
    exact Walk.closedMet (walkedLined r live) closed edge

end Registry
end CompilationUnit
