import CompilationUnit.Proofs.Course

/-! The walk between two rounds. The frames on its stack lead to each other by the dependencies they
looked at last; the marks tell what is on the stack and what is in the order; and whatever was looked at
was settled. -/
namespace CompilationUnit

def Frame.LedBy (inner outer : Frame) : Prop :=
  ∃ i, outer.next = i + 1 ∧ outer.entry.dependencies.names[i]? = some inner.name

namespace Walk

structure Coherent (r : Registry) (live : List String) (w : Walk) : Prop where
  distinct : w.openNames.Nodup
  registered : ∀ f ∈ w.frames, r.get? f.name = some f.entry ∧ f.name ∈ live
  led : w.frames.IsChain Frame.LedBy
  inProgress : ∀ name, w.markOf name = .inProgress ↔ name ∈ w.openNames
  done : ∀ name, w.markOf name = .done ↔ name ∈ w.closedNames
  once : w.closedNames.Nodup
  bounded : ∀ f ∈ w.frames, f.next ≤ f.entry.dependencies.names.length
  visited : ∀ f ∈ w.frames, ∀ name ∈ f.looked, name ∈ r.names → name ∈ live →
    w.markOf name = .inProgress ∨ w.markOf name = .done
  settled : ∀ e ∈ w.order, ∀ name ∈ e.dependencies.names, name ∈ r.names → name ∈ live →
    (⟨e.name, name⟩ ∈ w.backEdges ↔ ¬ Precedes w.closedNames name e.name)

variable {r : Registry} {live : List String} {w next : Walk}

theorem advanceLed {frame : Frame} {outer : List Frame}
    (led : (frame :: outer).IsChain Frame.LedBy) : (frame.advance :: outer).IsChain Frame.LedBy := by
  cases led with
  | singleton => exact .singleton _
  | cons_cons first others => exact .cons_cons first others

theorem stepLed (led : w.frames.IsChain Frame.LedBy) (steps : Steps r live w next) :
    next.frames.IsChain Frame.LedBy := by
  cases steps with
  | leave frames last =>
    rw [frames] at led
    exact led.of_cons
  | pass frames ahead settled =>
    rw [frames] at led
    exact advanceLed led
  | @enter frame outer target frames ahead start unvisited =>
    rw [frames] at led
    exact .cons_cons ⟨frame.next, rfl, ahead⟩ (advanceLed led)
  | close frames ahead start inProgress =>
    rw [frames] at led
    exact advanceLed led

theorem arisesLed (arises : Arises r live w) : w.frames.IsChain Frame.LedBy := by
  induction arises with
  | blank => exact .nil
  | @start w e before idle start unvisited ih =>
    rw [enter, idle]
    exact .singleton _
  | step before steps ih => exact stepLed ih steps

theorem lookedVisited (lined : w.Lined r live) (classified : w.Classified r live) {f : Frame}
    {name : String} (member : f ∈ w.line) (looked : name ∈ f.looked) (registered : name ∈ r.names)
    (isLive : name ∈ live) : w.markOf name = .inProgress ∨ w.markOf name = .done := by
  have placed := classified.placed f.name name ⟨⟨f, member, rfl, looked⟩, registered, isLive⟩
  rcases List.mem_append.mp placed.1 with closed | opened
  · exact .inr ((lined.done name).mpr closed)
  · exact .inl ((lined.inProgress name).mpr opened)

theorem closedSettled (classified : w.Classified r live) {e : Entry} {name : String} (ordered : e ∈ w.order)
    (needed : name ∈ e.dependencies.names) (registered : name ∈ r.names) (isLive : name ∈ live) :
    ⟨e.name, name⟩ ∈ w.backEdges ↔ ¬ Precedes w.closedNames name e.name := by
  have placed := classified.placed e.name name ⟨orderLooked ordered needed, registered, isLive⟩
  have closed : e.name ∈ w.closedNames := List.mem_map_of_mem ordered
  rw [placed.2, lineNames, precedesWithin closed]

theorem coherentBetweenRounds {ahead entered : List Entry} {rounds : Nat}
    (course : Course r live ahead entered rounds w) : w.Coherent r live := by
  have arises := (courseSource course).1
  have lined := arisesLined arises
  have classified := arisesClassified arises
  have inLine : ∀ {f : Frame}, f ∈ w.frames → f ∈ w.line := fun member => List.mem_append_right _ member
  obtain ⟨closedOnce, openOnce, _⟩ := List.nodup_append.mp lined.distinct
  exact {
    distinct := openOnce
    registered := fun f member => by
      obtain ⟨stored, isLive⟩ := Registry.startsIff.mp (lined.starts f (inLine member))
      exact ⟨Registry.getIff.mpr ⟨stored, rfl⟩, isLive⟩
    led := arisesLed arises
    inProgress := lined.inProgress
    done := lined.done
    once := closedOnce
    bounded := fun f member => lined.bounded f (inLine member)
    visited := fun f member name => lookedVisited lined classified (inLine member)
    settled := fun e ordered name => closedSettled classified ordered }

/- The walk of the knot after five rounds: done with the leaf, one cycle closed and one still ahead. -/
def halfway : Walk where
  marks := [("ping", .inProgress), ("leaf", .done), ("leaf", .inProgress), ("main", .inProgress)]
  frames := [⟨.ofRegistration (.placeholder "ping" ⟨none, false, ["main", "ping"]⟩), 1⟩,
    ⟨.ofRegistration (.placeholder "main" ⟨none, true, ["leaf", "lost", "ping"]⟩), 3⟩]
  order := [.ofRegistration (.placeholder "leaf" .default)]
  backEdges := [⟨"ping", "main"⟩]

theorem knotHalfway :
    (∃ ahead entered, Course .knot Registry.knot.names ahead entered 5 halfway) ∧
    halfway.Coherent .knot Registry.knot.names := by
  have course : ∃ ahead entered, Course .knot Registry.knot.names ahead entered 5 halfway :=
    ⟨_, _, .round (.round (.round (.round (.round (.start .blank rfl rfl) rfl) rfl) rfl) rfl) rfl⟩
  obtain ⟨ahead, entered, reached⟩ := course
  exact ⟨⟨ahead, entered, reached⟩, coherentBetweenRounds reached⟩

end Walk
end CompilationUnit
