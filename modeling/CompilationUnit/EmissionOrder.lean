import CompilationUnit.Reachability

/-!
The order of the live functions: dependencies before the functions that need them, as far as cycles
allow. A depth-first walk starts from each live function in registration order and follows
dependencies in their stored order; it keeps its own stack of frames. A dependency on a function
that is still being walked closes a cycle: it is recorded and passed over.
-/
namespace CompilationUnit

inductive Mark
  | unvisited
  | inProgress
  | done
  deriving DecidableEq, Repr

def markOf (name : String) (marks : List (String × Mark)) : Mark :=
  (marks.lookup name).getD .unvisited

structure Frame where
  entry : Entry
  next : Nat
  deriving DecidableEq, Repr

def Frame.dependency? (f : Frame) : Option String := f.entry.dependencies.names[f.next]?

def Frame.advance (f : Frame) : Frame := { f with next := f.next + 1 }

structure Walk where
  marks : List (String × Mark)
  frames : List Frame
  order : List Entry
  backEdges : List Edge
  deriving DecidableEq, Repr

namespace Walk

def blank : Walk := ⟨[], [], [], []⟩

def markOf (w : Walk) (name : String) : Mark := CompilationUnit.markOf name w.marks

def enter (w : Walk) (entry : Entry) : Walk :=
  { w with marks := (entry.name, .inProgress) :: w.marks, frames := ⟨entry, 0⟩ :: w.frames }

def leave (w : Walk) (entry : Entry) (outer : List Frame) : Walk :=
  { w with
    marks := (entry.name, .done) :: w.marks
    frames := outer
    order := w.order ++ [entry] }

def target? (r : Registry) (live : List String) (name : String) : Option Entry :=
  (r.get? name).filter fun entry => decide (entry.name ∈ live)

def step (r : Registry) (live : List String) (w : Walk) : Option Walk :=
  match w.frames with
  | [] => none
  | frame :: outer =>
    match frame.dependency? with
    | none => some (w.leave frame.entry outer)
    | some dependency =>
      let advanced := { w with frames := frame.advance :: outer }
      match target? r live dependency with
      | none => some advanced
      | some target =>
        match w.markOf target.name with
        | .unvisited => some (advanced.enter target)
        | .inProgress =>
          some { advanced with backEdges := w.backEdges ++ [⟨frame.entry.name, target.name⟩] }
        | .done => some advanced

def entryCost (e : Entry) : Nat := e.dependencies.names.length + 1

def frameCost (f : Frame) : Nat := f.entry.dependencies.names.length - f.next + 1

def isOpen (w : Walk) (e : Entry) : Bool := w.markOf e.name == .unvisited

/-- Steps that the unvisited functions and the open frames can still take. -/
def work (r : Registry) (w : Walk) : Nat :=
  remaining entryCost w.isOpen r.entries + total (w.frames.map frameCost)

theorem markOfCons (name other : String) (mark : Mark) (marks : List (String × Mark)) :
    CompilationUnit.markOf name ((other, mark) :: marks) =
      if name = other then mark else CompilationUnit.markOf name marks := by
  unfold CompilationUnit.markOf
  by_cases same : name = other
  · simp [same]
  · have different : (name == other) = false := by simpa using same
    simp [List.lookup_cons, different, same]

theorem targetMember {r : Registry} {live : List String} {name : String} {target : Entry}
    (h : target? r live name = some target) : target ∈ r.entries := by
  obtain ⟨found, _⟩ := Option.filter_eq_some_iff.mp h
  exact List.mem_of_find?_eq_some found

theorem isOpenCons {w later : Walk} {name : String} {mark : Mark}
    (marks : later.marks = (name, mark) :: w.marks) (visited : mark ≠ .unvisited) (e : Entry)
    (h : later.isOpen e = true) : w.isOpen e = true := by
  simp only [isOpen, markOf, marks, markOfCons, beq_iff_eq] at h ⊢
  split at h
  · exact absurd h visited
  · exact h

theorem enterWork {r : Registry} {w : Walk} {entry : Entry} (member : entry ∈ r.entries)
    (unvisited : w.markOf entry.name = .unvisited) : (w.enter entry).work r ≤ w.work r := by
  have less : ∀ e, (w.enter entry).isOpen e = true → w.isOpen e = true :=
    isOpenCons rfl (by decide)
  have had : w.isOpen entry = true := by simp [isOpen, unvisited]
  have gone : (w.enter entry).isOpen entry = false := by
    simp [isOpen, markOf, enter, markOfCons]
  have fewer := remainingTake entryCost less member had gone
  simp only [work, enter, List.map_cons, totalCons, frameCost, entryCost, Nat.sub_zero]
    at fewer ⊢
  omega

theorem leaveWork (r : Registry) (w : Walk) (entry : Entry) (outer : List Frame) :
    (w.leave entry outer).work r ≤
      remaining entryCost w.isOpen r.entries + total (outer.map frameCost) := by
  have less : ∀ e, (w.leave entry outer).isOpen e = true → w.isOpen e = true :=
    isOpenCons rfl (by decide)
  have fewer : remaining entryCost (w.leave entry outer).isOpen r.entries ≤ _ :=
    remainingMono entryCost less
  simp only [work, leave] at fewer ⊢
  omega

theorem advanceCost {frame : Frame} {dependency : String}
    (h : frame.dependency? = some dependency) : frameCost frame.advance + 1 = frameCost frame := by
  obtain ⟨inside, _⟩ := List.getElem?_eq_some_iff.mp h
  simp only [frameCost, Frame.advance]
  omega

theorem stepWork {r : Registry} {live : List String} {w next : Walk}
    (h : w.step r live = some next) : next.work r < w.work r := by
  unfold step at h
  split at h
  · simp at h
  · next frame outer frames =>
    have before : w.work r =
        remaining entryCost w.isOpen r.entries + (frameCost frame + total (outer.map frameCost)) := by
      simp only [work, frames, List.map_cons, totalCons]
    split at h
    · cases h
      have left := leaveWork r w frame.entry outer
      simp only [frameCost] at before
      omega
    · next dependency found =>
      have cost := advanceCost found
      have advanced : ∀ edges : List Edge,
          ({ w with frames := frame.advance :: outer, backEdges := edges } : Walk).work r <
            w.work r := by
        intro edges
        change remaining _ w.isOpen r.entries
          + total ((frame.advance :: outer).map frameCost) < _
        simp only [List.map_cons, totalCons]
        omega
      dsimp only at h
      split at h
      · cases h
        exact advanced w.backEdges
      · next target isTarget =>
        split at h
        · next unvisited =>
          cases h
          refine Nat.lt_of_le_of_lt (enterWork (targetMember isTarget) ?_) (advanced w.backEdges)
          exact unvisited
        · cases h
          exact advanced _
        · cases h
          exact advanced w.backEdges

def run (r : Registry) (live : List String) (w : Walk) : Walk :=
  match _h : w.step r live with
  | none => w
  | some next => next.run r live
termination_by w.work r
decreasing_by exact stepWork _h

def visit (r : Registry) (live : List String) (w : Walk) (entry : Entry) : Walk :=
  if w.markOf entry.name = .unvisited then (w.enter entry).run r live else w

end Walk

structure Sequence where
  order : List Entry
  backEdges : List Edge
  deriving DecidableEq, Repr

def Registry.starts (r : Registry) (live : List String) : List Entry :=
  r.entries.filter fun e => decide (e.name ∈ live)

def Registry.sequence (r : Registry) (live : List String) : Sequence :=
  let walked := (r.starts live).foldl (Walk.visit r live) .blank
  ⟨walked.order, walked.backEdges⟩

end CompilationUnit
