import CompilationUnit.Proofs.Walk

/-! The depth-first search written as a plain recursion, without frames, and the walk of frames against
it. A call of the recursion is what the walk does between entering a function and being done with it;
the frames below stay as they are. -/
namespace CompilationUnit
open Relation

structure Descent where
  marks : List (String × Mark)
  order : List Entry
  backEdges : List Edge
  deriving DecidableEq, Repr

namespace Descent

def blank : Descent := ⟨[], [], []⟩

def under (d : Descent) (frames : List Frame) : Walk := ⟨d.marks, frames, d.order, d.backEdges⟩

def markOf (d : Descent) (name : String) : Mark := (d.marks.lookup name).getD .unvisited

def enter (d : Descent) (e : Entry) : Descent := { d with marks := (e.name, .inProgress) :: d.marks }

def leave (d : Descent) (e : Entry) : Descent :=
  { d with marks := (e.name, .done) :: d.marks, order := d.order ++ [e] }

def close (d : Descent) (edge : Edge) : Descent := { d with backEdges := d.backEdges ++ [edge] }

def fresh (r : Registry) (d : Descent) : Nat := remaining (fun _ => 1) (d.under []).isOpen r.entries

variable {r : Registry} {d : Descent} {e : Entry}

theorem enterFresh (member : e ∈ r.entries) (unvisited : d.markOf e.name = .unvisited) :
    (d.enter e).fresh r < d.fresh r := by
  have less : ∀ f, ((d.enter e).under []).isOpen f = true → (d.under []).isOpen f = true :=
    Walk.isOpenCons rfl (by decide)
  have had : (d.under []).isOpen e = true := beq_iff_eq.mpr unvisited
  have gone : ((d.enter e).under []).isOpen e = false := by
    simp [Walk.isOpen, Walk.markOf, under, enter, Walk.markOfCons]
  exact remainingTake (fun _ => 1) less member had gone

theorem leaveFresh (r : Registry) (d : Descent) (e : Entry) : (d.leave e).fresh r ≤ d.fresh r :=
  remainingMono _ (Walk.isOpenCons rfl (by decide))

mutual

def visit (r : Registry) (live : List String) (d : Descent) (e : Entry) (member : e ∈ r.entries)
    (unvisited : d.markOf e.name = .unvisited) : {after : Descent // after.fresh r ≤ d.fresh r} :=
  have fewer := enterFresh member unvisited
  match look r live e e.dependencies.names (d.enter e) with
  | ⟨looked, less⟩ =>
    ⟨looked.leave e, Nat.le_trans (leaveFresh r looked e) (Nat.le_trans less (Nat.le_of_lt fewer))⟩
termination_by (d.fresh r, 0)

def look (r : Registry) (live : List String) (e : Entry) (names : List String) (d : Descent) :
    {after : Descent // after.fresh r ≤ d.fresh r} :=
  match names with
  | [] => ⟨d, Nat.le_refl _⟩
  | name :: names =>
    match found : r.get? name with
    | none => look r live e names d
    | some target =>
      if target.name ∈ live then
        match unvisited : d.markOf target.name with
        | .unvisited =>
          match visit r live d target (Registry.getIff.mp found).1 unvisited with
          | ⟨visited, less⟩ =>
            match look r live e names visited with
            | ⟨looked, lesser⟩ => ⟨looked, Nat.le_trans lesser less⟩
        | .inProgress => look r live e names (d.close ⟨e.name, target.name⟩)
        | .done => look r live e names d
      else look r live e names d
termination_by (d.fresh r, names.length)
decreasing_by
  · exact .right _ (Nat.lt_succ_self _)
  · exact .right _ (Nat.zero_lt_succ _)
  · exact .right' _ less (Nat.lt_succ_self _)
  · exact .right _ (Nat.lt_succ_self _)
  · exact .right _ (Nat.lt_succ_self _)
  · exact .right _ (Nat.lt_succ_self _)

end

def start (r : Registry) (live : List String) (d : Descent) (e : {e // e ∈ r.entries}) : Descent :=
  if e.val.name ∈ live then
    if unvisited : d.markOf e.val.name = .unvisited then (visit r live d e.val e.property unvisited).val
    else d
  else d

end Descent

def Registry.recursiveSequence (r : Registry) (live : List String) : Sequence :=
  let final := r.entries.attach.foldl (Descent.start r live) .blank
  ⟨final.order, final.backEdges⟩

namespace Walk

variable {r : Registry} {live : List String} {w next : Walk}

def Comes (r : Registry) (live : List String) : Walk → Walk → Prop :=
  ReflTransGen fun w next => w.step r live = some next

theorem comesRun (comes : Comes r live w next) : w.run r live = next.run r live := by
  induction comes with
  | refl => rfl
  | @tail middle last before steps ih => rw [ih, run.eq_def r live middle, steps]

end Walk

namespace Descent

variable {r : Registry} {live : List String} {d : Descent} {frame : Frame} {outer : List Frame}

theorem stepLast (last : frame.dependency? = none) :
    (d.under (frame :: outer)).step r live = some ((d.leave frame.entry).under outer) := by
  simp only [under, Walk.step, last]
  rfl

theorem stepAhead {name : String} (ahead : frame.dependency? = some name) :
    (d.under (frame :: outer)).step r live = some (match r.get? name with
      | none => d.under (frame.advance :: outer)
      | some target =>
        if target.name ∈ live then
          match d.markOf target.name with
          | .unvisited => (d.enter target).under (⟨target, 0⟩ :: frame.advance :: outer)
          | .inProgress => (d.close ⟨frame.entry.name, target.name⟩).under (frame.advance :: outer)
          | .done => d.under (frame.advance :: outer)
        else d.under (frame.advance :: outer)) := by
  simp only [under, Walk.step, ahead, Walk.markOf, CompilationUnit.markOf, markOf, Walk.target?]
  cases r.get? name with
  | none => rfl
  | some target =>
    by_cases isLive : target.name ∈ live
    · simp only [isLive, Option.filter_some, decide_true, if_true]
      cases (d.marks.lookup target.name).getD .unvisited <;> rfl
    · simp only [isLive, Option.filter_some, decide_false, if_false]
      rfl

theorem namesAhead {name : String} (ahead : frame.dependency? = some name) :
    frame.entry.dependencies.names.drop frame.next =
      name :: frame.advance.entry.dependencies.names.drop frame.advance.next := by
  obtain ⟨inside, rfl⟩ := List.getElem?_eq_some_iff.mp ahead
  exact List.drop_eq_getElem_cons inside

mutual

theorem visited (outer : List Frame) (d : Descent) (e : Entry) (member : e ∈ r.entries)
    (unvisited : d.markOf e.name = .unvisited) :
    Walk.Comes r live ((d.under outer).enter e)
      ((visit r live d e member unvisited).val.under outer) := by
  have fewer := enterFresh member unvisited
  rw [visit]
  exact looked outer (d.enter e) ⟨e, 0⟩
termination_by (d.fresh r, 0)

/- The recursion over the dependencies that a frame has still to look at, and the walk up to the moment
in which it leaves the frame. The induction is that of the recursion: what is visited on the way leaves
no more functions fresh, and the frame has one dependency less to look at. -/
theorem looked (outer : List Frame) (d : Descent) (frame : Frame) :
    Walk.Comes r live (d.under (frame :: outer))
      (((look r live frame.entry (frame.entry.dependencies.names.drop frame.next) d).val.leave
        frame.entry).under outer) := by
  cases ahead : frame.dependency? with
  | none =>
    have none : frame.entry.dependencies.names.drop frame.next = [] :=
      List.drop_eq_nil_of_le (List.getElem?_eq_none_iff.mp ahead)
    rw [none, look]
    exact .single (stepLast ahead)
  | some name =>
    have steps := @stepAhead r live d frame outer name ahead
    have cost := Walk.advanceCost ahead
    rw [namesAhead ahead, look]
    split
    · next unknown =>
      simp only [unknown] at steps
      exact .head steps (looked outer d frame.advance)
    · next target found =>
      simp only [found] at steps
      split
      · next isLive =>
        simp only [isLive, if_true] at steps
        split
        · next unvisited =>
          simp only [unvisited] at steps
          have member := (Registry.getIff.mp found).1
          have inner := visited (frame.advance :: outer) d target member unvisited
          have less := (visit r live d target member unvisited).property
          exact .head steps (inner.trans (looked outer _ frame.advance))
        · next inProgress =>
          simp only [inProgress] at steps
          exact .head steps (looked outer _ frame.advance)
        · next done =>
          simp only [done] at steps
          exact .head steps (looked outer d frame.advance)
      · next passed =>
        simp only [passed, if_false] at steps
        exact .head steps (looked outer d frame.advance)
termination_by (d.fresh r, Walk.frameCost frame)
decreasing_by
  · exact .right _ (by omega)
  · exact .right _ (by omega)
  · exact .right _ (by omega)
  · exact .right' _ less (by omega)
  · exact .right _ (by omega)
  · exact .right _ (by omega)

end

theorem started (d : Descent) (e : {e // e ∈ r.entries}) : (start r live d e).under [] =
    if e.val.name ∈ live then Walk.visit r live (d.under []) e.val else d.under [] := by
  unfold start
  split
  · unfold Walk.visit
    change _ = if d.markOf e.val.name = .unvisited then _ else _
    split
    · next unvisited =>
      have comes : Walk.Comes r live _ _ := visited [] d e.val e.property unvisited
      rw [Walk.comesRun comes, Walk.idleRun rfl]
    · rfl
  · rfl

theorem startedAll (d : Descent) (entries : List {e // e ∈ r.entries}) :
    (entries.foldl (start r live) d).under [] =
      ((entries.map Subtype.val).filter fun e => decide (e.name ∈ live)).foldl (Walk.visit r live)
        (d.under []) := by
  induction entries generalizing d with
  | nil => rfl
  | cons e entries ih =>
    rw [List.foldl_cons, ih, started, List.map_cons, List.filter_cons]
    by_cases isLive : e.val.name ∈ live <;> simp [isLive]

end Descent

theorem Registry.recursionWalked (r : Registry) (live : List String) :
    r.sequence live = r.recursiveSequence live := by
  have walked := @Descent.startedAll r live .blank r.entries.attach
  rw [List.attach_map_subtype_val] at walked
  unfold recursiveSequence sequence
  change (let walked := (r.starts live).foldl (Walk.visit r live) (Descent.blank.under [])
    (⟨walked.order, walked.backEdges⟩ : Sequence)) = _
  unfold starts
  rw [← walked]
  rfl

end CompilationUnit
