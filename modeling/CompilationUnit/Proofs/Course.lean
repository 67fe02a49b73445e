import CompilationUnit.Proofs.EmissionOrder
import CompilationUnit.Proofs.Reachability

/-! The search for the live functions and the walk that orders them, followed round by round to their
ends. Each round is recorded with what it takes from a stack and what it puts on it: a live name comes
onto the stack of the search once and leaves it once, a live function gets one frame, and the walk goes
round once for each live function and once for each dependency of one. -/
namespace CompilationUnit

def raised (below stack : List α) : List α := (stack.take (stack.length - below.length)).reverse

namespace Search

/- A search on its way: the names put on its stack so far, and those taken from it. -/
inductive Course (r : Registry) : List String → List String → Search → Prop where
  | start : Course r (raised [] (start r).pending) [] (start r)
  | round {put taken s next name rest} (before : Course r put taken s)
      (stack : s.pending = name :: rest) (steps : s.step r = some next) :
      Course r (put ++ raised rest next.pending) (taken ++ [name]) next

variable {r : Registry} {s next : Search} {put taken : List String}

end Search

namespace Walk

def begun (w next : Walk) : List Entry := (raised w.frames next.frames).map Frame.entry

/- An order on its way: the starts not tried yet, the functions that got a frame so far, how often the
walk went round, and the walk. -/
inductive Course (r : Registry) (live : List String) : List Entry → List Entry → Nat → Walk → Prop where
  | blank : Course r live (r.starts live) [] 0 .blank
  | pass {ahead entered rounds w e} (before : Course r live (e :: ahead) entered rounds w)
      (idle : w.frames = []) (visited : w.markOf e.name ≠ .unvisited) :
      Course r live ahead entered rounds w
  | start {ahead entered rounds w e} (before : Course r live (e :: ahead) entered rounds w)
      (idle : w.frames = []) (unvisited : w.markOf e.name = .unvisited) :
      Course r live ahead (entered ++ [e]) rounds (w.enter e)
  | round {ahead entered rounds w next} (before : Course r live ahead entered rounds w)
      (steps : w.step r live = some next) :
      Course r live ahead (entered ++ w.begun next) (rounds + 1) next

variable {r : Registry} {live : List String} {w next : Walk} {ahead entered : List Entry} {rounds : Nat}

theorem courseSource (course : Course r live ahead entered rounds w) :
    Arises r live w ∧ ∀ e ∈ ahead, e ∈ r.starts live := by
  induction course with
  | blank => exact ⟨.blank, fun _ member => member⟩
  | pass before idle visited ih => exact ⟨ih.1, fun e member => ih.2 e (List.mem_cons_of_mem _ member)⟩
  | start before idle unvisited ih =>
    exact ⟨.start ih.1 idle (ih.2 _ List.mem_cons_self) unvisited,
      fun e member => ih.2 e (List.mem_cons_of_mem _ member)⟩
  | round before steps ih => exact ⟨.step ih.1 (stepSource steps), ih.2⟩

section Begun

variable {frame : Frame} {outer : List Frame} {target : Entry}

end Begun

end Walk

namespace Registry

def knot : Registry where
  entries := [.ofRegistration (.placeholder "main" ⟨none, true, ["leaf", "lost", "ping"]⟩),
    .ofRegistration (.placeholder "ping" ⟨none, false, ["main", "ping"]⟩),
    .ofRegistration (.placeholder "leaf" .default)]
  policy := .overwrite
  finalized := false
  distinct := by decide

end Registry
end CompilationUnit
