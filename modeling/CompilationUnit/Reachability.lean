import CompilationUnit.Registry
import CompilationUnit.Remaining

/-!
Reachability from the entry points. A name is marked live before its dependencies are looked at, so
a cycle is gone round once; a dependency on a name that is not registered is recorded and otherwise
ignored. The names still to be looked at form a stack.
-/
namespace CompilationUnit

structure Edge where
  caller : String
  callee : String
  deriving DecidableEq, Repr

def Edge.encode (e : Edge) : Json.Value :=
  .object [("caller", .string e.caller), ("callee", .string e.callee)]

theorem Registry.containsIff {r : Registry} {name : String} :
    r.contains name = true ↔ name ∈ r.names := by
  unfold Registry.contains Registry.get? Registry.names findEntry?
  simp [List.find?_isSome]

structure Search where
  live : NameSet
  pending : List String
  dangling : List Edge
  deriving DecidableEq, Repr

namespace Search

def blank : Search := ⟨.empty, [], []⟩

def mark (s : Search) (name : String) : Search :=
  if name ∈ s.live then s
  else { s with live := s.live.insert name, pending := name :: s.pending }

def follow (r : Registry) (caller : String) (s : Search) (dependency : String) : Search :=
  if r.contains dependency then s.mark dependency
  else { s with dangling := s.dangling ++ [⟨caller, dependency⟩] }

def step (r : Registry) (s : Search) : Option Search :=
  match s.pending with
  | [] => none
  | name :: rest =>
    let popped := { s with pending := rest }
    match r.get? name with
    | none => some popped
    | some entry => some (entry.dependencies.names.foldl (follow r name) popped)

def start (r : Registry) : Search := (r.entryPoints.map Entry.name).foldl mark blank

def isOpen (s : Search) (name : String) : Bool := decide (name ∉ s.live)

def work (r : Registry) (s : Search) : Nat :=
  remaining (fun _ => 1) s.isOpen r.names + s.pending.length

theorem markWork {r : Registry} {s : Search} {name : String} (member : name ∈ r.names) :
    (s.mark name).work r ≤ s.work r := by
  unfold mark
  split
  · exact Nat.le_refl _
  · next fresh =>
    let marked : Search := { s with live := s.live.insert name, pending := name :: s.pending }
    have less : ∀ other, marked.isOpen other = true → s.isOpen other = true := by
      intro other outside
      simp only [isOpen, decide_eq_true_eq] at outside ⊢
      exact fun inside => outside (NameSet.memInsert.mpr (.inl inside))
    have had : s.isOpen name = true := by simpa [isOpen] using fresh
    have gone : marked.isOpen name = false := by
      simp only [isOpen, decide_eq_false_iff_not, Decidable.not_not]
      exact NameSet.memInsert.mpr (.inr rfl)
    have fewer := remainingTake (fun _ => 1) less member had gone
    change remaining _ marked.isOpen r.names + (name :: s.pending).length ≤ _
    simp only [work, List.length_cons]
    omega

theorem followWork (r : Registry) (caller : String) (s : Search) (dependency : String) :
    (follow r caller s dependency).work r ≤ s.work r := by
  unfold follow
  split
  · next known => exact markWork (Registry.containsIff.mp known)
  · exact Nat.le_refl _

theorem followAllWork (r : Registry) (caller : String) (s : Search) (names : List String) :
    (names.foldl (follow r caller) s).work r ≤ s.work r := by
  induction names generalizing s with
  | nil => exact Nat.le_refl _
  | cons name names ih => exact Nat.le_trans (ih _) (followWork r caller s name)

theorem stepWork {r : Registry} {s next : Search} (h : s.step r = some next) :
    next.work r < s.work r := by
  unfold step at h
  split at h
  · simp at h
  · next name rest pending =>
    have popped : ({ s with pending := rest } : Search).work r < s.work r := by
      change remaining _ s.isOpen r.names + rest.length < _
      simp only [work, pending, List.length_cons]
      omega
    dsimp only at h
    split at h
    · cases h
      exact popped
    · cases h
      exact Nat.lt_of_le_of_lt (followAllWork r name _ _) popped

def run (r : Registry) (s : Search) : Search :=
  match _h : s.step r with
  | none => s
  | some next => next.run r
termination_by s.work r
decreasing_by exact stepWork _h

end Search

structure Reachability where
  live : NameSet
  dangling : List Edge
  deriving DecidableEq, Repr

def Registry.reachable (r : Registry) : Reachability :=
  let found := (Search.start r).run r
  ⟨found.live, found.dangling⟩

end CompilationUnit
