import Mathlib.Data.Finset.Max
import Mathlib.Data.List.Basic

/-! Precedence of names in a list, by their first positions. In a list without repetition this is
the order of the list. -/
namespace CompilationUnit

def Precedes (names : List String) (a b : String) : Prop :=
  b ∈ names ∧ names.idxOf a < names.idxOf b
instance (names a b) : Decidable (Precedes names a b) := by unfold Precedes; infer_instance

variable {names : List String} {a b c : String}

theorem precedesMember (h : Precedes names a b) : a ∈ names := by
  have bound := List.idxOf_lt_length_of_mem h.1
  exact List.idxOf_lt_length_iff.mp (Nat.lt_trans h.2 bound)

theorem precedesIrrefl (names : List String) (a : String) : ¬ Precedes names a a :=
  fun h => Nat.lt_irrefl _ h.2

theorem precedesAsymm (h : Precedes names a b) : ¬ Precedes names b a :=
  fun other => Nat.lt_asymm h.2 other.2

theorem precedesTrans (first : Precedes names a b) (second : Precedes names b c) :
    Precedes names a c :=
  ⟨second.1, Nat.lt_trans first.2 second.2⟩

theorem notPrecedesIff (left : a ∈ names) (right : b ∈ names) :
    ¬ Precedes names a b ↔ b = a ∨ Precedes names b a := by
  refine ⟨?_, ?_⟩
  · intro later
    rcases Nat.lt_trichotomy (names.idxOf a) (names.idxOf b) with less | same | more
    · exact absurd ⟨right, less⟩ later
    · exact .inl ((List.idxOf_inj left).mp same).symm
    · exact .inr ⟨left, more⟩
  · intro later
    rcases later with rfl | before
    · exact precedesIrrefl names b
    · exact precedesAsymm before

theorem precedesAcross {front back : List String} (left : a ∈ front) (fresh : b ∉ front)
    (right : b ∈ back) : Precedes (front ++ back) a b := by
  refine ⟨List.mem_append_right front right, ?_⟩
  have bound := List.idxOf_lt_length_of_mem left
  rw [List.idxOf_append_of_mem left, List.idxOf_append_of_notMem fresh]
  omega

theorem precedesAppend {front : List String} (h : Precedes front a b) (back : List String) :
    Precedes (front ++ back) a b := by
  refine ⟨List.mem_append_left back h.1, ?_⟩
  rw [List.idxOf_append_of_mem (precedesMember h), List.idxOf_append_of_mem h.1]
  exact h.2

theorem precedesWithin {front : List String} (inside : b ∈ front) (back : List String) :
    Precedes (front ++ back) a b ↔ Precedes front a b := by
  constructor
  · intro h
    have left := h.2
    have bound := List.idxOf_lt_length_of_mem inside
    by_cases here : a ∈ front
    · rw [List.idxOf_append_of_mem here, List.idxOf_append_of_mem inside] at left
      exact ⟨inside, left⟩
    · rw [List.idxOf_append_of_notMem here, List.idxOf_append_of_mem inside] at left
      omega
  · intro h
    exact precedesAppend h back

theorem notPrecedesFirst {front back : List String} (left : a ∉ front) (right : b ∉ front) :
    ¬ Precedes (front ++ b :: back) a b := by
  intro precedes
  have less := precedes.2
  rw [List.idxOf_append_of_notMem left, List.idxOf_append_of_notMem right, List.idxOf_cons_self] at less
  omega

theorem precedesInOrder (distinct : names.Nodup) : names.Pairwise (Precedes names) := by
  refine List.pairwise_iff_getElem.mpr fun i j left right less => ⟨List.getElem_mem right, ?_⟩
  rwa [distinct.idxOf_getElem, distinct.idxOf_getElem]

theorem lastAmong {members : Set String} (present : a ∈ names) (inside : a ∈ members) :
    ∃ last ∈ members, ∀ b ∈ names, b ∈ members → b = last ∨ Precedes names b last := by
  classical
  have among : ∀ b, b ∈ names.toFinset.filter (· ∈ members) ↔ b ∈ names ∧ b ∈ members := by simp
  obtain ⟨last, found, latest⟩ :=
    Finset.exists_max_image _ names.idxOf ⟨a, (among a).mpr ⟨present, inside⟩⟩
  obtain ⟨lastIn, lastMember⟩ := (among last).mp found
  refine ⟨last, lastMember, ?_⟩
  intro b bIn bMember
  rcases Nat.lt_or_eq_of_le (latest b ((among b).mpr ⟨bIn, bMember⟩)) with less | same
  · exact .inr ⟨lastIn, less⟩
  · exact .inl ((List.idxOf_inj bIn).mp same)

theorem precedesInsert {front back : List String} {fresh : String} (left : a ≠ fresh)
    (right : b ≠ fresh) :
    Precedes (front ++ fresh :: back) a b ↔ Precedes (front ++ back) a b := by
  have shift : ∀ name, name ≠ fresh → (front ++ fresh :: back).idxOf name =
      if name ∈ front then (front ++ back).idxOf name else (front ++ back).idxOf name + 1 := by
    intro name different
    split
    · rename_i inside
      rw [List.idxOf_append_of_mem inside, List.idxOf_append_of_mem inside]
    · rename_i outside
      rw [List.idxOf_append_of_notMem outside, List.idxOf_append_of_notMem outside,
        List.idxOf_cons_ne back different.symm]
      omega
  have inFront : ∀ name, name ∈ front ↔ (front ++ back).idxOf name < front.length := by
    intro name
    by_cases inside : name ∈ front
    · simpa [List.idxOf_append_of_mem inside, inside] using List.idxOf_lt_length_of_mem inside
    · simp [List.idxOf_append_of_notMem inside, inside]
  have members : b ∈ front ++ fresh :: back ↔ b ∈ front ++ back := by
    simp [right]
  unfold Precedes
  rw [members, shift a left, shift b right]
  have frontA := inFront a
  have frontB := inFront b
  split <;> split <;> grind

end CompilationUnit
