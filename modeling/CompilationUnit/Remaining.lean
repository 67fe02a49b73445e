/-!
What a search has left to do, as a sum over the items it has not dealt with. Dealing with an item
takes its share off the sum, which is why the searches of this library end.
-/
namespace CompilationUnit

def total (shares : List Nat) : Nat := shares.foldr (· + ·) 0

theorem totalCons (share : Nat) (shares : List Nat) :
    total (share :: shares) = share + total shares := rfl

def remaining (share : α → Nat) (left : α → Bool) (items : List α) : Nat :=
  total ((items.filter left).map share)

theorem remainingCons (share : α → Nat) (left : α → Bool) (a : α) (items : List α) :
    remaining share left (a :: items) =
      (if left a then share a else 0) + remaining share left items := by
  unfold remaining
  cases now : left a <;> simp [now, totalCons]

theorem remainingMono (share : α → Nat) {left before : α → Bool} {items : List α}
    (less : ∀ a, left a = true → before a = true) :
    remaining share left items ≤ remaining share before items := by
  induction items with
  | nil => exact Nat.le_refl _
  | cons a items ih =>
    rw [remainingCons, remainingCons]
    refine Nat.add_le_add ?_ ih
    split
    · next now => simp [less a now]
    · exact Nat.zero_le _

theorem remainingTake (share : α → Nat) {left before : α → Bool} {items : List α} {a : α}
    (less : ∀ b, left b = true → before b = true) (member : a ∈ items) (had : before a = true)
    (gone : left a = false) :
    remaining share left items + share a ≤ remaining share before items := by
  induction items with
  | nil => simp at member
  | cons b items ih =>
    rw [remainingCons, remainingCons]
    rcases List.mem_cons.mp member with same | inside
    · subst same
      have rest : remaining share left items ≤ remaining share before items :=
        remainingMono share less
      simp only [had, gone, if_true, Bool.false_eq_true, if_false]
      omega
    · have rest := ih inside
      cases now : left b with
      | true =>
        simp only [less b now, if_true]
        omega
      | false =>
        simp only [Bool.false_eq_true, if_false]
        omega

end CompilationUnit
