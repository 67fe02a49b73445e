import Mathlib.Data.List.Basic

/-! Outlines of texts: which characters stand outside all brackets and quotes. A balanced text leaves
the outline of what follows it alone, so where two texts are split at characters that stand outside,
both are split at the same place. -/
namespace CompilationUnit

def opensGroup (c : Char) : Bool := c == '(' || c == '['

def closesGroup (c : Char) : Bool := c == ')' || c == ']'

/- A character that stands outside where it stands in no group: it opens none and quotes nothing. -/
def outer (c : Char) : Bool := !opensGroup c && c != '"'

/-- The characters of a text, each with whether it stands outside. What closes no group that was opened
in the text stands outside. -/
def outlined (depth : Nat) (quoted : Bool) : List Char → List (Char × Bool)
  | [] => []
  | c :: cs =>
    if quoted then (c, false) :: outlined depth (c != '"') cs
    else if c = '"' then (c, false) :: outlined depth true cs
    else if opensGroup c then (c, false) :: outlined (depth + 1) false cs
    else (c, depth == 0) :: outlined (if closesGroup c then depth - 1 else depth) false cs

def outline (cs : List Char) : List (Char × Bool) := outlined 0 false cs

inductive Balanced : List Char → Prop
  | nil : Balanced []
  | single {c : Char} {cs : List Char} (outside : outer c) (closes : closesGroup c = false)
      (later : Balanced cs) : Balanced (c :: cs)
  | group {opening closing : Char} {inner cs : List Char} (opens : opensGroup opening)
      (closes : closesGroup closing) (inside : Balanced inner) (later : Balanced cs) :
      Balanced (opening :: (inner ++ closing :: cs))
  | quoted {inner cs : List Char} (unquoted : '"' ∉ inner) (later : Balanced cs) :
      Balanced ('"' :: (inner ++ '"' :: cs))

def Outside (kind : Char → Prop) (cs : List Char) : Prop := ∀ c, (c, true) ∈ outline cs → kind c

variable {c d : Char} {cs ds inner rest : List Char} {depth : Nat}

theorem opensNot (outside : outer c) : opensGroup c = false ∧ c ≠ '"' := by
  simpa [outer] using outside

theorem closesOuter (closes : closesGroup c) : outer c := by
  simp only [closesGroup, Bool.or_eq_true, beq_iff_eq] at closes
  rcases closes with rfl | rfl <;> rfl

theorem opensUnquoted (opens : opensGroup c) : c ≠ '"' := by
  rintro rfl
  contradiction

theorem outlinedOuter (outside : outer c) (depth : Nat) (rest : List Char) :
    outlined depth false (c :: rest) =
      (c, depth == 0) :: outlined (if closesGroup c then depth - 1 else depth) false rest := by
  obtain ⟨opens, unquoted⟩ := opensNot outside
  simp [outlined, opens, unquoted]

theorem outlinedOpening (opens : opensGroup c) (depth : Nat) (rest : List Char) :
    outlined depth false (c :: rest) = (c, false) :: outlined (depth + 1) false rest := by
  simp [outlined, opens, opensUnquoted opens]

theorem outlinedQuote (unquoted : '"' ∉ inner) (depth : Nat) (rest : List Char) :
    outlined depth true (inner ++ '"' :: rest) =
      inner.map (·, false) ++ ('"', false) :: outlined depth false rest := by
  induction inner with
  | nil => simp [outlined]
  | cons c inner ih =>
    rw [List.mem_cons, not_or] at unquoted
    have still : (c != '"') = true := by simpa using Ne.symm unquoted.1
    simp [outlined, still, ih unquoted.2]

theorem Balanced.append (first : Balanced cs) (second : Balanced ds) : Balanced (cs ++ ds) := by
  induction first with
  | nil => exact second
  | single outside closes _ ih => exact .single outside closes ih
  | group opens closes inside _ _ ih => simpa using Balanced.group opens closes inside ih
  | quoted unquoted _ ih => simpa using Balanced.quoted unquoted ih

theorem balancedSingles (singles : ∀ c ∈ cs, outer c) (closes : ∀ c ∈ cs, closesGroup c = false) :
    Balanced cs := by
  induction cs with
  | nil => exact .nil
  | cons c cs ih =>
    exact .single (singles c List.mem_cons_self) (closes c List.mem_cons_self)
      (ih (fun d member => singles d (List.mem_cons_of_mem c member))
        fun d member => closes d (List.mem_cons_of_mem c member))

theorem outlinedBehind (balanced : Balanced cs) (depth : Nat) (rest : List Char) :
    outlined depth false (cs ++ rest) = outlined depth false cs ++ outlined depth false rest := by
  induction balanced generalizing depth rest with
  | nil => rfl
  | single outside closes _ ih =>
    rw [List.cons_append, outlinedOuter outside, outlinedOuter outside, closes]
    simp [ih]
  -- A group is left at the depth at which it was entered.
  | group opens closes _ _ inside later =>
    rw [List.cons_append, List.append_assoc, List.cons_append, outlinedOpening opens, inside,
      outlinedOuter (closesOuter closes), outlinedOpening opens, inside,
      outlinedOuter (closesOuter closes), closes]
    simp [later]
  | quoted unquoted _ ih =>
    simp only [outlined, List.cons_append, List.append_assoc, Bool.false_eq_true, if_false, if_true,
      outlinedQuote unquoted, ih]

theorem outlinedInside (balanced : Balanced cs) (depth : Nat) :
    outlined (depth + 1) false cs = cs.map (·, false) := by
  induction balanced generalizing depth with
  | nil => rfl
  | single outside closes _ ih =>
    rw [outlinedOuter outside, closes]
    simp [ih]
  | group opens closes inner _ inside later =>
    rw [outlinedOpening opens, outlinedBehind inner, inside, outlinedOuter (closesOuter closes), closes]
    simp [later]
  | quoted unquoted _ ih =>
    simp [outlined, outlinedQuote unquoted, ih]

theorem outlinedText (depth : Nat) (quoted : Bool) (cs : List Char) :
    (outlined depth quoted cs).map Prod.fst = cs := by
  induction cs generalizing depth quoted with
  | nil => rfl
  | cons c cs ih =>
    unfold outlined
    split_ifs <;> simp [ih]

theorem outlineBehind (balanced : Balanced cs) (rest : List Char) :
    outline (cs ++ rest) = outline cs ++ outline rest := outlinedBehind balanced 0 rest

theorem outlineOuter (outside : outer c) (rest : List Char) :
    outline (c :: rest) = (c, true) :: outline rest := by
  unfold outline
  rw [outlinedOuter outside]
  simp

theorem outlineGroup {opening closing : Char} (opens : opensGroup opening) (closes : closesGroup closing)
    (inside : Balanced inner) (rest : List Char) :
    outline (opening :: (inner ++ closing :: rest)) =
      (opening :: (inner ++ [closing])).map (·, false) ++ outline rest := by
  unfold outline
  rw [outlinedOpening opens, outlinedBehind inside, outlinedInside inside,
    outlinedOuter (closesOuter closes), closes]
  simp

theorem outlineQuoted (unquoted : '"' ∉ inner) (rest : List Char) :
    outline ('"' :: (inner ++ '"' :: rest)) =
      ('"' :: (inner ++ ['"'])).map (·, false) ++ outline rest := by
  simp [outline, outlined, outlinedQuote unquoted]

section Outside

variable {kind other : Char → Prop}

theorem outsideMono (weaker : ∀ c, kind c → other c) (outside : Outside kind cs) :
    Outside other cs := fun c member => weaker c (outside c member)

theorem outsideNone : Outside kind [] := nofun

theorem outsideCons (out : outer c) : Outside kind (c :: rest) ↔ kind c ∧ Outside kind rest := by
  unfold Outside
  simp [outlineOuter out]

theorem outsideSingles (singles : ∀ c ∈ cs, outer c) : Outside kind cs ↔ ∀ c ∈ cs, kind c := by
  induction cs with
  | nil => simp [Outside, outline, outlined]
  | cons c cs ih =>
    rw [outsideCons (singles c List.mem_cons_self), List.forall_mem_cons,
      ih fun d member => singles d (List.mem_cons_of_mem c member)]

theorem outsideAppend (balanced : Balanced cs) :
    Outside kind (cs ++ rest) ↔ Outside kind cs ∧ Outside kind rest := by
  unfold Outside
  simp only [outlineBehind balanced, List.mem_append]
  exact ⟨fun all => ⟨fun c member => all c (.inl member), fun c member => all c (.inr member)⟩,
    fun ⟨first, second⟩ c member => member.elim (first c) (second c)⟩

theorem outsideGroup {opening closing : Char} (opens : opensGroup opening) (closes : closesGroup closing)
    (inside : Balanced inner) :
    Outside kind (opening :: (inner ++ closing :: rest)) ↔ Outside kind rest := by
  unfold Outside
  simp [outlineGroup opens closes inside]

theorem outsideQuoted (unquoted : '"' ∉ inner) :
    Outside kind ('"' :: (inner ++ '"' :: rest)) ↔ Outside kind rest := by
  unfold Outside
  simp [outlineQuoted unquoted]

theorem balancedUnclosed (balanced : Balanced cs) : Outside (fun c => closesGroup c = false) cs := by
  induction balanced with
  | nil => exact outsideNone
  | single outside closes _ ih => exact (outsideCons outside).mpr ⟨closes, ih⟩
  | group opens closes inside _ _ ih => exact (outsideGroup opens closes inside).mpr ih
  | quoted unquoted _ ih => exact (outsideQuoted unquoted).mpr ih

end Outside

section Splitting

variable {α : Type} {p : α → Prop} {xs ys xs' ys' : List α} {x x' : α}

theorem splitFirst (before : ∀ y ∈ xs, p y) (before' : ∀ y ∈ xs', p y) (stops : ¬ p x) (stops' : ¬ p x')
    (same : xs ++ x :: ys = xs' ++ x' :: ys') : xs = xs' ∧ x = x' ∧ ys = ys' := by
  induction xs generalizing xs' with
  | nil =>
    cases xs' with
    | nil =>
      cases same
      exact ⟨rfl, rfl, rfl⟩
    | cons y xs' =>
      cases same
      exact absurd (before' _ List.mem_cons_self) stops
  | cons y xs ih =>
    cases xs' with
    | nil =>
      cases same
      exact absurd (before _ List.mem_cons_self) stops'
    | cons y' xs' =>
      rw [List.cons_append, List.cons_append, List.cons.injEq] at same
      obtain ⟨rfl, same⟩ := same
      obtain ⟨rfl, rest⟩ := ih (fun y member => before y (List.mem_cons_of_mem _ member))
        (fun y member => before' y (List.mem_cons_of_mem _ member)) same
      exact ⟨rfl, rest⟩

theorem splitLast (behind : ∀ y ∈ ys, p y) (behind' : ∀ y ∈ ys', p y) (stops : ¬ p x) (stops' : ¬ p x')
    (same : xs ++ x :: ys = xs' ++ x' :: ys') : xs = xs' ∧ x = x' ∧ ys = ys' := by
  have reversed : ys.reverse ++ x :: xs.reverse = ys'.reverse ++ x' :: xs'.reverse := by
    simpa using congrArg List.reverse same
  obtain ⟨later, at', earlier⟩ := splitFirst (p := p) (by simpa using behind) (by simpa using behind')
    stops stops' reversed
  exact ⟨List.reverse_injective earlier, at', List.reverse_injective later⟩

end Splitting

section Texts

variable {kind : Char → Prop} {a b a' b' : List Char} {c' : Char}

theorem outlineSplit (balanced : Balanced a) (outside : outer c) :
    outline (a ++ c :: b) = outline a ++ (c, true) :: outline b := by
  rw [outlineBehind balanced, outlineOuter outside]

theorem splitOfOutline (outlines : outline a = outline a') (same : a ++ c :: b = a' ++ c' :: b') :
    a = a' ∧ c = c' ∧ b = b' := by
  have texts := congrArg (List.map Prod.fst) outlines
  unfold outline at texts
  rw [outlinedText, outlinedText] at texts
  subst texts
  simpa using List.append_cancel_left same

variable (balanced : Balanced a) (balanced' : Balanced a') (outside : outer c) (outside' : outer c')
  (stops : ¬ kind c) (stops' : ¬ kind c') (same : a ++ c :: b = a' ++ c' :: b')
include balanced balanced' outside outside' stops stops' same

theorem outsideFirst (before : Outside kind a) (before' : Outside kind a') :
    a = a' ∧ c = c' ∧ b = b' := by
  have outlines := congrArg outline same
  rw [outlineSplit balanced outside, outlineSplit balanced' outside'] at outlines
  obtain ⟨first, _⟩ := splitFirst (p := fun x => x.2 = true → kind x.1)
    (fun x member shown => before x.1 (by rwa [← shown])) (fun x member shown => before' x.1 (by rwa [← shown]))
    (fun all => stops (all rfl)) (fun all => stops' (all rfl)) outlines
  exact splitOfOutline first same

theorem outsideLast (behind : Outside kind b) (behind' : Outside kind b') :
    a = a' ∧ c = c' ∧ b = b' := by
  have outlines := congrArg outline same
  rw [outlineSplit balanced outside, outlineSplit balanced' outside'] at outlines
  obtain ⟨first, _⟩ := splitLast (p := fun x => x.2 = true → kind x.1)
    (fun x member shown => behind x.1 (by rwa [← shown])) (fun x member shown => behind' x.1 (by rwa [← shown]))
    (fun all => stops (all rfl)) (fun all => stops' (all rfl)) outlines
  exact splitOfOutline first same

end Texts

theorem outsideNowhere {kind : Char → Prop} {a b : List Char} (balanced : Balanced a)
    (outside : outer c) (whole : Outside kind cs) (stops : ¬ kind c) : cs ≠ a ++ c :: b := by
  rintro rfl
  exact stops (whole c (by rw [outlineSplit balanced outside]; simp))

theorem groupSplit {a b a' b' : List Char} {c' : Char} (balanced : Balanced a) (balanced' : Balanced a')
    (closes : closesGroup c) (closes' : closesGroup c') (same : a ++ c :: b = a' ++ c' :: b') :
    a = a' ∧ b = b' := by
  obtain ⟨inner, _, behind⟩ := outsideFirst balanced balanced' (closesOuter closes) (closesOuter closes')
    (by simp [closes]) (by simp [closes']) same (balancedUnclosed balanced) (balancedUnclosed balanced')
  exact ⟨inner, behind⟩

end CompilationUnit
