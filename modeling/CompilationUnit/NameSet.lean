/-!
Sets of names that remember the order in which their names came in.
-/
namespace CompilationUnit

structure NameSet where
  names : List String
  distinct : names.Nodup
  deriving DecidableEq, Repr

namespace NameSet

def empty : NameSet := ⟨[], .nil⟩

instance : Inhabited NameSet := ⟨empty⟩

instance : Membership String NameSet := ⟨fun s name => name ∈ s.names⟩

instance (name : String) (s : NameSet) : Decidable (name ∈ s) :=
  inferInstanceAs (Decidable (name ∈ s.names))

def insert (s : NameSet) (name : String) : NameSet :=
  if h : name ∈ s.names then s
  else ⟨s.names ++ [name], List.nodup_append.mpr ⟨s.distinct, by simp, by
    intro a member b single
    cases List.mem_singleton.mp single
    exact fun same => h (same ▸ member)⟩⟩

def insertAll (s : NameSet) (names : List String) : NameSet := names.foldl insert s

def ofList (names : List String) : NameSet := empty.insertAll names

theorem insertNames (s : NameSet) (name : String) :
    (s.insert name).names = if name ∈ s.names then s.names else s.names ++ [name] := by
  unfold insert
  split <;> rfl

theorem memInsert {s : NameSet} {name other : String} :
    other ∈ (s.insert name).names ↔ other ∈ s.names ∨ other = name := by
  rw [insertNames]
  split
  · next known => exact ⟨Or.inl, fun either => either.elim id fun same => same ▸ known⟩
  · simp

theorem ofListSnoc (names : List String) (name : String) :
    ofList (names ++ [name]) = (ofList names).insert name := by
  simp [ofList, insertAll]

theorem insertAllNames (s : NameSet) (names : List String) :
    (s.insertAll names).names =
      s.names ++ (names.filter fun name => decide (name ∉ s.names)).eraseDups := by
  induction names generalizing s with
  | nil => simp [insertAll]
  | cons name names ih =>
    change ((s.insert name).insertAll names).names = _
    rw [ih, insertNames]
    by_cases known : name ∈ s.names
    · simp [known]
    · simp [known, List.eraseDups_cons, List.filter_filter, and_comm]
      rfl

end NameSet

theorem eraseDupsSnoc [BEq α] [LawfulBEq α] (items : List α) (last : α) :
    (items ++ [last]).eraseDups = if last ∈ items then items.eraseDups else items.eraseDups ++ [last] := by
  rw [List.eraseDups_append]
  by_cases known : last ∈ items <;> simp [List.removeAll, known, List.eraseDups_cons]

end CompilationUnit
