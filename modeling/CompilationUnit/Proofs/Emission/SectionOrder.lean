import CompilationUnit.Proofs.Emission.Sections
import CompilationUnit.Proofs.Placement

/-! The order of the sections: the standard library, constants, the types as each comes up first in the
list, and then what has no placement. Every function stands in one section, and no two sections have the
same title. -/
namespace CompilationUnit

def placedType? (placement : Option Placement) : Option String := placement.bind Placement.typeName?

def placedTypes (functions : List Entry) : List String :=
  ((functions.map Entry.placement).filterMap placedType?).eraseDups

def sectionPlacements (functions : List Entry) : List (Option Placement) :=
  ([some .stdlib, some .constants].filter fun p => p ∈ functions.map Entry.placement) ++
    (((placedTypes functions).map fun name => some (.type name)) ++
      [none].filter fun p => p ∈ functions.map Entry.placement)

structure StablePartition (sections : List Section) (functions : List Entry) : Prop where
  once : ∀ e ∈ functions, ∃! s, s ∈ sections ∧ e ∈ s.functions
  own : ∀ s ∈ sections, ∀ e ∈ s.functions, e.placement = s.placement
  perm : (sections.flatMap Section.functions).Perm functions
  inhabited : ∀ s ∈ sections, s.functions ≠ []
  distinct : (sections.map Section.placement).Nodup
  stable : ∀ s ∈ sections, s.functions = functions.filter fun e => e.placement = s.placement
  order : sections.map Section.placement = sectionPlacements functions
  titles : (sections.map Section.title).Nodup

namespace Section

variable {s t : Section} {sections : List Section} {functions : List Entry}

theorem unplacedTitle (p : Placement) : p.text ≠ "unplaced" := by
  cases p with
  | type name =>
    intro same
    have chars := congrArg String.toList same
    rw [Placement.typeTextFirst] at chars
    nomatch chars
  | _ => decide

theorem titleSame (same : s.title = t.title) : s.placement = t.placement := by
  obtain ⟨p, _⟩ := s
  obtain ⟨q, _⟩ := t
  cases p with
  | none =>
    cases q with
    | none => rfl
    | some q => exact absurd same.symm (unplacedTitle q)
  | some p =>
    cases q with
    | none => exact absurd same (unplacedTitle p)
    | some q => exact congrArg some (Placement.textInjective same)

theorem titlesDistinct (distinct : (sections.map placement).Nodup) : (sections.map title).Nodup := by
  rw [List.Nodup, List.pairwise_map] at distinct ⊢
  exact distinct.imp fun different same => different (titleSame same)

def rankAt : Option Placement → Nat
  | some .stdlib => 0
  | some .constants => 1
  | some (.type _) => 2
  | none => 3

theorem rankPlaced (s : Section) : s.rank = rankAt s.placement := by
  unfold rank rankAt
  split <;> simp [*]

theorem groupPlacements (functions : List Entry) :
    (group functions).map placement = (functions.map Entry.placement).eraseDups := by
  induction functions using List.reverseRecOn with
  | nil => rfl
  | append_singleton functions e ih =>
    have placed := placePlacements (group functions) e
    simp only [ih, List.mem_eraseDups] at placed
    rw [List.map_append, List.map_singleton, eraseDupsSnoc, ← placed]
    simp [group]

theorem arrangePlacements (sections : List Section) : (arrange sections).map placement =
    [0, 1, 2, 3].flatMap fun rank => (sections.map placement).filter fun p => rankAt p = rank := by
  have parts : ([0, 1, 2, 3].flatMap fun rank => (arrange sections).filter fun s => s.rank = rank) =
      arrange sections :=
    sortedParts (by simp) (arrangeSorted sections) fun s _ => s.rankBelow
  rw [← parts, List.map_flatMap]
  refine List.flatMap_congr fun rank _ => ?_
  rw [arrangeStable, List.filter_map]
  simp [Function.comp_def, rankPlaced]

theorem rankAlone {q : Option Placement} (alone : ∀ p, rankAt p = rankAt q → p = q)
    (placements : List (Option Placement)) :
    placements.eraseDups.filter (fun p => rankAt p = rankAt q) =
      [q].filter fun p => p ∈ placements := by
  induction placements using List.reverseRecOn with
  | nil => rfl
  | append_singleton placements last ih =>
    rw [eraseDupsSnoc]
    by_cases same : last = q
    · subst same
      by_cases known : last ∈ placements <;> simp [known, ih]
    · have other : rankAt last ≠ rankAt q := fun rank => same (alone last rank)
      have still : [q].filter (fun p => p ∈ placements ++ [last]) = [q].filter fun p => p ∈ placements := by
        simp [List.filter_singleton, Ne.symm same]
      rw [still, ← ih]
      by_cases known : last ∈ placements <;> simp [known, other]

theorem typePlaced {p : Option Placement} {name : String} :
    placedType? p = some name ↔ p = some (.type name) := by
  cases p with
  | none => simp [placedType?]
  | some p => cases p <;> simp [placedType?, Placement.typeName?]

theorem rankTypes (placements : List (Option Placement)) :
    placements.eraseDups.filter (fun p => rankAt p = 2) =
      (placements.filterMap placedType?).eraseDups.map fun name => some (.type name) := by
  induction placements using List.reverseRecOn with
  | nil => rfl
  | append_singleton placements last ih =>
    rw [eraseDupsSnoc, List.filterMap_append]
    cases type : placedType? last with
    | none =>
      have other : rankAt last ≠ 2 := by
        unfold rankAt
        split <;> simp_all [placedType?, Placement.typeName?]
      by_cases known : last ∈ placements <;> simp [known, ih, other, type]
    | some name =>
      rw [List.filterMap_cons_some type, List.filterMap_nil, eraseDupsSnoc]
      cases typePlaced.mp type
      have known : name ∈ placements.filterMap placedType? ↔ some (.type name) ∈ placements := by
        simp [typePlaced]
      have rank : rankAt (some (.type name)) = 2 := rfl
      by_cases old : some (.type name) ∈ placements <;> simp [known, old, ih, rank]

theorem sectionOrder (functions : List Entry) :
    (sectionsOf functions).map placement = sectionPlacements functions := by
  rw [sectionsOf, arrangePlacements, groupPlacements, sectionPlacements, placedTypes, ← rankTypes]
  generalize functions.map Entry.placement = placements
  have library := rankAlone (q := some .stdlib) (by rintro (_ | _ | _ | _) <;> simp [rankAt]) placements
  have constants := rankAlone (q := some .constants) (by rintro (_ | _ | _ | _) <;> simp [rankAt]) placements
  have unplaced := rankAlone (q := none) (by rintro (_ | _ | _ | _) <;> simp [rankAt]) placements
  have pair : [some Placement.stdlib, some .constants].filter (fun p => p ∈ placements) =
      [some .stdlib].filter (fun p => p ∈ placements) ++ [some .constants].filter fun p => p ∈ placements :=
    List.filter_append [some Placement.stdlib] [some Placement.constants]
  rw [pair, ← library, ← constants, ← unplaced, List.append_assoc]
  simp only [List.flatMap_cons, List.flatMap_nil, List.append_nil]
  rfl

end Section

variable {functions : List Entry} {s : Section} {e : Entry}

theorem sectionPlaced (member : s ∈ sectionsOf functions) : s.placement ∈ functions.map Entry.placement := by
  have listed := ((Section.arrangePerm (Section.group functions)).map Section.placement).subset
    (List.mem_map_of_mem member)
  rwa [Section.groupPlacements, List.mem_eraseDups] at listed

theorem heldIff (listed : s ∈ sectionsOf functions) :
    e ∈ s.functions ↔ e ∈ functions ∧ e.placement = s.placement := by
  rw [(sectionsPartition functions).holds s listed, List.mem_filter, decide_eq_true_iff]

theorem sectionHome (member : e ∈ functions) : ∃! s, s ∈ sectionsOf functions ∧ e ∈ s.functions := by
  have parts := sectionsPartition functions
  obtain ⟨s, inside, same⟩ := List.mem_map.mp (parts.covers e member)
  refine ⟨s, ⟨inside, (heldIff inside).mpr ⟨member, same.symm⟩⟩, ?_⟩
  rintro t ⟨listed, holds⟩
  obtain ⟨_, placed⟩ := (heldIff listed).mp holds
  exact List.inj_on_of_nodup_map parts.distinct listed inside (placed.symm.trans same.symm)

theorem sectionInhabited (member : s ∈ sectionsOf functions) : s.functions ≠ [] := by
  obtain ⟨e, inside, same⟩ := List.mem_map.mp (sectionPlaced member)
  exact List.ne_nil_of_mem ((heldIff member).mpr ⟨inside, same⟩)

theorem sectionsPerm (functions : List Entry) :
    ((sectionsOf functions).flatMap Section.functions).Perm functions := by
  have parts := sectionsPartition functions
  have perm := partsPerm parts.distinct parts.covers
  rw [List.flatMap_map] at perm
  have held : (sectionsOf functions).flatMap Section.functions =
      (sectionsOf functions).flatMap fun s => functions.filter fun e => e.placement = s.placement :=
    List.flatMap_congr parts.holds
  rwa [held]

theorem sectionsStablyPartition (functions : List Entry) :
    StablePartition (sectionsOf functions) functions where
  once _ member := sectionHome member
  own _ listed _ member := ((heldIff listed).mp member).2
  perm := sectionsPerm functions
  inhabited _ member := sectionInhabited member
  distinct := (sectionsPartition functions).distinct
  stable := (sectionsPartition functions).holds
  order := Section.sectionOrder functions
  titles := Section.titlesDistinct (sectionsPartition functions).distinct

end CompilationUnit
