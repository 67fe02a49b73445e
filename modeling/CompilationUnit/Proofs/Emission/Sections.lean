import CompilationUnit.Emission.Section
import Mathlib.Data.List.Induction
import Mathlib.Data.List.Perm.Basic
import Mathlib.Data.List.Nodup

/-! The sections of a list of functions: each function stands in the section of its placement, in the order
of the list, and no two sections are of one placement. Sections only rearrange what they are made of. -/
namespace CompilationUnit

section

variable {α κ : Type} {key : α → κ} {items : List α}

theorem otherParts [DecidableEq κ] {k : κ} {keys : List κ} (fresh : k ∉ keys) :
    (keys.flatMap fun j => items.filter fun a => key a = j) =
      keys.flatMap fun j => (items.filter fun a => !decide (key a = k)).filter fun a => key a = j := by
  refine List.flatMap_congr fun j member => ?_
  rw [List.filter_filter]
  refine List.filter_congr fun a _ => ?_
  by_cases same : key a = j
  · have other : key a ≠ k := fun first => fresh (first ▸ same ▸ member)
    simp [same, same ▸ other]
  · simp [same]

theorem coveredOthers [DecidableEq κ] {k : κ} {keys : List κ} (covered : ∀ a ∈ items, key a ∈ k :: keys) :
    ∀ a ∈ items.filter fun a => !decide (key a = k), key a ∈ keys := by
  intro a member
  obtain ⟨inside, other⟩ := List.mem_filter.mp member
  exact (List.mem_cons.mp (covered a inside)).resolve_left (by simpa using other)

theorem coveredNone (covered : ∀ a ∈ items, key a ∈ []) : items = [] :=
  List.eq_nil_iff_forall_not_mem.mpr fun a member => List.not_mem_nil (covered a member)

theorem partsPerm [DecidableEq κ] {keys : List κ} (distinct : keys.Nodup)
    (covered : ∀ a ∈ items, key a ∈ keys) :
    (keys.flatMap fun k => items.filter fun a => key a = k).Perm items := by
  induction keys generalizing items with
  | nil => simp [coveredNone covered]
  | cons k keys ih =>
    obtain ⟨fresh, distinct⟩ := List.nodup_cons.mp distinct
    rw [List.flatMap_cons, otherParts fresh]
    exact ((ih distinct (coveredOthers covered)).append_left _).trans (List.filter_append_perm _ items)

theorem leastFirst {key : α → Nat} {least : Nat} (sorted : items.Pairwise fun a b => key a ≤ key b)
    (bounded : ∀ a ∈ items, least ≤ key a) :
    (items.filter fun a => key a = least) ++ (items.filter fun a => !decide (key a = least)) = items := by
  induction items with
  | nil => rfl
  | cons a items ih =>
    obtain ⟨first, sorted⟩ := List.pairwise_cons.mp sorted
    by_cases same : key a = least
    · simpa [same] using ih sorted fun b member => bounded b (List.mem_cons_of_mem _ member)
    -- Behind an item above the least key everything is above it.
    · have above : ∀ b ∈ items, key b ≠ least := by
        intro b member
        have aBound := bounded a List.mem_cons_self
        have bBound := first b member
        omega
      have none : items.filter (fun b => key b = least) = [] := by simpa using above
      have all : items.filter (fun b => !decide (key b = least)) = items := by simpa using above
      simp [same, none, all]

theorem sortedParts {key : α → Nat} {keys : List Nat} (increasing : keys.Pairwise (· < ·))
    (sorted : items.Pairwise fun a b => key a ≤ key b) (covered : ∀ a ∈ items, key a ∈ keys) :
    (keys.flatMap fun k => items.filter fun a => key a = k) = items := by
  induction keys generalizing items with
  | nil => simp [coveredNone covered]
  | cons k keys ih =>
    obtain ⟨above, increasing⟩ := List.pairwise_cons.mp increasing
    have bounded : ∀ a ∈ items, k ≤ key a := by
      intro a member
      rcases List.mem_cons.mp (covered a member) with same | later
      · exact Nat.le_of_eq same.symm
      · exact Nat.le_of_lt (above _ later)
    have fresh : k ∉ keys := fun member => Nat.lt_irrefl k (above k member)
    rw [List.flatMap_cons, otherParts fresh, ih increasing (sorted.filter _) (coveredOthers covered)]
    exact leastFirst sorted bounded

end

namespace Section

structure Partition (sections : List Section) (functions : List Entry) : Prop where
  distinct : (sections.map Section.placement).Nodup
  holds : ∀ s ∈ sections, s.functions = functions.filter fun e => e.placement = s.placement
  covers : ∀ e ∈ functions, e.placement ∈ sections.map Section.placement

variable {sections others : List Section} {functions : List Entry}

theorem placePlacements (sections : List Section) (e : Entry) :
    (place sections e).map Section.placement =
      if e.placement ∈ sections.map Section.placement then sections.map Section.placement
      else sections.map Section.placement ++ [e.placement] := by
  induction sections with
  | nil => simp [place]
  | cons s sections ih =>
    unfold place
    split
    · rename_i same
      simp [same]
    · rename_i different
      simp only [List.map_cons, ih, List.mem_cons, Ne.symm different, false_or]
      split <;> simp

theorem placeMember {s : Section} {e : Entry} (distinct : (sections.map Section.placement).Nodup)
    (member : s ∈ place sections e) :
    (∃ old ∈ sections, old.placement = s.placement ∧
      s.functions = old.functions ++ [e].filter fun e => e.placement = s.placement) ∨
    s = ⟨e.placement, [e]⟩ ∧ e.placement ∉ sections.map Section.placement := by
  induction sections with
  | nil => exact .inr ⟨List.mem_singleton.mp member, List.not_mem_nil⟩
  | cons first sections ih =>
    obtain ⟨fresh, distinct⟩ := List.nodup_cons.mp distinct
    unfold place at member
    split at member
    · rename_i same
      rcases List.mem_cons.mp member with rfl | later
      · exact .inl ⟨first, List.mem_cons_self, rfl, by simp [same]⟩
      · have other : e.placement ≠ s.placement := by
          intro placed
          exact fresh (same.trans placed ▸ List.mem_map_of_mem later)
        exact .inl ⟨s, List.mem_cons_of_mem _ later, rfl, by simp [other]⟩
    · rename_i different
      rcases List.mem_cons.mp member with rfl | later
      · exact .inl ⟨s, List.mem_cons_self, rfl, by simp [Ne.symm different]⟩
      · rcases ih distinct later with ⟨old, inside, found⟩ | ⟨new, missing⟩
        · exact .inl ⟨old, List.mem_cons_of_mem _ inside, found⟩
        · refine .inr ⟨new, fun member => ?_⟩
          rcases List.mem_cons.mp member with same | inside
          · exact different same.symm
          · exact missing inside

theorem placePartition (parts : Partition sections functions) (e : Entry) :
    Partition (place sections e) (functions ++ [e]) := by
  constructor
  · rw [placePlacements]
    split
    · exact parts.distinct
    · rename_i fresh
      rw [← List.concat_eq_append]
      exact parts.distinct.concat fresh
  · intro s member
    rw [List.filter_append]
    rcases placeMember parts.distinct member with ⟨old, inside, same, functions⟩ | ⟨rfl, missing⟩
    · rw [functions, parts.holds old inside, same]
    · have none : functions.filter (fun other => other.placement = e.placement) = [] := by
        rw [List.filter_eq_nil_iff]
        intro other member same
        exact missing (of_decide_eq_true same ▸ parts.covers other member)
      simp [none]
  · intro other member
    rw [placePlacements]
    rcases List.mem_append.mp member with old | new
    · have placed := parts.covers other old
      split
      · exact placed
      · exact List.mem_append_left _ placed
    · rw [List.mem_singleton.mp new]
      split
      · assumption
      · simp

theorem groupPartition (functions : List Entry) : Partition (group functions) functions := by
  induction functions using List.reverseRecOn with
  | nil => exact ⟨List.nodup_nil, nofun, nofun⟩
  | append_singleton functions e ih =>
    unfold group
    rw [List.foldl_append]
    exact placePartition ih e

theorem partitionPerm (same : others.Perm sections) (parts : Partition sections functions) :
    Partition others functions := by
  constructor
  · exact (same.map _).nodup_iff.mpr parts.distinct
  · exact fun s member => parts.holds s (same.subset member)
  · exact fun e member => (same.map _).symm.subset (parts.covers e member)

theorem rankBelow (s : Section) : s.rank ∈ [0, 1, 2, 3] := by
  unfold rank
  split <;> simp

theorem rankTrans (s t u : Section) (first : decide (s.rank ≤ t.rank)) (second : decide (t.rank ≤ u.rank)) :
    decide (s.rank ≤ u.rank) :=
  decide_eq_true (Nat.le_trans (of_decide_eq_true first) (of_decide_eq_true second))

theorem rankTotal (s t : Section) : decide (s.rank ≤ t.rank) || decide (t.rank ≤ s.rank) := by
  simpa using Nat.le_total s.rank t.rank

theorem arrangePerm (sections : List Section) : (arrange sections).Perm sections :=
  List.mergeSort_perm _ _

theorem arrangeSorted (sections : List Section) :
    (arrange sections).Pairwise fun s t => s.rank ≤ t.rank := by
  have sorted := @List.pairwise_mergeSort Section (fun s t => decide (s.rank ≤ t.rank)) rankTrans rankTotal
    sections
  exact sorted.imp of_decide_eq_true

theorem arrangeStable (sections : List Section) (rank : Nat) :
    (arrange sections).filter (fun s => s.rank = rank) = sections.filter fun s => s.rank = rank := by
  have level : (sections.filter fun s => s.rank = rank).Pairwise fun s t => decide (s.rank ≤ t.rank) := by
    refine List.pairwise_iff_forall_sublist.mpr fun {s t} pair => ?_
    have ranks : ∀ u ∈ [s, t], u.rank = rank := fun u member =>
      of_decide_eq_true (List.mem_filter.mp (pair.subset member)).2
    simp [ranks s, ranks t]
  have kept : (sections.filter fun s => s.rank = rank).Sublist (arrange sections) :=
    List.sublist_mergeSort rankTrans rankTotal level List.filter_sublist
  have inside := kept.filter fun s => decide (s.rank = rank)
  rw [List.filter_filter] at inside
  simp only [Bool.and_self] at inside
  exact (inside.eq_of_length ((arrangePerm sections).filter _).length_eq.symm).symm

end Section

theorem sectionsPartition (functions : List Entry) : Section.Partition (sectionsOf functions) functions :=
  Section.partitionPerm (Section.arrangePerm _) (Section.groupPartition functions)

end CompilationUnit
