import CompilationUnit.Proofs.Emission.Blocks
import CompilationUnit.Proofs.Emission.Sections
import Mathlib.Data.List.Perm.Basic

/-! The two layouts of a unit compared. Grouped by placement, the bodies are those of the flat text, section
by section; what assembly functions there are has moved into the declarations; and every other row is a
header or the declaration of an ordinary function. -/
namespace CompilationUnit
namespace Emission

def flat (m : Emission) : Emission := { m with config := { m.config with groupByPlacement := false } }

def grouped (m : Emission) : Emission := { m with config := { m.config with groupByPlacement := true } }

def shown (m : Emission) : List Entry := m.functions.filter m.flat.isVisible

def bodies (m : Emission) : List Entry := m.functions.filter m.grouped.isVisible

def bodiesAt (m : Emission) (placement : Option Placement) : List Entry :=
  m.bodies.filter fun e => e.placement = placement

def bodyBlocks (m : Emission) (s : Section) : List Block :=
  if (m.bodiesAt s.placement).isEmpty then []
  else .heading s.title :: (m.bodiesAt s.placement).map .function

def signature? (e : Entry) : Option String :=
  e.definition?.map fun definition => definition.signature ++ ";"

def flatLayout (m : Emission) : List Block := m.shown.map .function ++ m.entryPointBlocks

def groupedLayout (m : Emission) : List Block :=
  m.declarationBlocks ++ (m.sections.flatMap m.bodyBlocks ++ m.entryPointBlocks)

def addedTitles (m : Emission) : List String :=
  (if m.declarations.isEmpty then [] else ["declarations"]) ++
    (m.sections.filter fun s => !(m.bodiesAt s.placement).isEmpty).map Section.title

def blockText (m : Emission) (colorsForced : Bool) (b : Block) : String :=
  b.text (m.context colorsForced) m.config.annotatePlaceholders

def rowsOf (m : Emission) (colorsForced : Bool) (blocks : List Block) : List Row :=
  blocks.flatMap (Block.rows (m.context colorsForced) m.config.annotatePlaceholders)

structure OnlyRearranged (m : Emission) (colorsForced : Bool) : Prop where
  flat : m.flat.text colorsForced =
    .ok ("\n".intercalate (m.flatLayout.map (m.blockText colorsForced)))
  grouped : m.grouped.text colorsForced =
    .ok ("\n".intercalate (m.groupedLayout.map (m.blockText colorsForced)))
  alone : ∀ e : Entry, e.emitText m.config.annotatePlaceholders (m.context colorsForced) =
    (.ok (), ⟨m.blockText colorsForced (.function e), m.context colorsForced⟩)
  bodies : m.bodies = m.shown.filter fun e => e.kind ≠ .asm
  sections : (m.sections.map Section.placement).Nodup
  rearranged : (m.sections.flatMap fun s => m.bodiesAt s.placement).Perm m.bodies
  declared : m.declarations = m.shown.filterMap declaration?
  assembly : ∀ e ∈ m.shown, e.kind = .asm → ∃ line, declaration? e = some line ∧
    m.blockText colorsForced (.function e) = line ++ "\n"
  before : ∀ e ∈ m.functions, e.kind ≠ .placeholder → ∃ line ∈ m.declarations, declaration? e = some line
  added : (m.rowsOf colorsForced m.groupedLayout).Perm (m.rowsOf colorsForced m.flatLayout ++
    (m.addedTitles.map (m.context colorsForced).headerRow ++
      (m.functions.filterMap signature?).map Row.ofText))

variable {m : Emission}

theorem sectionBody {s : Section} (member : s ∈ m.sections) :
    s.functions.filter m.grouped.isVisible = m.bodiesAt s.placement := by
  rw [(sectionsPartition m.functions).holds s member, bodiesAt, bodies, List.filter_filter, List.filter_filter]
  exact List.filter_congr fun e _ => Bool.and_comm _ _

theorem sectionBodyBlocks {s : Section} (member : s ∈ m.sections) :
    m.grouped.sectionBlocks s = m.bodyBlocks s := by
  have visible : s.functions.any m.grouped.isVisible = !(m.bodiesAt s.placement).isEmpty := by
    rw [← sectionBody member, Bool.eq_iff_iff]
    simp
  unfold sectionBlocks bodyBlocks functionBlocks
  rw [visible, sectionBody member]
  cases (m.bodiesAt s.placement).isEmpty <;> rfl

theorem groupedBlocks (m : Emission) : m.grouped.blocks = m.groupedLayout := by
  have sections : m.sections.flatMap m.grouped.sectionBlocks = m.sections.flatMap m.bodyBlocks :=
    List.flatMap_congr fun s member => sectionBodyBlocks member
  have laid : m.grouped.blocks =
      (m.declarationBlocks ++ m.sections.flatMap m.grouped.sectionBlocks) ++ m.entryPointBlocks := rfl
  rw [laid, sections, List.append_assoc]
  rfl

theorem visibleKinds (m : Emission) (e : Entry) :
    m.grouped.isVisible e = (m.flat.isVisible e && decide (e.kind ≠ .asm)) := by
  unfold isVisible
  cases e.kind <;> simp [grouped, flat]

theorem bodiesShown (m : Emission) : m.bodies = m.shown.filter fun e => e.kind ≠ .asm := by
  rw [bodies, shown, List.filter_filter]
  exact List.filter_congr fun e _ => (m.visibleKinds e).trans (Bool.and_comm _ _)

theorem declaredIff (e : Entry) : (declaration? e).isSome = true ↔ e.kind ≠ .placeholder := by
  unfold declaration? Entry.kind
  cases e.body <;> simp [Body.kind]

theorem declaredShown (m : Emission) : m.declarations = m.shown.filterMap declaration? := by
  rw [shown, List.filterMap_filter]
  refine List.filterMap_congr fun e _ => ?_
  unfold isVisible declaration? Entry.kind
  cases e.body with
  | ordinary d => rfl
  | asm d => rfl
  | placeholder => exact (ite_self none).symm

theorem declaredBefore {e : Entry} (member : e ∈ m.functions) (defined : e.kind ≠ .placeholder) :
    ∃ line ∈ m.declarations, declaration? e = some line := by
  obtain ⟨line, declared⟩ := Option.isSome_iff_exists.mp ((declaredIff e).mpr defined)
  exact ⟨line, List.mem_filterMap.mpr ⟨e, member, declared⟩, declared⟩

theorem assemblyDeclared {e : Entry} (assembly : e.kind = .asm) :
    ∃ line, declaration? e = some line ∧ ∀ c annotatePlaceholders,
      e.rows c annotatePlaceholders = [.ofText line] := by
  obtain ⟨name, body, placement, isEntryPoint, dependencies⟩ := e
  cases body with
  | asm d => exact ⟨d.text, rfl, fun _ _ => rfl⟩
  | ordinary _ => contradiction
  | placeholder => contradiction

theorem rowText (m : Emission) (colorsForced : Bool) (line : String) :
    String.join (rowTexts (m.context colorsForced) [.ofText line]) = line ++ "\n" := by
  have level : (m.context colorsForced).level = 0 := rfl
  simp [rowTexts, Row.texts, Row.ofText, Context.deepen, Context.indentation, level]

section Rows

variable {c : Context} {annotatePlaceholders : Bool}

theorem flatMapFilter (keep : α → Bool) (f : α → List β) (items : List α) :
    (items.filter keep).flatMap f = items.flatMap fun a => if keep a then f a else [] := by
  induction items with
  | nil => rfl
  | cons a items ih =>
    rw [List.filter_cons, List.flatMap_cons, ← ih]
    split <;> simp

theorem mapFilterMap (f : α → Option β) (g : β → γ) (items : List α) :
    (items.filterMap f).map g = items.flatMap fun a => (f a).toList.map g := by
  rw [List.filterMap_eq_flatMap_toList, List.map_flatMap]

theorem entryRows (m : Emission) (e : Entry) :
    ((declaration? e).toList.map Row.ofText ++
      if m.grouped.isVisible e then e.rows c annotatePlaceholders else []).Perm
    ((if m.flat.isVisible e then e.rows c annotatePlaceholders else []) ++
      (signature? e).toList.map Row.ofText) := by
  obtain ⟨name, body, placement, isEntryPoint, dependencies⟩ := e
  cases body with
  | ordinary d => exact List.perm_append_comm
  | asm d => exact .refl _
  | placeholder => exact List.perm_append_comm

theorem functionRows (m : Emission) (c : Context) (annotatePlaceholders : Bool) :
    (m.declarations.map Row.ofText ++ m.bodies.flatMap (Entry.rows c annotatePlaceholders)).Perm
      (m.shown.flatMap (Entry.rows c annotatePlaceholders) ++
        (m.functions.filterMap signature?).map Row.ofText) := by
  unfold declarations bodies shown
  rw [flatMapFilter, flatMapFilter, mapFilterMap, mapFilterMap]
  refine (List.flatMap_append_perm _ _ _).trans (.trans ?_ (List.flatMap_append_perm _ _ _).symm)
  exact .flatMap_left _ fun e _ => m.entryRows e

theorem declarationRows (m : Emission) (c : Context) (annotatePlaceholders : Bool) :
    m.declarationBlocks.flatMap (Block.rows c annotatePlaceholders) =
      (if m.declarations.isEmpty then [] else ["declarations"]).map c.headerRow ++
        m.declarations.map Row.ofText := by
  unfold declarationBlocks
  cases m.declarations with
  | nil => rfl
  | cons line lines => simp [Block.rows]

theorem bodyRows (m : Emission) (s : Section) :
    (m.bodyBlocks s).flatMap (Block.rows c annotatePlaceholders) =
      (if !(m.bodiesAt s.placement).isEmpty then [s.title] else []).map c.headerRow ++
        (m.bodiesAt s.placement).flatMap (Entry.rows c annotatePlaceholders) := by
  unfold bodyBlocks
  cases m.bodiesAt s.placement with
  | nil => rfl
  | cons e others => simp [Block.rows, List.flatMap_map]

theorem bodiesRearranged (m : Emission) :
    (m.sections.flatMap fun s => m.bodiesAt s.placement).Perm m.bodies := by
  have covered : Section.Partition m.sections m.functions := sectionsPartition m.functions
  have placed : ∀ e ∈ m.bodies, e.placement ∈ m.sections.map Section.placement :=
    fun e member => covered.covers e (List.mem_of_mem_filter member)
  have perm := partsPerm covered.distinct placed
  rwa [List.flatMap_map] at perm

theorem sectionRows (m : Emission) (c : Context) (annotatePlaceholders : Bool) :
    ((m.sections.flatMap m.bodyBlocks).flatMap (Block.rows c annotatePlaceholders)).Perm
      (((m.sections.filter fun s => !(m.bodiesAt s.placement).isEmpty).map Section.title).map c.headerRow ++
        m.bodies.flatMap (Entry.rows c annotatePlaceholders)) := by
  rw [List.flatMap_assoc, List.map_map, List.map_eq_flatMap, flatMapFilter]
  simp only [bodyRows]
  refine (List.flatMap_append_perm _ _ _).symm.trans (.append (.of_eq ?_) ?_)
  · refine List.flatMap_congr fun s _ => ?_
    cases (m.bodiesAt s.placement).isEmpty <;> rfl
  · rw [← List.flatMap_assoc]
    exact m.bodiesRearranged.flatMap_right _

theorem addedRows (m : Emission) (colorsForced : Bool) :
    (m.rowsOf colorsForced m.groupedLayout).Perm (m.rowsOf colorsForced m.flatLayout ++
      (m.addedTitles.map (m.context colorsForced).headerRow ++
        (m.functions.filterMap signature?).map Row.ofText)) := by
  classical
  have functions := m.functionRows (m.context colorsForced) m.config.annotatePlaceholders
  have sections := m.sectionRows (m.context colorsForced) m.config.annotatePlaceholders
  have flat : (m.shown.map Block.function).flatMap
      (Block.rows (m.context colorsForced) m.config.annotatePlaceholders) =
        m.shown.flatMap (Entry.rows (m.context colorsForced) m.config.annotatePlaceholders) :=
    List.flatMap_map _ _ _
  unfold rowsOf groupedLayout flatLayout addedTitles
  rw [List.flatMap_append, List.flatMap_append, List.flatMap_append, declarationRows, flat, List.map_append]
  rw [List.perm_iff_count] at functions sections ⊢
  intro row
  have declared := functions row
  have placed := sections row
  simp only [List.count_append] at declared placed ⊢
  omega

end Rows

theorem groupingRearranges (m : Emission) (colorsForced : Bool) : m.OnlyRearranged colorsForced where
  flat := m.flat.textOfBlocks colorsForced
  grouped := by
    rw [m.grouped.textOfBlocks, groupedBlocks]
    rfl
  alone e := by
    have written := Emit.writesString (e.writes (m.context colorsForced) m.config.annotatePlaceholders) ""
    rwa [String.empty_append] at written
  bodies := m.bodiesShown
  sections := (sectionsPartition m.functions).distinct
  rearranged := m.bodiesRearranged
  declared := m.declaredShown
  assembly e _ assembly := by
    obtain ⟨line, declared, rows⟩ := assemblyDeclared assembly
    refine ⟨line, declared, ?_⟩
    rw [blockText, Block.text, Block.rows, rows, rowText]
  before _ member defined := declaredBefore member defined
  added := m.addedRows colorsForced

end Emission
end CompilationUnit
