import CompilationUnit.Emission.Whole
import CompilationUnit.Proofs.Emission.Rows
import Mathlib.Data.List.Forall2

/-! The blocks of an emission: what stands between two blank lines, row by row. Emitting a unit writes its
blocks with a blank line between each and the next, and nothing else, into any destination. -/
namespace CompilationUnit

inductive Block
  | declarations (lines : List String)
  | heading (title : String)
  | function (e : Entry)
  | entryPoints (names : List String)

def Row.ofText (text : String) : Row := ⟨0, [.text text]⟩

namespace Context

def colored (c : Context) (color : LineColor) (text : String) : String :=
  if c.useColors ∧ c.colorsForced then color.paint text else text

def headerRow (c : Context) (title : String) : Row :=
  .ofText (c.colored .cyan (";; === " ++ title ++ " ==="))

def commentRow (c : Context) (comment : String) : Row :=
  .ofText (c.colored .brightBlack (";; " ++ comment))

end Context

def Entry.rows (c : Context) (annotatePlaceholders : Bool) (e : Entry) : List Row :=
  match e.body with
  | .ordinary definition => definition.rows
  | .asm definition => [.ofText definition.text]
  | .placeholder => if annotatePlaceholders then [c.commentRow ("placeholder: " ++ e.name)] else []

namespace Block

def rows (c : Context) (annotatePlaceholders : Bool) : Block → List Row
  | .declarations lines => c.headerRow "declarations" :: lines.map Row.ofText
  | .heading title => [c.headerRow title]
  | .function e => e.rows c annotatePlaceholders
  | .entryPoints names => c.headerRow "entry points" :: names.map c.commentRow

def text (c : Context) (annotatePlaceholders : Bool) (b : Block) : String :=
  String.join (rowTexts c (b.rows c annotatePlaceholders))

end Block

namespace Emission

def functionBlocks (m : Emission) (functions : List Entry) : List Block :=
  (functions.filter m.isVisible).map .function

def declarationBlocks (m : Emission) : List Block :=
  if m.declarations.isEmpty then [] else [.declarations m.declarations]

def sectionBlocks (m : Emission) (s : Section) : List Block :=
  if s.functions.any m.isVisible then .heading s.title :: m.functionBlocks s.functions else []

def entryPointBlocks (m : Emission) : List Block :=
  if m.config.listEntryPoints ∧ ¬ m.entryPoints.isEmpty then [.entryPoints m.entryPoints] else []

def blocks (m : Emission) : List Block :=
  (if m.config.groupByPlacement then m.declarationBlocks ++ m.sections.flatMap m.sectionBlocks
    else m.functionBlocks m.functions) ++ m.entryPointBlocks

def context (m : Emission) (colorsForced : Bool) : Context := .ofConfig m.config colorsForced

def texts (m : Emission) (colorsForced : Bool) : List String :=
  let c := m.context colorsForced
  ["\n"].intercalate (m.blocks.map fun b => rowTexts c (b.rows c m.config.annotatePlaceholders))

end Emission

variable {σ : Type} [Destination σ]

namespace Emit

variable {a : Emit σ Unit} {c : Context} {texts : List String}

theorem writesColored (c : Context) (color : LineColor) (text : String) :
    Writes (coloredLine color text : Emit σ Unit) c (rowTexts c [.ofText (c.colored color text)]) := by
  have run : ∀ sink, (coloredLine color text : Emit σ Unit).run ⟨sink, c⟩ =
      (line (c.colored color text) : Emit σ Unit).run ⟨sink, c⟩ := by
    intro sink
    unfold Context.colored
    change ((if c.useColors ∧ c.colorsForced then line (color.paint text) else line text) :
      Emit σ Unit).run ⟨sink, c⟩ = _
    split <;> rfl
  intro sink
  rw [run]
  exact writesRow c 0 (by simp) sink

theorem writesAll {emit : String → Emit σ Unit} {row : String → Row}
    (each : ∀ text, Writes (emit text) c (rowTexts c [row text])) (items : List String) :
    Writes (items.forM emit) c (rowTexts c (items.map row)) := by
  induction items with
  | nil => exact writesNothing c
  | cons item items ih => exact writesThen (each item) ih

theorem writesHeaded (title : String) {rows : List Row} (body : Writes a c (rowTexts c rows)) :
    Writes (header title >>= fun _ => a) c (rowTexts c (c.headerRow title :: rows)) :=
  writesThen (writesColored c _ _) body

theorem writesBehind {pieces : List (Emit σ Unit)} {parts : List (List String)}
    (each : List.Forall₂ (fun piece texts => Writes piece c texts) pieces parts) :
    Writes (pieces.forM fun piece => blankLine >>= fun _ => piece) c
      (parts.flatMap fun texts => ["\n"] ++ texts) := by
  induction each with
  | nil => exact writesNothing c
  | cons written _ ih => exact writesThen (writesThen (writesText "\n" c) written) ih

theorem intercalateCons (first : List String) (parts : List (List String)) :
    ["\n"].intercalate (first :: parts) = first ++ parts.flatMap fun texts => ["\n"] ++ texts := by
  induction parts generalizing first with
  | nil => simp
  | cons part parts ih => rw [List.intercalate_cons_cons, ih, List.flatMap_cons, List.append_assoc, List.append_assoc]

theorem writesSeparated {pieces : List (Emit σ Unit)} {parts : List (List String)}
    (each : List.Forall₂ (fun piece texts => Writes piece c texts) pieces parts) :
    Writes (separated pieces) c (["\n"].intercalate parts) := by
  cases each with
  | nil => exact writesNothing c
  | cons written others =>
    rw [intercalateCons]
    exact writesThen written (writesBehind others)

end Emit

open Emit

theorem Entry.writes (c : Context) (annotatePlaceholders : Bool) (e : Entry) :
    Writes (e.emit annotatePlaceholders : Emit σ Unit) c (rowTexts c (e.rows c annotatePlaceholders)) := by
  unfold Entry.emit Entry.rows
  cases e.body with
  | ordinary d => exact d.writes c
  | asm d => exact writesRow c 0 (by simp)
  | placeholder =>
    cases annotatePlaceholders with
    | true => exact writesColored c _ _
    | false => exact writesNothing c

namespace Emission

variable {m : Emission} {c : Context}

abbrev Writing (m : Emission) (c : Context) (piece : Emit σ Unit) (b : Block) : Prop :=
  Writes piece c (rowTexts c (b.rows c m.config.annotatePlaceholders))

theorem functionsWrite (m : Emission) (c : Context) (functions : List Entry) :
    List.Forall₂ (m.Writing c) (m.emitVisible functions : List (Emit σ Unit))
      (m.functionBlocks functions) := by
  rw [emitVisible, functionBlocks, List.forall₂_map_left_iff, List.forall₂_map_right_iff]
  exact List.forall₂_same.mpr fun e _ => e.writes c _

theorem declarationsWrite (m : Emission) (c : Context) :
    List.Forall₂ (m.Writing c) (m.emitDeclarations : List (Emit σ Unit)) m.declarationBlocks := by
  unfold emitDeclarations declarationBlocks
  split
  · exact .nil
  · exact .cons (writesHeaded _ (writesAll (fun text => writesRow c 0 (by simp)) _)) .nil

theorem sectionWrites (m : Emission) (c : Context) (s : Section) :
    List.Forall₂ (m.Writing c) (m.emitSection s : List (Emit σ Unit)) (m.sectionBlocks s) := by
  unfold emitSection sectionBlocks
  split
  · exact .cons (writesColored c _ _) (functionsWrite m c s.functions)
  · exact .nil

theorem entryPointsWrite (m : Emission) (c : Context) :
    List.Forall₂ (m.Writing c) (m.emitEntryPoints : List (Emit σ Unit)) m.entryPointBlocks := by
  unfold emitEntryPoints entryPointBlocks
  split
  · exact .cons (writesHeaded _ (writesAll (fun name => writesColored c _ _) _)) .nil
  · exact .nil

theorem sectionsWrite (m : Emission) (c : Context) (sections : List Section) :
    List.Forall₂ (m.Writing c) (sections.flatMap m.emitSection : List (Emit σ Unit))
      (sections.flatMap m.sectionBlocks) := by
  induction sections with
  | nil => exact .nil
  | cons s sections ih =>
    rw [List.flatMap_cons, List.flatMap_cons]
    exact List.rel_append (sectionWrites m c s) ih

theorem writes (m : Emission) (c : Context) :
    Writes (m.emit : Emit σ Unit) c
      (["\n"].intercalate (m.blocks.map fun b => rowTexts c (b.rows c m.config.annotatePlaceholders))) := by
  refine writesSeparated (List.forall₂_map_right_iff.mpr ?_)
  unfold emitFunctions blocks
  refine List.rel_append ?_ (entryPointsWrite m c)
  split
  · exact List.rel_append (declarationsWrite m c) (sectionsWrite m c m.sections)
  · exact functionsWrite m c m.functions

theorem emitToPours (m : Emission) (sink : σ) (colorsForced : Bool) :
    m.emitTo sink colorsForced = pour sink (m.texts colorsForced) :=
  writesPoured (m.writes (m.context colorsForced)) sink

theorem textJoined (m : Emission) (colorsForced : Bool) :
    m.text colorsForced = .ok (String.join (m.texts colorsForced)) := by
  unfold text
  rw [emitToPours, pourString]
  simp [Except.map]

theorem joinSeparated (parts : List (List String)) :
    String.join (["\n"].intercalate parts) = "\n".intercalate (parts.map String.join) := by
  induction parts with
  | nil => rfl
  | cons part parts ih =>
    cases parts with
    | nil => simp
    | cons next parts =>
      rw [List.intercalate_cons_cons, List.map_cons, List.map_cons, String.intercalate_cons_cons]
      simp [ih, String.append_assoc]

theorem textOfBlocks (m : Emission) (colorsForced : Bool) :
    m.text colorsForced = .ok ("\n".intercalate
      (m.blocks.map (Block.text (m.context colorsForced) m.config.annotatePlaceholders))) := by
  rw [textJoined, texts, joinSeparated, List.map_map]
  rfl

end Emission
end CompilationUnit
