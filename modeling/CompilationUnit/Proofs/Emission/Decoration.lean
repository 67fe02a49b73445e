import CompilationUnit.Proofs.Emission.Blocks

/-! Colour is an addition to the text, row by row: without the codes that begin and end it, a coloured
emission is the plain one, provided that the plain one has no escape of its own. Two emissions that differ
in their colours are compared text by text, whatever the relation between a coloured text and the other. -/
namespace CompilationUnit

def withoutCodes : List Char → List Char
  | '\x1b' :: '[' :: '3' :: '6' :: 'm' :: rest => withoutCodes rest
  | '\x1b' :: '[' :: '9' :: '0' :: 'm' :: rest => withoutCodes rest
  | '\x1b' :: '[' :: '0' :: 'm' :: rest => withoutCodes rest
  | c :: rest => c :: withoutCodes rest
  | [] => []

def Unescaped (text : String) : Prop := '\x1b' ∉ text.toList

theorem unescapedAppend {text other : String} :
    Unescaped (text ++ other) ↔ Unescaped text ∧ Unescaped other := by
  simp [Unescaped]

theorem withoutCodesUnescaped {cs : List Char} (unescaped : '\x1b' ∉ cs) (rest : List Char) :
    withoutCodes (cs ++ rest) = cs ++ withoutCodes rest := by
  induction cs with
  | nil => rfl
  | cons c cs ih =>
    rw [List.mem_cons, not_or] at unescaped
    have other : c ≠ '\x1b' := Ne.symm unescaped.1
    simp [withoutCodes, other, ih unescaped.2]

theorem resumeUnescaped (start : List Char) {cs : List Char} (unescaped : '\x1b' ∉ cs) :
    Text.resume start cs = cs := by
  induction cs with
  | nil => rfl
  | cons c cs ih =>
    rw [List.mem_cons, not_or] at unescaped
    have other : c ≠ '\x1b' := Ne.symm unescaped.1
    simp [Text.resume, other, ih unescaped.2]

def Decorates (colored plain : String) : Prop :=
  Unescaped plain → ∀ rest, withoutCodes (colored.toList ++ rest) = plain.toList ++ withoutCodes rest

theorem decoratesSelf (text : String) : Decorates text text := withoutCodesUnescaped

theorem decoratesAppend {first plainFirst second plainSecond : String} (left : Decorates first plainFirst)
    (right : Decorates second plainSecond) : Decorates (first ++ second) (plainFirst ++ plainSecond) := by
  intro unescaped rest
  obtain ⟨leftUnescaped, rightUnescaped⟩ := unescapedAppend.mp unescaped
  rw [String.toList_append, String.toList_append, List.append_assoc, List.append_assoc,
    left leftUnescaped, right rightUnescaped]

theorem decoratesJoin {texts plain : List String} (each : List.Forall₂ Decorates texts plain) :
    Decorates (String.join texts) (String.join plain) := by
  induction each with
  | nil => exact decoratesSelf ""
  | cons first _ ih =>
    rw [String.join_cons, String.join_cons]
    exact decoratesAppend first ih

theorem LineColor.paintDecorates (color : LineColor) (text : String) : Decorates (color.paint text) text := by
  intro unescaped rest
  have kept : withoutCodes (text.toList ++ ('\x1b' :: '[' :: '0' :: 'm' :: rest)) =
      text.toList ++ withoutCodes rest := withoutCodesUnescaped unescaped _
  cases color with
  | plain => exact decoratesSelf text unescaped rest
  | cyan =>
    simpa [paint, Text.Style.paint, resumeUnescaped _ unescaped, Text.Style.start, Text.Style.cyan,
      Text.reset, withoutCodes] using kept
  | brightBlack =>
    simpa [paint, Text.Style.paint, resumeUnescaped _ unescaped, Text.Style.start, Text.Style.brightBlack,
      Text.reset, withoutCodes] using kept

structure Context.Varies (Related : String → String → Prop) (c d : Context) : Prop where
  level : c.level = d.level
  indentText : c.indentText = d.indentText
  colored : ∀ color text, Related (c.colored color text) (d.colored color text)

structure Row.Varies (Related : String → String → Prop) (row other : Row) : Prop where
  depth : row.depth = other.depth
  text : Related (printed row.pieces) (printed other.pieces)

section Varied

variable {Related : String → String → Prop} (self : ∀ text, Related text text) {c d : Context}

include self in
theorem rowsVarySelf (rows : List Row) : List.Forall₂ (Row.Varies Related) rows rows :=
  List.forall₂_same.mpr fun _ _ => ⟨rfl, self _⟩

theorem rowVaries (varies : c.Varies Related d) (color : LineColor) (text : String) :
    (Row.ofText (c.colored color text)).Varies Related (.ofText (d.colored color text)) :=
  ⟨rfl, by simpa [Row.ofText] using varies.colored color text⟩

include self

theorem Entry.rowsVary (varies : c.Varies Related d) (annotatePlaceholders : Bool) (e : Entry) :
    List.Forall₂ (Row.Varies Related) (e.rows c annotatePlaceholders) (e.rows d annotatePlaceholders) := by
  unfold Entry.rows
  cases e.body with
  | ordinary definition => exact rowsVarySelf self _
  | asm definition => exact rowsVarySelf self _
  | placeholder =>
    cases annotatePlaceholders with
    | true => exact .cons (rowVaries varies _ _) .nil
    | false => exact .nil

theorem Block.rowsVary (varies : c.Varies Related d) (annotatePlaceholders : Bool) (b : Block) :
    List.Forall₂ (Row.Varies Related) (b.rows c annotatePlaceholders) (b.rows d annotatePlaceholders) := by
  cases b with
  | declarations lines => exact .cons (rowVaries varies _ _) (rowsVarySelf self _)
  | heading title => exact .cons (rowVaries varies _ _) .nil
  | function e => exact e.rowsVary self varies annotatePlaceholders
  | entryPoints names =>
    refine .cons (rowVaries varies _ _) ?_
    rw [List.forall₂_map_left_iff, List.forall₂_map_right_iff]
    exact List.forall₂_same.mpr fun _ _ => rowVaries varies _ _

theorem rowTextsVary (varies : c.Varies Related d) {rows others : List Row}
    (each : List.Forall₂ (Row.Varies Related) rows others) :
    List.Forall₂ Related (rowTexts c rows) (rowTexts d others) := by
  induction each with
  | nil => exact .nil
  | @cons row other _ _ first _ ih =>
    obtain ⟨depth, text⟩ := first
    have indentation : (c.deepen row.depth).indentation = (d.deepen other.depth).indentation := by
      simp only [Context.indentation, Context.deepen, varies.level, varies.indentText, depth]
    unfold rowTexts Row.texts
    rw [List.flatMap_cons, List.flatMap_cons, indentation]
    exact .cons (self _) (.cons text (.cons (self _) ih))

theorem intercalateVaries {parts others : List (List String)}
    (each : List.Forall₂ (List.Forall₂ Related) parts others) :
    List.Forall₂ Related (["\n"].intercalate parts) (["\n"].intercalate others) := by
  induction each with
  | nil => exact .nil
  | cons first later ih =>
    cases later with
    | nil => simpa using first
    | cons next later =>
      rw [List.intercalate_cons_cons, List.intercalate_cons_cons]
      exact List.rel_append (List.rel_append first (.cons (self "\n") .nil)) ih

end Varied

namespace Emission

def withColors (m : Emission) (useColors : Bool) : Emission :=
  { m with config := { m.config with useColors := useColors } }

variable (m : Emission)

section

variable {Related : String → String → Prop} {useColors otherColors forced otherForced : Bool}

theorem textsVary (self : ∀ text, Related text text)
    (colored : ∀ color text, Related (((m.withColors useColors).context forced).colored color text)
      (((m.withColors otherColors).context otherForced).colored color text)) :
    List.Forall₂ Related ((m.withColors useColors).texts forced)
      ((m.withColors otherColors).texts otherForced) := by
  have varies : ((m.withColors useColors).context forced).Varies Related
      ((m.withColors otherColors).context otherForced) := ⟨rfl, rfl, colored⟩
  refine intercalateVaries self ?_
  rw [List.forall₂_map_left_iff, List.forall₂_map_right_iff]
  -- The blocks are the same on both sides, since they do not depend on the colours.
  exact List.forall₂_same.mpr fun b _ =>
    rowTextsVary self varies (b.rowsVary self varies m.config.annotatePlaceholders)

theorem coloredOff (off : ¬(useColors ∧ forced)) (color : LineColor) (text : String) :
    ((m.withColors useColors).context forced).colored color text = text := if_neg off

theorem textsUncolored (off : ¬(useColors ∧ forced)) (otherOff : ¬(otherColors ∧ otherForced)) :
    (m.withColors useColors).texts forced = (m.withColors otherColors).texts otherForced := by
  have same := m.textsVary (fun _ => rfl) fun color text =>
    (m.coloredOff off color text).trans (m.coloredOff otherOff color text).symm
  rwa [List.forall₂_eq_eq_eq] at same

end

theorem textsDecorate :
    List.Forall₂ Decorates ((m.withColors true).texts true) ((m.withColors false).texts false) :=
  m.textsVary decoratesSelf fun color text => color.paintDecorates text

theorem colorsDecorate :
    ∃ plain colored : String,
      (∀ colorsForced, (m.withColors false).text colorsForced = .ok plain) ∧
      (m.withColors true).text false = .ok plain ∧
      (m.withColors true).text true = .ok colored ∧
      ('\x1b' ∉ plain.toList → withoutCodes colored.toList = plain.toList) := by
  have uncolored : ∀ colorsForced,
      (m.withColors false).texts colorsForced = (m.withColors false).texts false :=
    fun _ => m.textsUncolored (by simp) (by simp)
  have unforced : (m.withColors true).texts false = (m.withColors false).texts false :=
    m.textsUncolored (by simp) (by simp)
  refine ⟨String.join ((m.withColors false).texts false), String.join ((m.withColors true).texts true),
    ?_, ?_, ?_, ?_⟩
  · intro colorsForced
    rw [textJoined, uncolored]
  · rw [textJoined, unforced]
  · exact textJoined _ _
  · intro unescaped
    have decorates := decoratesJoin m.textsDecorate unescaped []
    simpa [withoutCodes] using decorates

def annotated : Emission where
  functions := [.ofRegistration (.placeholder "main" ⟨some .stdlib, true, []⟩)]
  config := { Config.default with groupByPlacement := true, annotatePlaceholders := true }

def annotatedText : String :=
  ";; === stdlib ===\n\n;; placeholder: main\n\n;; === entry points ===\n;; main\n"

theorem annotatedDecorated :
    (annotated.withColors false).text true = .ok annotatedText ∧ '\x1b' ∉ annotatedText.toList ∧
    (annotated.withColors true).text false = .ok annotatedText ∧
    ∃ colored, (annotated.withColors true).text true = .ok colored ∧
      withoutCodes colored.toList = annotatedText.toList := by
  have written : (annotated.withColors false).text true = .ok annotatedText := by decide +kernel
  obtain ⟨plain, colored, uncolored, unforced, painted, stripped⟩ := colorsDecorate annotated
  obtain rfl : plain = annotatedText := Except.ok.inj ((uncolored true).symm.trans written)
  have unescaped : '\x1b' ∉ annotatedText.toList := by decide +kernel
  exact ⟨written, unescaped, unforced, colored, painted, stripped unescaped⟩

end Emission
end CompilationUnit
