import CompilationUnit.Proofs.Code.Heads
import CompilationUnit.Proofs.Emission.Gaps

/-! The text of a unit, block by block: which blocks there are, in which order, and that each begins and ends
a line of its own, so that between two of them stands one empty line and no more. -/
namespace CompilationUnit

def LineBegins (text : String) : Prop := ∃ c cs, text.toList = c :: cs ∧ c ≠ '\n'

def LineEnds (text : String) : Prop := ∃ cs c, text.toList = cs ++ [c] ∧ c ≠ '\n'

section Lines

variable {text : String}

theorem lineBeginsAppend (begins : LineBegins text) (more : String) : LineBegins (text ++ more) := by
  obtain ⟨c, cs, same, other⟩ := begins
  exact ⟨c, cs ++ more.toList, by simp [same], other⟩

theorem lineEndsAppend (before : String) (ends : LineEnds text) : LineEnds (before ++ text) := by
  obtain ⟨cs, c, same, other⟩ := ends
  exact ⟨before.toList ++ cs, c, by simp [same], other⟩

theorem paintBegins (s : Text.Style) (text : String) : LineBegins (s.paint text) := by
  have escape : LineBegins "\x1b[" := ⟨'\x1b', ['['], rfl, by decide⟩
  unfold Text.Style.paint Text.Style.start
  simp only [String.append_assoc]
  exact lineBeginsAppend escape _

theorem paintEnds (s : Text.Style) (text : String) : LineEnds (s.paint text) :=
  lineEndsAppend _ ⟨['\x1b', '[', '0'], 'm', rfl, by decide⟩

variable {c : Context} {color : LineColor}

theorem coloredBegins (begins : LineBegins text) : LineBegins (c.colored color text) := by
  unfold Context.colored
  split
  · cases color with
    | plain => exact begins
    | _ => exact paintBegins _ text
  · exact begins

theorem coloredEnds (ends : LineEnds text) : LineEnds (c.colored color text) := by
  unfold Context.colored
  split
  · cases color with
    | plain => exact ends
    | _ => exact paintEnds _ text
  · exact ends

theorem namedEnds {before name : String} (ends : LineEnds before) (tight : name.toList.getLast? ≠ some '\n') :
    LineEnds (before ++ name) := by
  obtain empty | ⟨cs, c, same⟩ := List.eq_nil_or_concat name.toList
  · rw [String.toList_eq_nil_iff.mp empty, String.append_empty]
    exact ends
  · refine lineEndsAppend before ⟨cs, c, by simpa using same, ?_⟩
    simpa [same] using tight

end Lines

def Row.begins (row : Row) : Prop := row.depth = 0 ∧ LineBegins (printed row.pieces)

def Row.ends (row : Row) : Prop := LineEnds (printed row.pieces)

section Rows

variable {c : Context} {row : Row} {rows : List Row}

theorem ofTextBegins {text : String} (begins : LineBegins text) : (Row.ofText text).begins :=
  ⟨rfl, by simpa [Row.ofText] using begins⟩

theorem ofTextEnds {text : String} (ends : LineEnds text) : (Row.ofText text).ends := by
  simpa [Row.ends, Row.ofText] using ends

theorem headerBegins (title : String) : (c.headerRow title).begins := by
  have mark : LineBegins ";; === " := ⟨';', _, rfl, by decide⟩
  refine ofTextBegins (coloredBegins ?_)
  rw [String.append_assoc]
  exact lineBeginsAppend mark _

theorem headerEnds (title : String) : (c.headerRow title).ends :=
  ofTextEnds (coloredEnds (lineEndsAppend _ ⟨" ==".toList, '=', rfl, by decide⟩))

theorem commentBegins (comment : String) : (c.commentRow comment).begins :=
  ofTextBegins (coloredBegins (lineBeginsAppend ⟨';', [';', ' '], rfl, by decide⟩ comment))

theorem commentEnds {comment : String} (ends : LineEnds (";; " ++ comment)) : (c.commentRow comment).ends :=
  ofTextEnds (coloredEnds ends)

theorem headBegins (returnType : ValueType) (name : String) (params : List Parameter)
    (attributes : List Attribute) : LineBegins (headText returnType name params attributes) := by
  obtain ⟨x, xs, same, _, other⟩ := typeBegins returnType
  unfold headText
  simp only [String.append_assoc]
  exact lineBeginsAppend ⟨x, xs, same, other⟩ _

theorem asmEnds (d : AsmDefinition) : LineEnds d.text :=
  lineEndsAppend _ ⟨['"'], ';', rfl, by decide⟩

theorem rowsBegin (level : c.level = 0) (begins : row.begins) :
    LineBegins (String.join (rowTexts c (row :: rows))) := by
  obtain ⟨depth, text⟩ := begins
  have indentation : (c.deepen row.depth).indentation = "" := by
    simp [Context.deepen, Context.indentation, level, depth]
  simp only [rowTexts, List.flatMap_cons, Row.texts, indentation, List.cons_append, String.join_cons,
    String.empty_append]
  exact lineBeginsAppend text _

theorem rowsEnd (c : Context) (rows : List Row) (row : Row) : ∃ before,
    String.join (rowTexts c (rows ++ [row])) = before ++ printed row.pieces ++ "\n" := by
  refine ⟨String.join (rowTexts c rows) ++ (c.deepen row.depth).indentation, ?_⟩
  simp [rowTexts, Row.texts, String.append_assoc]

theorem lastEnds (some : rows ≠ []) (ends : ∀ row ∈ rows, row.ends) :
    ∃ earlier last, rows = earlier ++ [last] ∧ last.ends := by
  obtain ⟨earlier, last, rfl⟩ := rows.eq_nil_or_concat.resolve_left some
  exact ⟨earlier, last, by simp, ends last (by simp)⟩

end Rows

namespace Emission

variable {m : Emission} {b : Block} {e : Entry}

def BlockSource (m : Emission) : Block → Prop
  | .declarations lines => lines = m.declarations
  | .heading _ => True
  | .function e => e ∈ m.functions ∧ m.isVisible e = true
  | .entryPoints names => names = m.entryPoints

theorem functionSource {functions : List Entry} (inside : ∀ e ∈ functions, e ∈ m.functions)
    (member : b ∈ m.functionBlocks functions) : m.BlockSource b := by
  obtain ⟨e, shown, rfl⟩ := List.mem_map.mp member
  obtain ⟨placed, visible⟩ := List.mem_filter.mp shown
  exact ⟨inside e placed, visible⟩

theorem sectionSource {s : Section} (placed : s ∈ m.sections) (member : b ∈ m.sectionBlocks s) :
    m.BlockSource b := by
  have inside : ∀ e ∈ s.functions, e ∈ m.functions := by
    rw [(sectionsPartition m.functions).holds s placed]
    exact fun e => List.mem_of_mem_filter
  unfold sectionBlocks at member
  split at member
  · rcases List.mem_cons.mp member with rfl | member
    · trivial
    · exact functionSource inside member
  · nomatch member

theorem blockSource (member : b ∈ m.blocks) : m.BlockSource b := by
  have declared : b ∈ m.declarationBlocks → m.BlockSource b := by
    unfold declarationBlocks
    split
    · exact nofun
    · exact fun member => List.mem_singleton.mp member ▸ rfl
  have entered : b ∈ m.entryPointBlocks → m.BlockSource b := by
    unfold entryPointBlocks
    split
    · exact fun member => List.mem_singleton.mp member ▸ rfl
    · exact nofun
  unfold blocks at member
  rcases List.mem_append.mp member with functions | points
  · split at functions
    · rcases List.mem_append.mp functions with before | behind
      · exact declared before
      · obtain ⟨s, placed, inside⟩ := List.mem_flatMap.mp behind
        exact sectionSource placed inside
    · exact functionSource (fun _ inside => inside) functions
  · exact entered points

theorem visibleRows (c : Context) (visible : m.isVisible e = true) : ∃ first others,
    e.rows c m.config.annotatePlaceholders = first :: others ∧ first.begins := by
  obtain ⟨name, body, placement, isEntryPoint, dependencies⟩ := e
  cases body with
  | ordinary d =>
    refine ⟨_, _, rfl, rfl, ?_⟩
    exact lineBeginsAppend (headBegins d.returnType d.name d.params d.attributes) _
  | asm d =>
    refine ⟨_, _, rfl, ofTextBegins ?_⟩
    unfold AsmDefinition.text
    rw [String.append_assoc, String.append_assoc]
    exact lineBeginsAppend (headBegins d.returnType d.name d.params d.attributes) _
  | placeholder =>
    have annotated : m.config.annotatePlaceholders = true := visible
    exact ⟨c.commentRow ("placeholder: " ++ name), [], by simp [Entry.rows, annotated], commentBegins _⟩

theorem blockRows (c : Context) (source : m.BlockSource b) : ∃ first others,
    b.rows c m.config.annotatePlaceholders = first :: others ∧ first.begins := by
  cases b with
  | declarations lines => exact ⟨_, _, rfl, headerBegins _⟩
  | heading title => exact ⟨_, _, rfl, headerBegins _⟩
  | function e => exact visibleRows c source.2
  | entryPoints names => exact ⟨_, _, rfl, headerBegins _⟩

theorem visibleLast (c : Context) (visible : m.isVisible e = true)
    (tight : e.name.toList.getLast? ≠ some '\n') : ∃ earlier last,
    e.rows c m.config.annotatePlaceholders = earlier ++ [last] ∧ last.ends := by
  obtain ⟨name, body, placement, isEntryPoint, dependencies⟩ := e
  cases body with
  | ordinary d =>
    have closes : (⟨0, [.text "\x7d"]⟩ : Row).ends := ⟨[], '\x7d', rfl, by decide⟩
    exact ⟨_ :: CompilationUnit.rowsOf 1 d.body, _, rfl, closes⟩
  | asm d => exact ⟨[], _, rfl, ofTextEnds (asmEnds d)⟩
  | placeholder =>
    have annotated : m.config.annotatePlaceholders = true := visible
    have named : LineEnds (";; " ++ "placeholder: " ++ name) :=
      namedEnds ⟨";; placeholder:".toList, ' ', rfl, by decide⟩ tight
    rw [String.append_assoc] at named
    exact ⟨[], c.commentRow ("placeholder: " ++ name), by simp [Entry.rows, annotated], commentEnds named⟩

theorem declarationEnds {line : String} (member : line ∈ m.declarations) : LineEnds line := by
  obtain ⟨e, _, declared⟩ := List.mem_filterMap.mp member
  obtain ⟨name, body, placement, isEntryPoint, dependencies⟩ := e
  cases body with
  | ordinary d =>
    cases declared
    exact lineEndsAppend _ ⟨[], ';', rfl, by decide⟩
  | asm d =>
    cases declared
    exact asmEnds d
  | placeholder => nomatch declared

theorem blockLast (c : Context) (source : m.BlockSource b)
    (tight : ∀ e ∈ m.functions, e.name.toList.getLast? ≠ some '\n') :
    ∃ earlier last, b.rows c m.config.annotatePlaceholders = earlier ++ [last] ∧ last.ends := by
  cases b with
  | declarations lines =>
    obtain rfl : lines = m.declarations := source
    refine lastEnds (List.cons_ne_nil _ _) (List.forall_mem_cons.mpr ⟨headerEnds _, ?_⟩)
    exact List.forall_mem_map.mpr fun line member => ofTextEnds (declarationEnds member)
  | heading title => exact ⟨[], _, rfl, headerEnds _⟩
  | function e => exact visibleLast c source.2 (tight e source.1)
  | entryPoints names =>
    obtain rfl : names = m.entryPoints := source
    refine lastEnds (List.cons_ne_nil _ _) (List.forall_mem_cons.mpr ⟨headerEnds _, ?_⟩)
    refine List.forall_mem_map.mpr fun name member => ?_
    obtain ⟨e, point, rfl⟩ := List.mem_map.mp member
    exact commentEnds (namedEnds ⟨[';', ';'], ' ', rfl, by decide⟩ (tight e (List.mem_of_mem_filter point)))

theorem textBegins {colorsForced : Bool} (rows : ∃ first others,
    b.rows (m.context colorsForced) m.config.annotatePlaceholders = first :: others ∧ first.begins) :
    LineBegins (m.blockText colorsForced b) := by
  obtain ⟨first, others, same, begins⟩ := rows
  rw [blockText, Block.text, same]
  exact rowsBegin rfl begins

def headerLine (m : Emission) (colorsForced : Bool) (title : String) : String :=
  (m.context colorsForced).colored .cyan (";; === " ++ title ++ " ===") ++ "\n"

def commentLine (m : Emission) (colorsForced : Bool) (comment : String) : String :=
  (m.context colorsForced).colored .brightBlack (";; " ++ comment) ++ "\n"

theorem textLines (m : Emission) (colorsForced : Bool) (texts : List String) :
    String.join (rowTexts (m.context colorsForced) (texts.map Row.ofText)) =
      String.join (texts.map (· ++ "\n")) := by
  induction texts with
  | nil => rfl
  | cons text texts ih =>
    have first := m.rowText colorsForced text
    simp only [rowTexts, List.map_cons, List.flatMap_cons, List.flatMap_nil, List.append_nil,
      String.join_append, String.join_cons] at first ih ⊢
    rw [first, ih]

theorem headedLines (m : Emission) (colorsForced : Bool) (title : String) (texts : List String) :
    String.join (rowTexts (m.context colorsForced)
      ((m.context colorsForced).headerRow title :: texts.map Row.ofText)) =
      m.headerLine colorsForced title ++ String.join (texts.map (· ++ "\n")) := by
  have lines := m.textLines colorsForced
    ((m.context colorsForced).colored .cyan (";; === " ++ title ++ " ===") :: texts)
  rwa [List.map_cons, List.map_cons, String.join_cons] at lines

theorem declarationsEmpty (m : Emission) :
    m.declarations = [] ↔ ∀ e ∈ m.functions, e.kind = .placeholder := by
  rw [declarations, List.filterMap_eq_nil_iff]
  refine forall₂_congr fun e _ => ?_
  rw [← Option.not_isSome_iff_eq_none, declaredIff, not_not]

theorem declarationsInOrder (functions : List Entry) :
    List.Forall₂ (fun e line => declaration? e = some line) (functions.filter fun e => e.kind ≠ .placeholder)
      (functions.filterMap declaration?) := by
  induction functions with
  | nil => exact .nil
  | cons e functions ih =>
    have declared := declaredIff e
    cases line : declaration? e with
    | none =>
      rw [line] at declared
      have placeholder : ¬ e.kind ≠ .placeholder := fun kind => Bool.false_ne_true (declared.mpr kind)
      rw [List.filter_cons_of_neg (by simpa using placeholder), List.filterMap_cons_none line]
      exact ih
    | some text =>
      rw [line] at declared
      rw [List.filter_cons_of_pos (by simpa using declared.mp rfl), List.filterMap_cons_some line]
      exact .cons line ih

theorem entryPointsSome (m : Emission) :
    ¬ m.entryPoints.isEmpty ↔ ∃ e ∈ m.functions, e.isEntryPoint = true := by
  simp [entryPoints]

theorem shownIff (m : Emission) (colorsForced : Bool) (e : Entry) :
    m.isVisible e = true ↔ m.blockText colorsForced (.function e) ≠ "" ∧
      ¬ (m.config.groupByPlacement = true ∧ e.kind = .asm) := by
  constructor
  · intro visible
    obtain ⟨x, xs, chars, _⟩ := textBegins (b := .function e) (visibleRows (m.context colorsForced) visible)
    refine ⟨fun empty => ?_, fun ⟨grouped, asm⟩ => ?_⟩
    · rw [empty] at chars
      nomatch chars
    · simp [isVisible, asm, grouped] at visible
  · rintro ⟨text, kept⟩
    obtain ⟨name, body, placement, isEntryPoint, dependencies⟩ := e
    cases body with
    | ordinary d => rfl
    | asm d =>
      cases grouped : m.config.groupByPlacement with
      | true => exact absurd ⟨grouped, rfl⟩ kept
      | false => simp [isVisible, Entry.kind, Body.kind, grouped]
    | placeholder =>
      cases annotated : m.config.annotatePlaceholders with
      | true => exact annotated
      | false => exact absurd (by simp [blockText, Block.text, Block.rows, Entry.rows, annotated, rowTexts]) text

structure LaidOut (m : Emission) (colorsForced : Bool) : Prop where
  gapped : ∀ {σ : Type} [Destination σ], (m.emitGapped : Gapped σ Unit).run' false = m.emit
  joined : m.text colorsForced = .ok ("\n".intercalate (m.blocks.map (m.blockText colorsForced)))
  begun : ∀ b ∈ m.blocks, LineBegins (m.blockText colorsForced b)
  ended : ∀ b ∈ m.blocks, ∃ body, m.blockText colorsForced b = body ++ "\n"
  tight : (∀ e ∈ m.functions, e.name.toList.getLast? ≠ some '\n') →
    ∀ b ∈ m.blocks, ∃ body, m.blockText colorsForced b = body ++ "\n" ∧ LineEnds body
  flat : m.config.groupByPlacement = false → m.blocks =
    (m.functions.filter m.isVisible).map .function ++ m.entryPointBlocks
  grouped : m.config.groupByPlacement = true → m.blocks = m.declarationBlocks ++
    (m.sections.filter fun s => s.functions.any m.isVisible).flatMap (fun s =>
      .heading s.title :: (s.functions.filter m.isVisible).map .function) ++ m.entryPointBlocks
  declared : m.declarationBlocks =
    if ∀ e ∈ m.functions, e.kind = .placeholder then [] else [.declarations m.declarations]
  lines : List.Forall₂ (fun e line => declaration? e = some line)
    (m.functions.filter fun e => e.kind ≠ .placeholder) m.declarations
  entered : m.entryPointBlocks = if m.config.listEntryPoints ∧ ∃ e ∈ m.functions, e.isEntryPoint then
    [.entryPoints ((m.functions.filter Entry.isEntryPoint).map Entry.name)] else []
  shown : ∀ e, m.isVisible e = true ↔ m.blockText colorsForced (.function e) ≠ "" ∧
    ¬ (m.config.groupByPlacement = true ∧ e.kind = .asm)
  alone : ∀ e : Entry, e.emitText m.config.annotatePlaceholders (m.context colorsForced) =
    (.ok (), ⟨m.blockText colorsForced (.function e), m.context colorsForced⟩)
  declarationText : ∀ lines, m.blockText colorsForced (.declarations lines) =
    m.headerLine colorsForced "declarations" ++ String.join (lines.map (· ++ "\n"))
  headingText : ∀ title, m.blockText colorsForced (.heading title) = m.headerLine colorsForced title
  entryPointText : ∀ names, m.blockText colorsForced (.entryPoints names) =
    m.headerLine colorsForced "entry points" ++ String.join (names.map (m.commentLine colorsForced))

theorem blocksInOrder (m : Emission) (colorsForced : Bool) : m.LaidOut colorsForced where
  gapped := m.gappedEmits
  joined := m.textOfBlocks colorsForced
  begun b member := textBegins (blockRows (m.context colorsForced) (blockSource member))
  ended b member := by
    obtain ⟨first, others, rows, _⟩ := blockRows (m.context colorsForced) (blockSource member)
    obtain ⟨earlier, last, same⟩ := (first :: others).eq_nil_or_concat.resolve_left (List.cons_ne_nil _ _)
    obtain ⟨before, text⟩ := rowsEnd (m.context colorsForced) earlier last
    refine ⟨before ++ printed last.pieces, ?_⟩
    rw [blockText, Block.text, rows, same, List.concat_eq_append, text]
  tight names b member := by
    obtain ⟨earlier, last, rows, ends⟩ := blockLast (m.context colorsForced) (blockSource member) names
    obtain ⟨before, same⟩ := rowsEnd (m.context colorsForced) earlier last
    refine ⟨before ++ printed last.pieces, ?_, lineEndsAppend before ends⟩
    rw [blockText, Block.text, rows, same]
  flat off := by simp [blocks, off, functionBlocks]
  grouped on := by
    rw [blocks, if_pos on, flatMapFilter]
    rfl
  declared := by
    unfold declarationBlocks
    exact if_congr (List.isEmpty_iff.trans m.declarationsEmpty) rfl rfl
  lines := declarationsInOrder m.functions
  entered := by
    unfold entryPointBlocks
    exact if_congr (and_congr_right fun _ => m.entryPointsSome) rfl rfl
  shown := m.shownIff colorsForced
  alone e := by
    have written := Emit.writesString (e.writes (m.context colorsForced) m.config.annotatePlaceholders) ""
    rwa [String.empty_append] at written
  declarationText := m.headedLines colorsForced "declarations"
  headingText title := (m.headedLines colorsForced title []).trans (String.append_empty)
  entryPointText names := by
    have lines := m.headedLines colorsForced "entry points"
      (names.map fun name => (m.context colorsForced).colored .brightBlack (";; " ++ name))
    rwa [List.map_map, List.map_map] at lines

end Emission
end CompilationUnit
