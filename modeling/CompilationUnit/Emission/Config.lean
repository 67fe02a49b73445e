import CompilationUnit.Json.Choice
import CompilationUnit.Json.Value

/-!
Options of an emission.
-/
namespace CompilationUnit

open Json (Value Reader Fields)

inductive IndentStyle
  | spaces (count : Nat)
  | tabs
  deriving DecidableEq, Repr

def IndentStyle.text : IndentStyle → String
  | .spaces count => String.ofList (List.replicate count ' ')
  | .tabs => "\t"

def IndentStyle.encode : IndentStyle → Value
  | .spaces count => .object [("Spaces", .integer count)]
  | .tabs => .string "Tabs"

def IndentStyle.reader : Reader IndentStyle :=
  .choice [("Spaces", .single (Reader.size.map .spaces)), ("Tabs", .nothing .tabs)]

structure Config where
  useColors : Bool
  indentStyle : IndentStyle
  groupByPlacement : Bool
  annotatePlaceholders : Bool
  listEntryPoints : Bool
  deriving DecidableEq, Repr

namespace Config

def default : Config :=
  { useColors := false
    indentStyle := .spaces 4
    groupByPlacement := false
    annotatePlaceholders := false
    listEntryPoints := true }

def encode (c : Config) : Value :=
  .object [("use_colors", .boolean c.useColors), ("indent_style", c.indentStyle.encode),
    ("group_by_placement", .boolean c.groupByPlacement),
    ("annotate_placeholders", .boolean c.annotatePlaceholders),
    ("emit_entry_points", .boolean c.listEntryPoints)]

def fields : Fields [Bool, IndentStyle, Bool, Bool, Bool] :=
  .cons (.required "use_colors" .boolean) <|
  .cons (.required "indent_style" IndentStyle.reader) <|
  .cons (.required "group_by_placement" .boolean) <|
  .cons (.required "annotate_placeholders" .boolean) <|
  .cons (.required "emit_entry_points" .boolean) .nil

def reader : Reader Config :=
  (Reader.record (.struct "EmitterConfig") fields).map
    fun (useColors, indentStyle, groupByPlacement, annotatePlaceholders, listEntryPoints, _) =>
      ⟨useColors, indentStyle, groupByPlacement, annotatePlaceholders, listEntryPoints⟩

end Config

end CompilationUnit
