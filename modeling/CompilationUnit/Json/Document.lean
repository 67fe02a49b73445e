import CompilationUnit.Json.Outline

/-!
Documents: whole JSON texts. Tokens are folded into an outline one at a time, with a stack of slots
for the containers that are open; a token that fits nowhere ends the outline where it stands.
-/
namespace CompilationUnit.Json

structure Document where
  root : Outline
  overrun : Bool

inductive Slot
  | root
  | item (before : List Outline)
  | member (before : List (Quoted × Outline)) (key : Quoted)

inductive Stage
  | value (slot : Slot)
  | afterItem (items : List Outline)
  | key (members : List (Quoted × Outline))
  | colon (members : List (Quoted × Outline)) (key : Quoted)
  | afterMember (members : List (Quoted × Outline))

/-- How far the tokens have been followed; the open containers outside the innermost one wait in
their slots, innermost first. -/
inductive Progress
  | within (stage : Stage) (outer : List Slot)
  | finished (root : Outline)
  | overrun (root : Outline)
  | stuck (root : Outline)

def Slot.fill (slot : Slot) (value : Outline) (outer : List Slot) : Progress :=
  match slot with
  | .root => .finished value
  | .item before => .within (.afterItem (value :: before)) outer
  | .member before key => .within (.afterMember ((key, value) :: before)) outer

def close (value : Outline) : List Slot → Progress
  | [] => .finished value
  | slot :: outer => slot.fill value outer

def cutOff (value : Outline) : List Slot → Outline
  | [] => value
  | .root :: _ => value
  | .item before :: outer => cutOff (.list (value :: before).reverse .cut) outer
  | .member before key :: outer => cutOff (.object ((key, value) :: before).reverse .cut) outer

def strayIn (slot : Slot) (outer : List Slot) : Progress :=
  .stuck (cutOff (.leaf .stray) (slot :: outer))

def stepValue (slot : Slot) (outer : List Slot) : Token → Progress
  | .openList => .within (.value (.item [])) (slot :: outer)
  | .openObject => .within (.key []) (slot :: outer)
  | .leaf l =>
    if l.isBroken then .stuck (cutOff (.leaf l) (slot :: outer)) else slot.fill (.leaf l) outer
  | .closeList =>
    match slot with
    | .item [] => close (.list [] .closed) outer
    | .item before => .stuck (cutOff (.list before.reverse .trailingComma) outer)
    | _ => strayIn slot outer
  | _ => strayIn slot outer

def stepKey (members : List (Quoted × Outline)) (outer : List Slot) : Token → Progress
  | .leaf (.string key) =>
    if key.broken.isSome then .stuck (cutOff (.object members.reverse (.noColon key true)) outer)
    else .within (.colon members key) outer
  | .closeObject =>
    if members.isEmpty then close (.object [] .closed) outer
    else .stuck (cutOff (.object members.reverse .trailingComma) outer)
  | _ => .stuck (cutOff (.object members.reverse .notKey) outer)

def stepStage (outer : List Slot) : Stage → Token → Progress
  | .value slot, token => stepValue slot outer token
  | .key members, token => stepKey members outer token
  | .colon members key, .colon => .within (.value (.member members key)) outer
  | .colon members key, _ => .stuck (cutOff (.object members.reverse (.noColon key false)) outer)
  | .afterItem items, .comma => .within (.value (.item items)) outer
  | .afterItem items, .closeList => close (.list items.reverse .closed) outer
  | .afterItem items, _ => .stuck (cutOff (.list items.reverse .noComma) outer)
  | .afterMember members, .comma => .within (.key members) outer
  | .afterMember members, .closeObject => close (.object members.reverse .closed) outer
  | .afterMember members, _ => .stuck (cutOff (.object members.reverse .noComma) outer)

def step : Progress → Token → Progress
  | .within stage outer, token => stepStage outer stage token
  | .finished root, _ => .overrun root
  | .overrun root, _ => .overrun root
  | .stuck root, _ => .stuck root

def endStage (outer : List Slot) : Stage → Outline
  | .value (.item []) => cutOff (.list [] .endOfText) outer
  | .value (.item items) => cutOff (.list items.reverse .endAfterComma) outer
  | .value slot => cutOff (.leaf .missing) (slot :: outer)
  | .afterItem items => cutOff (.list items.reverse .endOfText) outer
  | .key [] => cutOff (.object [] .endOfText) outer
  | .key members => cutOff (.object members.reverse .endAfterComma) outer
  | .colon members key => cutOff (.object members.reverse (.noColon key true)) outer
  | .afterMember members => cutOff (.object members.reverse .endOfText) outer

def Progress.document : Progress → Document
  | .within stage outer => ⟨endStage outer stage, false⟩
  | .finished root => ⟨root, false⟩
  | .overrun root => ⟨root, true⟩
  | .stuck root => ⟨root, false⟩

def Document.ofTokens (ts : List Token) : Document :=
  (ts.foldl step (.within (.value .root) [])).document

def Document.ofText (text : String) : Document :=
  .ofTokens (tokens text.toList)

end CompilationUnit.Json
