import CompilationUnit.Text.Quotation

/-!
Why a JSON text is refused: the problems of spelling and nesting, the values that do not fit the
type asked for, and the one wording of each.
-/
namespace CompilationUnit.Json

inductive Found
  | null
  | boolean (b : Bool)
  | integer (i : Int)
  | real (text : String)
  | string (s : String)
  | sequence
  | map
  | bareVariant
  deriving DecidableEq, Repr

def Found.describe : Found → String
  | .null => "null"
  | .boolean true => "boolean `true`"
  | .boolean false => "boolean `false`"
  | .integer i => "integer `" ++ toString i ++ "`"
  | .real text => "floating point `" ++ text ++ "`"
  | .string s => "string " ++ Text.quotation s
  | .sequence => "sequence"
  | .map => "map"
  | .bareVariant => "unit variant"

inductive Fault
  | endInValue
  | endInString
  | endInList
  | endInObject
  | colonExpected
  | commaOrListEndExpected
  | commaOrObjectEndExpected
  | trailingComma
  | trailingCharacters
  | keyNotString
  | valueExpected
  | wordExpected
  | controlCharacter
  | invalidEscape
  | unfinishedSurrogate
  | loneSurrogate
  | invalidNumber
  | numberOutOfRange
  | tooDeep
  | invalidType (found : Found) (wanted : String)
  | invalidValue (found : Found) (wanted : String)
  | invalidLength (length : Nat) (wanted : String)
  | unknownVariant (name : String) (known : List String)
  | missingField (name : String)
  | duplicateField (name : String)
  | rejected (message : String)
  deriving DecidableEq, Repr

def choiceText (known : List String) : String :=
  let quoted := known.map fun name => "`" ++ name ++ "`"
  match quoted with
  | [] => "there are no variants"
  | [only] => "expected " ++ only
  | [first, second] => "expected " ++ first ++ " or " ++ second
  | several => "expected one of " ++ ", ".intercalate several

def Fault.message : Fault → String
  | .endInValue => "EOF while parsing a value"
  | .endInString => "EOF while parsing a string"
  | .endInList => "EOF while parsing a list"
  | .endInObject => "EOF while parsing an object"
  | .colonExpected => "expected `:`"
  | .commaOrListEndExpected => "expected `,` or `]`"
  | .commaOrObjectEndExpected => "expected `,` or `\x7d`"
  | .trailingComma => "trailing comma"
  | .trailingCharacters => "trailing characters"
  | .keyNotString => "key must be a string"
  | .valueExpected => "expected value"
  | .wordExpected => "expected ident"
  | .controlCharacter => "control character (\\u0000-\\u001F) found while parsing a string"
  | .invalidEscape => "invalid escape"
  | .unfinishedSurrogate => "unexpected end of hex escape"
  | .loneSurrogate => "lone leading surrogate in hex escape"
  | .invalidNumber => "invalid number"
  | .numberOutOfRange => "number out of range"
  | .tooDeep => "recursion limit exceeded"
  | .invalidType found wanted => "invalid type: " ++ found.describe ++ ", expected " ++ wanted
  | .invalidValue found wanted => "invalid value: " ++ found.describe ++ ", expected " ++ wanted
  | .invalidLength length wanted =>
    "invalid length " ++ toString length ++ ", expected " ++ wanted
  | .unknownVariant name known => "unknown variant `" ++ name ++ "`, " ++ choiceText known
  | .missingField name => "missing field `" ++ name ++ "`"
  | .duplicateField name => "duplicate field `" ++ name ++ "`"
  | .rejected message => message

end CompilationUnit.Json
