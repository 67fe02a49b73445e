import CompilationUnit.Json.NumberScan
import CompilationUnit.Json.Quoted

/-!
Tokens of a JSON text. Cutting a text into tokens needs no context: it goes on until a token that
nobody could read past, and leaves every other judgement to the reader.
-/
namespace CompilationUnit.Json

inductive Leaf
  | null
  | boolean (b : Bool)
  | number (value : Except Fault Number) (broken : Option Fault)
  | string (quoted : Quoted)
  | misspelt (start : Char) (fault : Fault)
  | stray
  | missing

inductive Token
  | openList
  | closeList
  | openObject
  | closeObject
  | comma
  | colon
  | leaf (l : Leaf)

def Leaf.isBroken : Leaf → Bool
  | .null => false
  | .boolean _ => false
  | .number _ broken => broken.isSome
  | .string quoted => quoted.broken.isSome
  | .misspelt _ _ => true
  | .stray => true
  | .missing => true

def isBlank (c : Char) : Bool := c == ' ' || c == '\t' || c == '\n' || c == '\r'

def matchWord : List Char → List Char → Except Fault (List Char)
  | [], rest => .ok rest
  | _ :: _, [] => .error .endInValue
  | w :: ws, c :: cs => if w = c then matchWord ws cs else .error .wordExpected

structure TokenScan where
  token : Token
  rest : List Char

def scanWord (start : Char) (leaf : Leaf) (word rest : List Char) : TokenScan :=
  match matchWord word rest with
  | .ok rest => ⟨.leaf leaf, rest⟩
  | .error fault => ⟨.leaf (.misspelt start fault), []⟩

def scanToken (c : Char) (cs : List Char) : TokenScan :=
  match c with
  | '[' => ⟨.openList, cs⟩
  | ']' => ⟨.closeList, cs⟩
  | '\x7b' => ⟨.openObject, cs⟩
  | '\x7d' => ⟨.closeObject, cs⟩
  | ',' => ⟨.comma, cs⟩
  | ':' => ⟨.colon, cs⟩
  | '"' =>
    let scan := scanQuoted cs
    ⟨.leaf (.string scan.quoted), scan.rest⟩
  | 'n' => scanWord c .null ['u', 'l', 'l'] cs
  | 't' => scanWord c (.boolean true) ['r', 'u', 'e'] cs
  | 'f' => scanWord c (.boolean false) ['a', 'l', 's', 'e'] cs
  | c =>
    if c = '-' ∨ c.isDigit then
      let scan := scanNumber (c :: cs)
      ⟨.leaf (.number scan.value scan.broken), scan.rest⟩
    else ⟨.leaf .stray, cs⟩

def Token.isBroken : Token → Bool
  | .leaf l => l.isBroken
  | _ => false

theorem scanQuotedRest (cs : List Char) : (scanQuoted cs).rest.length ≤ cs.length := by
  fun_induction scanQuoted cs <;> simp_all [QuoteScan.push] <;> omega

theorem matchWordRest {word cs rest : List Char} (h : matchWord word cs = .ok rest) :
    rest.length ≤ cs.length := by
  induction word generalizing cs with
  | nil => simp_all [matchWord]
  | cons w ws ih =>
    cases cs with
    | nil => simp [matchWord] at h
    | cons c cs =>
      simp only [matchWord] at h
      split at h
      · have := ih h
        simp only [List.length_cons]
        omega
      · simp at h

theorem scanWordRest (start : Char) (leaf : Leaf) (word cs : List Char) :
    (scanWord start leaf word cs).rest.length ≤ cs.length := by
  unfold scanWord
  split
  · exact matchWordRest (by assumption)
  · simp

theorem scanTokenRest (c : Char) (cs : List Char) : (scanToken c cs).rest.length ≤ cs.length := by
  unfold scanToken
  split <;> try exact Nat.le_refl _
  · exact scanQuotedRest cs
  · exact scanWordRest _ _ _ cs
  · exact scanWordRest _ _ _ cs
  · exact scanWordRest _ _ _ cs
  · split
    · exact scanNumberRest _ cs (by assumption)
    · exact Nat.le_refl _

def tokens : List Char → List Token
  | [] => []
  | c :: cs =>
    if isBlank c then tokens cs
    else
      (scanToken c cs).token ::
        if (scanToken c cs).token.isBroken then [] else tokens (scanToken c cs).rest
termination_by cs => cs.length
decreasing_by
  · simp
  · have := scanTokenRest c cs
    simp only [List.length_cons]
    omega

end CompilationUnit.Json
