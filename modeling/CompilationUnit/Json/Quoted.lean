import CompilationUnit.Json.Fault

/-!
Strings of a JSON text. Reading goes in two steps: the text between the quotes is cut into pieces,
where it can go wrong for everyone, and the pieces are put together, where a reader that keeps the
string also wants its surrogates paired. Writing escapes the quote, the backslash and the control
characters, and nothing else.
-/
namespace CompilationUnit.Json

inductive Piece
  | char (c : Char)
  | unit (n : Nat)
  deriving DecidableEq, Repr

inductive QuoteEnd
  | closed
  | endOfText
  | controlCharacter
  | badEscape
  | badHex
  deriving DecidableEq, Repr

def QuoteEnd.fault? : QuoteEnd → Option Fault
  | .closed => none
  | .endOfText => some .endInString
  | .controlCharacter => some .controlCharacter
  | .badEscape => some .invalidEscape
  | .badHex => some .invalidEscape

def QuoteEnd.pairFault : QuoteEnd → Fault
  | .endOfText => .endInString
  | .badHex => .invalidEscape
  | _ => .unfinishedSurrogate

def escaped? : Char → Option Char
  | '"' => some '"'
  | '\\' => some '\\'
  | '/' => some '/'
  | 'b' => some '\x08'
  | 'f' => some '\x0c'
  | 'n' => some '\n'
  | 'r' => some '\r'
  | 't' => some '\t'
  | _ => none

def hexValue? (c : Char) : Option Nat :=
  if '0' ≤ c ∧ c ≤ '9' then some (c.toNat - '0'.toNat)
  else if 'a' ≤ c ∧ c ≤ 'f' then some (c.toNat - 'a'.toNat + 10)
  else if 'A' ≤ c ∧ c ≤ 'F' then some (c.toNat - 'A'.toNat + 10)
  else none

def hexUnit? (a b c d : Char) : Option Nat := do
  let a ← hexValue? a
  let b ← hexValue? b
  let c ← hexValue? c
  let d ← hexValue? d
  pure (((a * 16 + b) * 16 + c) * 16 + d)

/-- How four hexadecimal digits that are not there fail: with fewer than four bytes left the text
is taken to end in the string. -/
def hexEnd (cs : List Char) : QuoteEnd :=
  if ((cs.take 4).map Char.utf8Size).foldr (· + ·) 0 < 4 then .endOfText else .badHex

structure QuoteScan where
  pieces : List Piece
  stop : QuoteEnd
  rest : List Char
  deriving DecidableEq, Repr

def QuoteScan.push (piece : Piece) (scan : QuoteScan) : QuoteScan :=
  { scan with pieces := piece :: scan.pieces }

def scanQuoted : List Char → QuoteScan
  | [] => ⟨[], .endOfText, []⟩
  | '"' :: rest => ⟨[], .closed, rest⟩
  | ['\\'] => ⟨[], .endOfText, []⟩
  | '\\' :: 'u' :: a :: b :: c :: d :: rest =>
    match hexUnit? a b c d with
    | some n => (scanQuoted rest).push (.unit n)
    | none => ⟨[], hexEnd (a :: b :: c :: d :: rest), rest⟩
  | '\\' :: e :: rest =>
    if e = 'u' then ⟨[], hexEnd rest, rest⟩
    else match escaped? e with
      | some c => (scanQuoted rest).push (.char c)
      | none => ⟨[], .badEscape, rest⟩
  | c :: rest =>
    if c < ' ' then ⟨[], .controlCharacter, rest⟩ else (scanQuoted rest).push (.char c)

def isLeading (n : Nat) : Bool := 0xd800 ≤ n && n ≤ 0xdbff

def isTrailing (n : Nat) : Bool := 0xdc00 ≤ n && n ≤ 0xdfff

def joinSurrogates (leading trailing : Nat) : Char :=
  Char.ofNat (0x10000 + (leading - 0xd800) * 0x400 + (trailing - 0xdc00))

def assemble (stop : QuoteEnd) : List Piece → Except Fault (List Char)
  | [] => match stop.fault? with
    | some fault => .error fault
    | none => .ok []
  | .char c :: ps => do
    let cs ← assemble stop ps
    pure (c :: cs)
  | [.unit n] =>
    if isTrailing n then .error .loneSurrogate
    else if isLeading n then .error stop.pairFault
    else match stop.fault? with
      | some fault => .error fault
      | none => .ok [Char.ofNat n]
  | .unit n :: p :: ps =>
    if isTrailing n then .error .loneSurrogate
    else if isLeading n then
      match p with
      | .char _ => .error .unfinishedSurrogate
      | .unit m =>
        if isTrailing m then do
          let cs ← assemble stop ps
          pure (joinSurrogates n m :: cs)
        else .error .loneSurrogate
    else do
      let cs ← assemble stop (p :: ps)
      pure (Char.ofNat n :: cs)

structure Quoted where
  value : Except Fault String
  broken : Option Fault

def QuoteScan.quoted (scan : QuoteScan) : Quoted :=
  { value := (assemble scan.stop scan.pieces).map String.ofList
    broken := scan.stop.fault? }

def hexDigit (n : Nat) : Char := Nat.digitChar n

def escapeChar (c : Char) : List Char :=
  match c with
  | '"' => ['\\', '"']
  | '\\' => ['\\', '\\']
  | '\x08' => ['\\', 'b']
  | '\x0c' => ['\\', 'f']
  | '\n' => ['\\', 'n']
  | '\r' => ['\\', 'r']
  | '\t' => ['\\', 't']
  | c =>
    if c < ' ' then
      ['\\', 'u', '0', '0', hexDigit (c.toNat / 16), hexDigit (c.toNat % 16)]
    else [c]

def quote (s : String) : String :=
  "\"" ++ String.ofList (s.toList.flatMap escapeChar) ++ "\""

end CompilationUnit.Json
