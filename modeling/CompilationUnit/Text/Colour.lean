/-!
Coloured text for a terminal: the start sequence of a style, the text, and the reset sequence. A
reset inside the text would end the colour early, so the style starts again behind it.
-/
namespace CompilationUnit.Text

structure Style where
  code : String
  deriving DecidableEq, Repr

def Style.cyan : Style := ⟨"36"⟩
def Style.brightBlack : Style := ⟨"90"⟩
def Style.brightYellow : Style := ⟨"93"⟩
def Style.brightCyan : Style := ⟨"96"⟩
def Style.bold (s : Style) : Style := ⟨"1;" ++ s.code⟩
def Style.brightGreen : Style := ⟨"92"⟩

def Style.start (s : Style) : String := "\x1b[" ++ s.code ++ "m"

def reset : String := "\x1b[0m"

def resume (start : List Char) : List Char → List Char
  | '\x1b' :: '[' :: '0' :: 'm' :: rest =>
    '\x1b' :: '[' :: '0' :: 'm' :: (start ++ resume start rest)
  | c :: rest => c :: resume start rest
  | [] => []

def Style.paint (s : Style) (text : String) : String :=
  s.start ++ String.ofList (resume s.start.toList text.toList) ++ reset

end CompilationUnit.Text
