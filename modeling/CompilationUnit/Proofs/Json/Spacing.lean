import CompilationUnit.Json.Document
import CompilationUnit.Json.Value
import CompilationUnit.Proofs.Json.Numerals
import CompilationUnit.Proofs.Json.Quoting

/-! Texts of a value: its lexemes in order, the strings escaped in any way, with any blanks around them. Each of
these texts is followed to the end, and its outline is the tree of the value, each container closed and each
leaf with what it says. -/
namespace CompilationUnit.Json

mutual

def Value.outline : Value → Outline
  | .null => .leaf .null
  | .boolean b => .leaf (.boolean b)
  | .integer i => .leaf (.number (.ok (.integer i)) none)
  | .string s => .leaf (.string (.ofString s))
  | .list items => .list (outlineItems items) .closed
  | .object members => .object (outlineMembers members) .closed

def outlineItems : List Value → List Outline
  | [] => []
  | item :: items => item.outline :: outlineItems items

def outlineMembers : List (String × Value) → List (Quoted × Outline)
  | [] => []
  | (key, value) :: members => (.ofString key, value.outline) :: outlineMembers members

end

mutual

def Value.Fits : Value → Prop
  | .null => True
  | .boolean _ => True
  | .integer i => FitsNumber i
  | .string _ => True
  | .list items => FitsItems items
  | .object members => FitsMembers members

def FitsItems : List Value → Prop
  | [] => True
  | item :: items => item.Fits ∧ FitsItems items

def FitsMembers : List (String × Value) → Prop
  | [] => True
  | (_, value) :: members => value.Fits ∧ FitsMembers members

end

def follow (p : Progress) (cs : List Char) : Progress := (tokens cs).foldl step p

variable {p : Progress} {rest : List Char}

theorem followToken {c : Char} {cs : List Char} {token : Token} (unblank : isBlank c = false)
    (scanned : scanToken c cs = ⟨token, rest⟩) (whole : token.isBroken = false) :
    follow p (c :: cs) = follow (step p token) rest := by
  unfold follow
  rw [tokens, unblank, scanned]
  simp [whole]

theorem followBlank {c : Char} {cs : List Char} (blank : isBlank c = true) :
    follow p (c :: cs) = follow p cs := by
  unfold follow
  rw [tokens, blank]
  rfl

theorem followQuoted {s : String} {body : List Char} (escapes : Escapes s.toList body) :
    follow p ('"' :: (body ++ '"' :: rest)) = follow (step p (.leaf (.string (.ofString s)))) rest := by
  obtain ⟨value, stop⟩ := scanQuotedText escapes rest
  refine followToken rfl ?_ rfl
  simp only [scanToken, value, stop]

theorem scanTokenNumber {c : Char} {cs : List Char} (number : c = '-' ∨ c.isDigit = true) :
    scanToken c cs = ⟨.leaf (.number (scanNumber (c :: cs)).value (scanNumber (c :: cs)).broken),
      (scanNumber (c :: cs)).rest⟩ := by
  unfold scanToken
  split <;> first | (exact absurd number (by decide)) | skip
  rw [if_pos number]

theorem numberStart (i : Int) :
    ∃ c cs, (toString i).toList = c :: cs ∧ (c = '-' ∨ c.isDigit = true) := by
  rw [integerText]
  split
  · exact ⟨'-', _, rfl, .inl rfl⟩
  · cases lead : Nat.toDigits 10 i.natAbs with
    | nil => exact absurd lead Nat.toDigits_ne_nil
    | cons c cs => exact ⟨c, cs, rfl, .inr (allDigits (lead ▸ List.mem_cons_self))⟩

theorem numberUnblank {c : Char} (number : c = '-' ∨ c.isDigit = true) : isBlank c = false := by
  unfold isBlank
  simp only [Bool.or_eq_false_iff, beq_eq_false_iff_ne]
  refine ⟨⟨⟨?_, ?_⟩, ?_⟩, ?_⟩ <;> rintro rfl <;> exact absurd number (by decide)

theorem followInteger {i : Int} (fits : FitsNumber i) (ends : EndsValue rest) :
    follow p ((toString i).toList ++ rest) =
      follow (step p (.leaf (.number (.ok (.integer i)) none))) rest := by
  have scan := scanNumberWritten i ends
  obtain ⟨c, cs, text, number⟩ := numberStart i
  rw [text, List.cons_append] at scan ⊢
  refine followToken (numberUnblank number) ?_ rfl
  rw [scanTokenNumber number, scan, NumberScan.complete, valueOfInt fits]

theorem followNull : follow p ("null".toList ++ rest) = follow (step p (.leaf .null)) rest :=
  followToken rfl rfl rfl

theorem followBoolean (b : Bool) :
    follow p ((booleanText b).toList ++ rest) = follow (step p (.leaf (.boolean b))) rest := by
  cases b
  · exact followToken rfl rfl rfl
  · exact followToken rfl rfl rfl

inductive Lexeme
  | mark (text : String)
  | quoted (s : String)

inductive Lexeme.SpelledAs : Lexeme → List Char → Prop
  | mark (text : String) : SpelledAs (.mark text) text.toList
  | quoted {s : String} {body : List Char} (escapes : Escapes s.toList body) :
      SpelledAs (.quoted s) ('"' :: (body ++ ['"']))

mutual

def Value.lexemes : Value → List Lexeme
  | .null => [.mark "null"]
  | .boolean b => [.mark (booleanText b)]
  | .integer i => [.mark (toString i)]
  | .string s => [.quoted s]
  | .list [] => [.mark "[", .mark "]"]
  | .list (item :: items) => .mark "[" :: (item.lexemes ++ (itemLexemes items ++ [.mark "]"]))
  | .object [] => [.mark "\x7b", .mark "\x7d"]
  | .object ((key, value) :: members) =>
    .mark "\x7b" :: .quoted key :: .mark ":" :: (value.lexemes ++ (memberLexemes members ++ [.mark "\x7d"]))

def itemLexemes : List Value → List Lexeme
  | [] => []
  | item :: items => .mark "," :: (item.lexemes ++ itemLexemes items)

def memberLexemes : List (String × Value) → List Lexeme
  | [] => []
  | (key, value) :: members =>
    .mark "," :: .quoted key :: .mark ":" :: (value.lexemes ++ memberLexemes members)

end

def Blank (cs : List Char) : Prop := ∀ c ∈ cs, isBlank c = true

inductive Spaced : List Lexeme → List Char → Prop
  | nil {blanks : List Char} (blank : Blank blanks) : Spaced [] blanks
  | cons {blanks spelling cs : List Char} {lexeme : Lexeme} {lexemes : List Lexeme} (blank : Blank blanks)
      (spelled : lexeme.SpelledAs spelling) (later : Spaced lexemes cs) :
      Spaced (lexeme :: lexemes) (blanks ++ (spelling ++ cs))

theorem followBlanks {blanks : List Char} (blank : Blank blanks) :
    follow p (blanks ++ rest) = follow p rest := by
  induction blanks with
  | nil => rfl
  | cons c blanks ih =>
    rw [List.cons_append, followBlank (blank c List.mem_cons_self)]
    exact ih fun other member => blank other (List.mem_cons_of_mem c member)

theorem blankTokens {blanks : List Char} (blank : Blank blanks) : tokens blanks = [] := by
  induction blanks with
  | nil => rw [tokens]
  | cons c blanks ih =>
    rw [tokens, blank c List.mem_cons_self]
    exact ih fun other member => blank other (List.mem_cons_of_mem c member)

def Follows (p : Progress) (lexemes later : List Lexeme) (q : Progress) : Prop :=
  ∀ text, Spaced (lexemes ++ later) text → ∃ rest, Spaced later rest ∧ follow p text = follow q rest

section Follows

variable {q r : Progress} {lexeme : Lexeme} {lexemes others later : List Lexeme}

theorem followsNone : Follows p [] later p := fun text spaced => ⟨text, spaced, rfl⟩

theorem followsMark {text : String}
    (scan : ∀ rest, Spaced later rest → follow p (text.toList ++ rest) = follow q rest) :
    Follows p [.mark text] later q := by
  rintro _ (_ | ⟨blank, ⟨⟩, spaced⟩)
  exact ⟨_, spaced, (followBlanks blank).trans (scan _ spaced)⟩

theorem followsQuoted (s : String) : Follows p [.quoted s] later (step p (.leaf (.string (.ofString s)))) := by
  rintro _ (_ | ⟨blank, ⟨_⟩ | ⟨escapes⟩, spaced⟩)
  refine ⟨_, spaced, (followBlanks blank).trans ?_⟩
  rw [List.cons_append, List.append_assoc]
  exact followQuoted escapes

theorem followsThen (first : Follows p lexemes (others ++ later) q) (second : Follows q others later r) :
    Follows p (lexemes ++ others) later r := by
  intro text spaced
  rw [List.append_assoc] at spaced
  obtain ⟨middle, between, reached⟩ := first text spaced
  obtain ⟨rest, left, ended⟩ := second middle between
  exact ⟨rest, left, reached.trans ended⟩

theorem followsCons (first : Follows p [lexeme] (others ++ later) q) (second : Follows q others later r) :
    Follows p (lexeme :: others) later r :=
  followsThen first second

end Follows

def EndsLexemes (later : List Lexeme) : Prop := ∀ lexeme others, later = lexeme :: others →
  lexeme = .mark "," ∨ lexeme = .mark "]" ∨ lexeme = .mark "\x7d"

variable {later : List Lexeme}

theorem endsComma (later : List Lexeme) : EndsLexemes (.mark "," :: later) := by
  rintro _ _ ⟨⟩
  exact .inl rfl

theorem endsList (later : List Lexeme) : EndsLexemes (.mark "]" :: later) := by
  rintro _ _ ⟨⟩
  exact .inr (.inl rfl)

theorem endsObject (later : List Lexeme) : EndsLexemes (.mark "\x7d" :: later) := by
  rintro _ _ ⟨⟩
  exact .inr (.inr rfl)

theorem endsItems (items : List Value) (ends : EndsLexemes later) : EndsLexemes (itemLexemes items ++ later) := by
  cases items with
  | nil => exact ends
  | cons item items => exact endsComma _

theorem endsMembers (members : List (String × Value)) (ends : EndsLexemes later) :
    EndsLexemes (memberLexemes members ++ later) := by
  cases members with
  | nil => exact ends
  | cons member members => exact endsComma _

theorem blankEnds {c : Char} (blank : isBlank c = true) : c = ' ' ∨ c = '\t' ∨ c = '\n' ∨ c = '\r' := by
  simpa [isBlank, or_assoc] using blank

theorem endsSpaced (ends : EndsLexemes later) (spaced : Spaced later rest) : EndsValue rest := by
  intro c cs text
  cases spaced with
  | nil blank =>
    have first := blankEnds (blank c (text ▸ List.mem_cons_self))
    tauto
  | @cons blanks _ _ lexeme lexemes blank spelled _ =>
    cases blanks with
    | nil =>
      rcases ends lexeme lexemes rfl with rfl | rfl | rfl <;> cases spelled <;> cases text <;> tauto
    | cons b blanks =>
      cases text
      have first := blankEnds (blank c List.mem_cons_self)
      tauto

variable {slot : Slot} {outer : List Slot}

theorem followsOpenList :
    Follows (.within (.value slot) outer) [.mark "["] later (.within (.value (.item [])) (slot :: outer)) :=
  followsMark fun _ _ => followToken rfl rfl rfl

theorem followsOpenObject :
    Follows (.within (.value slot) outer) [.mark "\x7b"] later (.within (.key []) (slot :: outer)) :=
  followsMark fun _ _ => followToken rfl rfl rfl

theorem followsCloseEmptyList : Follows (.within (.value (.item [])) (slot :: outer)) [.mark "]"] later
    (slot.fill (.list [] .closed) outer) :=
  followsMark fun _ _ => followToken rfl rfl rfl

theorem followsCloseEmptyObject : Follows (.within (.key []) (slot :: outer)) [.mark "\x7d"] later
    (slot.fill (.object [] .closed) outer) :=
  followsMark fun _ _ => followToken rfl rfl rfl

theorem followsCloseList {items all : List Outline} (order : items.reverse = all) :
    Follows (.within (.afterItem items) (slot :: outer)) [.mark "]"] later (slot.fill (.list all .closed) outer) :=
  order ▸ followsMark fun _ _ => followToken rfl rfl rfl

theorem followsCloseObject {members all : List (Quoted × Outline)} (order : members.reverse = all) :
    Follows (.within (.afterMember members) (slot :: outer)) [.mark "\x7d"] later
      (slot.fill (.object all .closed) outer) :=
  order ▸ followsMark fun _ _ => followToken rfl rfl rfl

theorem followsNextItem {items : List Outline} : Follows (.within (.afterItem items) outer) [.mark ","] later
    (.within (.value (.item items)) outer) :=
  followsMark fun _ _ => followToken rfl rfl rfl

theorem followsNextMember {members : List (Quoted × Outline)} :
    Follows (.within (.afterMember members) outer) [.mark ","] later (.within (.key members) outer) :=
  followsMark fun _ _ => followToken rfl rfl rfl

theorem followsKey {members : List (Quoted × Outline)} (key : String) :
    Follows (.within (.key members) outer) [.quoted key, .mark ":"] later
      (.within (.value (.member members (.ofString key))) outer) :=
  followsCons (followsQuoted key) (followsMark fun _ _ => followToken rfl rfl rfl)

/- What lies behind a value matters only to numbers, which go on for as long as they can. -/
mutual

theorem followsValue (slot : Slot) (outer : List Slot) {later : List Lexeme} (ends : EndsLexemes later) :
    (v : Value) → v.Fits → Follows (.within (.value slot) outer) v.lexemes later (slot.fill v.outline outer)
  | .null, _ => followsMark fun _ _ => followNull
  | .boolean b, _ => followsMark fun _ _ => followBoolean b
  | .integer _, fits => followsMark fun _ spaced => followInteger fits (endsSpaced ends spaced)
  | .string s, _ => followsQuoted s
  | .list [], _ => followsCons followsOpenList followsCloseEmptyList
  | .list (item :: items), fits => by
    have first := followsValue (.item []) (slot :: outer) (endsItems items (endsList later)) item fits.1
    have others := followsItems [item.outline] (slot :: outer) (endsList later) items fits.2
    have order : ((outlineItems items).reverse ++ [item.outline]).reverse = outlineItems (item :: items) := by
      simp [outlineItems]
    rw [List.append_cons] at first
    exact followsCons followsOpenList (followsThen first (followsThen others (followsCloseList order)))
  | .object [], _ => followsCons followsOpenObject followsCloseEmptyObject
  | .object ((key, value) :: members), fits => by
    have behind := endsMembers members (endsObject later)
    have first := followsValue (.member [] (.ofString key)) (slot :: outer) behind value fits.1
    have others :=
      followsMembers [(.ofString key, value.outline)] (slot :: outer) (endsObject later) members fits.2
    have order : ((outlineMembers members).reverse ++ [(Quoted.ofString key, value.outline)]).reverse =
        outlineMembers ((key, value) :: members) := by
      simp [outlineMembers]
    rw [List.append_cons] at first
    exact followsCons followsOpenObject (followsThen (followsKey key)
      (followsThen first (followsThen others (followsCloseObject order))))

theorem followsItems (before : List Outline) (outer : List Slot) {later : List Lexeme}
    (ends : EndsLexemes later) : (items : List Value) → FitsItems items →
    Follows (.within (.afterItem before) outer) (itemLexemes items) later
      (.within (.afterItem ((outlineItems items).reverse ++ before)) outer)
  | [], _ => followsNone
  | item :: items, fits => by
    have first := followsValue (.item before) outer (endsItems items ends) item fits.1
    have others := followsItems (item.outline :: before) outer ends items fits.2
    have order : (outlineItems items).reverse ++ item.outline :: before =
        (outlineItems (item :: items)).reverse ++ before := by
      simp [outlineItems]
    exact order ▸ followsCons followsNextItem (followsThen first others)

theorem followsMembers (before : List (Quoted × Outline)) (outer : List Slot) {later : List Lexeme}
    (ends : EndsLexemes later) : (members : List (String × Value)) → FitsMembers members →
    Follows (.within (.afterMember before) outer) (memberLexemes members) later
      (.within (.afterMember ((outlineMembers members).reverse ++ before)) outer)
  | [], _ => followsNone
  | (key, value) :: members, fits => by
    have behind := endsMembers members ends
    have first := followsValue (.member before (.ofString key)) outer behind value fits.1
    have others := followsMembers ((.ofString key, value.outline) :: before) outer ends members fits.2
    have order : (outlineMembers members).reverse ++ (.ofString key, value.outline) :: before =
        (outlineMembers ((key, value) :: members)).reverse ++ before := by
      simp [outlineMembers]
    exact order ▸ followsCons followsNextMember (followsThen (followsKey key) (followsThen first others))

end

theorem spacedDocument {v : Value} {text : String} (fits : v.Fits) (spaced : Spaced v.lexemes text.toList) :
    Document.ofText text = ⟨v.outline, false⟩ := by
  have ends : EndsLexemes [] := by
    rintro _ _ ⟨⟩
  rw [← List.append_nil v.lexemes] at spaced
  obtain ⟨rest, blank, followed⟩ := followsValue .root [] ends v fits text.toList spaced
  have nothing : tokens rest = [] := by
    cases blank with
    | nil blank => exact blankTokens blank
  change (follow (.within (.value .root) []) text.toList).document = _
  rw [followed, follow, nothing]
  rfl

end CompilationUnit.Json
