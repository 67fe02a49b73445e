import CompilationUnit.Proofs.Code.Characters
import CompilationUnit.Proofs.Code.Receivers

/-! The printed head of a function determines its signature, read from the left: no type is printed as the
beginning of another one, a name ends at a bracket or a comma, and an attribute at a space. Only the type
of no values is printed as the tensor without items is. -/
namespace CompilationUnit

structure Head where
  returnType : ValueType
  name : String
  params : List Parameter
  attributes : List Attribute
  deriving DecidableEq, Repr

mutual

def ValueType.normal : ValueType → ValueType
  | .tensor [] => .unit
  | .tensor (type :: types) => .tensor (type.normal :: normalTypes types)
  | type => type

def normalTypes : List ValueType → List ValueType
  | [] => []
  | type :: types => type.normal :: normalTypes types

end

def Parameter.normal (p : Parameter) : Parameter := { p with type := p.type.normal }

def nameChar (c : Char) : Bool := !([' ', ',', '"', '(', ')'].contains c)

namespace Head

def text (h : Head) : String := headText h.returnType h.name h.params h.attributes

def normal (h : Head) : Head :=
  { h with returnType := h.returnType.normal, params := h.params.map Parameter.normal }

def isNamed (h : Head) : Bool :=
  allChars nameChar h.name && h.params.all fun p => allChars nameChar p.name

end Head

def Definition.head (d : Definition) : Head := ⟨d.returnType, d.name, d.params, d.attributes⟩

def AsmDefinition.head (d : AsmDefinition) : Head := ⟨d.returnType, d.name, d.params, d.attributes⟩

theorem tensorNormal {types types' : List ValueType} (same : normalTypes types = normalTypes types') :
    (ValueType.tensor types).normal = (ValueType.tensor types').normal := by
  cases types <;> cases types' <;> simp_all [ValueType.normal, normalTypes]

theorem typeBegins (type : ValueType) : ∃ c cs, type.text.toList = c :: cs ∧ c ≠ ')' ∧ c ≠ '\n' := by
  cases type <;> simp [ValueType.text]

mutual

theorem ValueType.split : (type type' : ValueType) → (rest rest' : List Char) →
    type.text.toList ++ rest = type'.text.toList ++ rest' → type.normal = type'.normal ∧ rest = rest'
  | .tensor types, type', rest, rest', same => by
    cases type' with
    | tensor types' =>
      obtain ⟨normal, rests⟩ := typesSplit types types' rest rest' (by simpa [ValueType.text] using same)
      exact ⟨tensorNormal normal, rests⟩
    | unit =>
      obtain ⟨normal, rests⟩ := typesSplit types [] rest rest' (by
        simpa [ValueType.text, typesText] using same)
      exact ⟨tensorNormal normal, rests⟩
    | _ => simp [ValueType.text] at same
  | .unit, type', rest, rest', same => by
    cases type' with
    | tensor types' =>
      obtain ⟨normal, rests⟩ := typesSplit [] types' rest rest' (by
        simpa [ValueType.text, typesText] using same)
      exact ⟨tensorNormal normal, rests⟩
    | unit => exact ⟨rfl, List.append_cancel_left same⟩
    | _ => simp [ValueType.text] at same
  | .int, type', rest, rest', same | .cell, type', rest, rest', same | .slice, type', rest, rest', same
  | .builder, type', rest, rest', same | .cont, type', rest, rest', same
  | .tuple, type', rest, rest', same | .hole, type', rest, rest', same => by
    cases type' <;> simp_all [ValueType.text, ValueType.normal]

theorem typesSplit : (types types' : List ValueType) → (rest rest' : List Char) →
    (typesText "" types).toList ++ ')' :: rest = (typesText "" types').toList ++ ')' :: rest' →
    normalTypes types = normalTypes types' ∧ rest = rest'
  | [], [], rest, rest', same => ⟨rfl, (List.cons.inj same).2⟩
  | [], type' :: types', rest, rest', same => by
    obtain ⟨c, cs, begins, opens, _⟩ := typeBegins type'
    simp [typesText, begins, Ne.symm opens] at same
  | type :: types, [], rest, rest', same => by
    obtain ⟨c, cs, begins, opens, _⟩ := typeBegins type
    simp [typesText, begins, opens] at same
  | type :: types, type' :: types', rest, rest', same => by
    obtain ⟨normal, later⟩ := type.split type' _ _ (by simpa [typesText] using same)
    obtain ⟨normals, rests⟩ := laterTypesSplit types types' rest rest' later
    exact ⟨by rw [normalTypes, normalTypes, normal, normals], rests⟩

theorem laterTypesSplit : (types types' : List ValueType) → (rest rest' : List Char) →
    (typesText ", " types).toList ++ ')' :: rest = (typesText ", " types').toList ++ ')' :: rest' →
    normalTypes types = normalTypes types' ∧ rest = rest'
  | [], [], rest, rest', same => ⟨rfl, (List.cons.inj same).2⟩
  | [], type' :: types', rest, rest', same => by simp [typesText] at same
  | type :: types, [], rest, rest', same => by simp [typesText] at same
  | type :: types, type' :: types', rest, rest', same => by
    obtain ⟨normal, later⟩ := type.split type' _ _ (by simpa [typesText] using same)
    obtain ⟨normals, rests⟩ := laterTypesSplit types types' rest rest' later
    exact ⟨by rw [normalTypes, normalTypes, normal, normals], rests⟩

end

mutual

theorem ValueType.normalText : (type : ValueType) → type.normal.text = type.text
  | .tensor [] => rfl
  | .tensor (type :: types) => by
    simp [ValueType.normal, ValueType.text, typesText, type.normalText, normalTypesText ", " types]
  | .int | .cell | .slice | .builder | .cont | .tuple | .unit | .hole => rfl

theorem normalTypesText (separator : String) : (types : List ValueType) →
    typesText separator (normalTypes types) = typesText separator types
  | [] => rfl
  | type :: types => by
    simp [normalTypes, typesText, type.normalText, normalTypesText ", " types]

end

section Splitting

variable {α : Type} {p : α → Prop} {xs xs' ys ys' : List α}

theorem splitKind (before : ∀ y ∈ xs, p y) (before' : ∀ y ∈ xs', p y) (stops : ∀ y ∈ ys.head?, ¬ p y)
    (stops' : ∀ y ∈ ys'.head?, ¬ p y) (same : xs ++ ys = xs' ++ ys') : xs = xs' ∧ ys = ys' := by
  induction xs generalizing xs' with
  | nil =>
    cases xs' with
    | nil => exact ⟨rfl, same⟩
    | cons x' xs' =>
      rw [List.nil_append] at same
      exact absurd (before' x' List.mem_cons_self) (stops x' (by simp [same]))
  | cons x xs ih =>
    cases xs' with
    | nil =>
      rw [List.nil_append] at same
      exact absurd (before x List.mem_cons_self) (stops' x (by simp [← same]))
    | cons x' xs' =>
      obtain ⟨rfl, later⟩ := List.cons.inj same
      obtain ⟨rfl, rests⟩ := ih (fun y member => before y (List.mem_cons_of_mem _ member))
        (fun y member => before' y (List.mem_cons_of_mem _ member)) later
      exact ⟨rfl, rests⟩

end Splitting

def laterParams (params : List Parameter) : List Char :=
  (String.join ((params.map Parameter.text).map (", " ++ ·))).toList

variable {p p' : Parameter} {params params' : List Parameter} {rest rest' : List Char}

theorem paramsCons (p : Parameter) (params : List Parameter) :
    (paramsText (p :: params)).toList = p.text.toList ++ laterParams params := by
  simp [paramsText, commaSeparated, laterParams]

theorem laterParamsCons (p : Parameter) (params : List Parameter) :
    laterParams (p :: params) = ',' :: ' ' :: (p.text.toList ++ laterParams params) := by
  simp [laterParams]

theorem laterParamsStop (params : List Parameter) (rest : List Char) :
    ∀ c ∈ (laterParams params ++ ')' :: rest).head?, ¬ nameChar c = true := by
  cases params with
  | nil => simp [laterParams, nameChar]
  | cons p params => simp [laterParamsCons, nameChar]

theorem paramSplit (named : allChars nameChar p.name = true) (named' : allChars nameChar p'.name = true)
    (stops : ∀ c ∈ rest.head?, ¬ nameChar c = true) (stops' : ∀ c ∈ rest'.head?, ¬ nameChar c = true)
    (same : p.text.toList ++ rest = p'.text.toList ++ rest') : p.normal = p'.normal ∧ rest = rest' := by
  obtain ⟨types, names⟩ := p.type.split p'.type (' ' :: (p.name.toList ++ rest))
    (' ' :: (p'.name.toList ++ rest')) (by simpa [Parameter.text] using same)
  obtain ⟨name, rests⟩ := splitKind (allCharsIff.mp named) (allCharsIff.mp named') stops stops'
    (List.cons.inj names).2
  refine ⟨?_, rests⟩
  rw [Parameter.normal, Parameter.normal, types, String.toList_inj.mp name]

theorem laterParamsSplit (named : ∀ p ∈ params, allChars nameChar p.name = true)
    (named' : ∀ p ∈ params', allChars nameChar p.name = true)
    (same : laterParams params ++ ')' :: rest = laterParams params' ++ ')' :: rest') :
    params.map Parameter.normal = params'.map Parameter.normal ∧ rest = rest' := by
  induction params generalizing params' with
  | nil =>
    cases params' with
    | nil => exact ⟨rfl, (List.cons.inj same).2⟩
    | cons p' params' => simp [laterParams] at same
  | cons p params ih =>
    cases params' with
    | nil => simp [laterParams] at same
    | cons p' params' =>
      rw [List.forall_mem_cons] at named named'
      obtain ⟨first, later⟩ := paramSplit named.1 named'.1 (laterParamsStop params rest)
        (laterParamsStop params' rest') (by simpa [laterParamsCons] using same)
      obtain ⟨others, rests⟩ := ih named.2 named'.2 later
      exact ⟨by rw [List.map_cons, List.map_cons, first, others], rests⟩

theorem paramBegins (p : Parameter) : ∃ c cs, p.text.toList = c :: cs ∧ c ≠ ')' := by
  obtain ⟨c, cs, begins, opens, _⟩ := typeBegins p.type
  exact ⟨c, cs ++ ' ' :: p.name.toList, by simp [Parameter.text, begins], opens⟩

theorem paramsSplit (named : ∀ p ∈ params, allChars nameChar p.name = true)
    (named' : ∀ p ∈ params', allChars nameChar p.name = true)
    (same : (paramsText params).toList ++ ')' :: rest = (paramsText params').toList ++ ')' :: rest') :
    params.map Parameter.normal = params'.map Parameter.normal ∧ rest = rest' := by
  have closes (p : Parameter) (params : List Parameter) {rest rest' : List Char} :
      ')' :: rest ≠ (paramsText (p :: params)).toList ++ rest' := by
    obtain ⟨c, cs, begins, opens⟩ := paramBegins p
    simp [paramsCons, begins, Ne.symm opens]
  cases params with
  | nil =>
    cases params' with
    | nil => exact ⟨rfl, (List.cons.inj same).2⟩
    | cons p' params' => exact absurd same (closes p' params')
  | cons p params =>
    cases params' with
    | nil => exact absurd same.symm (closes p params)
    | cons p' params' =>
      rw [List.forall_mem_cons] at named named'
      rw [paramsCons, paramsCons, List.append_assoc, List.append_assoc] at same
      obtain ⟨first, later⟩ := paramSplit named.1 named'.1 (laterParamsStop params rest)
        (laterParamsStop params' rest') same
      obtain ⟨others, rests⟩ := laterParamsSplit named.2 named'.2 later
      exact ⟨by rw [List.map_cons, List.map_cons, first, others], rests⟩

def attributesText (attributes : List Attribute) : String :=
  String.join (attributes.map fun a => " " ++ a.text)

theorem attributesCons (a : Attribute) (attributes : List Attribute) :
    (attributesText (a :: attributes)).toList =
      ' ' :: (a.text.toList ++ (attributesText attributes).toList) := by
  simp [attributesText]

theorem attributesStop (attributes : List Attribute) :
    ∀ c ∈ (attributesText attributes).toList.head?, ¬ attributeChar c = true := by
  cases attributes with
  | nil => simp [attributesText]
  | cons a attributes =>
    rw [attributesCons]
    simp [attributeChar, wordChar]

theorem numberedSame {id : UInt32} {a : Attribute} (same : (Attribute.methodId (some id)).text = a.text) :
    a = .methodId (some id) := by
  have chars := congrArg String.toList same
  cases a with
  | methodId other =>
    cases other with
    | none => simp [Attribute.text] at chars
    | some other =>
      have digits : Nat.toDigits 10 id.toNat = Nat.toDigits 10 other.toNat := by
        simpa [Attribute.text, Nat.toList_repr] using chars
      rw [UInt32.toNat_inj.mp (Expr.digitsInjective digits)]
  | _ => simp [Attribute.text] at chars

theorem attributeTextInjective {a a' : Attribute} (same : a.text = a'.text) : a = a' := by
  have unnumbered {a : Attribute} (other : ¬ ∃ id, a = .methodId (some id)) :
      a ∈ [.impure, .inlined, .inlinedByRef, .methodId none] := by
    cases a with
    | methodId id => cases id <;> simp_all
    | _ => simp
  have plain : ∀ a ∈ [Attribute.impure, .inlined, .inlinedByRef, .methodId none],
      ∀ a' ∈ [Attribute.impure, .inlined, .inlinedByRef, .methodId none], a.text = a'.text → a = a' := by
    decide
  by_cases numbered : ∃ id, a = .methodId (some id)
  · obtain ⟨id, rfl⟩ := numbered
    exact (numberedSame same).symm
  · by_cases numbered' : ∃ id, a' = .methodId (some id)
    · obtain ⟨id, rfl⟩ := numbered'
      exact numberedSame same.symm
    · exact plain a (unnumbered numbered) a' (unnumbered numbered') same

theorem attributesInjective {attributes attributes' : List Attribute}
    (same : (attributesText attributes).toList = (attributesText attributes').toList) :
    attributes = attributes' := by
  induction attributes generalizing attributes' with
  | nil =>
    cases attributes' with
    | nil => rfl
    | cons a' attributes' => simp [attributesText] at same
  | cons a attributes ih =>
    cases attributes' with
    | nil => simp [attributesText] at same
    | cons a' attributes' =>
      rw [attributesCons, attributesCons] at same
      obtain ⟨first, later⟩ := splitKind (allCharsIff.mp a.textChars) (allCharsIff.mp a'.textChars)
        (attributesStop attributes) (attributesStop attributes') (List.cons.inj same).2
      rw [attributeTextInjective (String.toList_inj.mp first), ih later]

namespace Head

variable {h h' : Head}

theorem chars (h : Head) : h.text.toList = h.returnType.text.toList ++ ' ' :: (h.name.toList ++
    '(' :: ((paramsText h.params).toList ++ ')' :: (attributesText h.attributes).toList)) := by
  simp [text, headText, attributesText]

theorem namedIff : h.isNamed = true ↔
    allChars nameChar h.name = true ∧ ∀ p ∈ h.params, allChars nameChar p.name = true := by
  simp [isNamed]

theorem normalSame (named : h.isNamed = true) (named' : h'.isNamed = true) (same : h.text = h'.text) :
    h.normal = h'.normal := by
  obtain ⟨name, params⟩ := namedIff.mp named
  obtain ⟨name', params'⟩ := namedIff.mp named'
  have texts := congrArg String.toList same
  rw [chars, chars] at texts
  obtain ⟨types, behindTypes⟩ := h.returnType.split h'.returnType _ _ texts
  obtain ⟨names, behindNames⟩ := splitKind (allCharsIff.mp name) (allCharsIff.mp name')
    (by simp [nameChar]) (by simp [nameChar]) (List.cons.inj behindTypes).2
  obtain ⟨parameters, attributes⟩ := paramsSplit params params' (List.cons.inj behindNames).2
  rw [normal, normal, types, String.toList_inj.mp names, parameters, attributesInjective attributes]

theorem normalText (h : Head) : h.normal.text = h.text := by
  have params : h.normal.params.map Parameter.text = h.params.map Parameter.text := by
    simp [normal, Parameter.normal, Parameter.text, ValueType.normalText]
  have returns : h.normal.returnType.text = h.returnType.text := h.returnType.normalText
  have attributes : h.normal.attributes = h.attributes := rfl
  have name : h.normal.name = h.name := rfl
  rw [text, text, headText, headText, paramsText, paramsText, params, returns, attributes, name]

theorem textIff (named : h.isNamed = true) (named' : h'.isNamed = true) :
    h.text = h'.text ↔ h.normal = h'.normal :=
  ⟨normalSame named named', fun same => by rw [← normalText h, same, normalText h']⟩

theorem unquoted (named : h.isNamed = true) : allChars (· != '"') h.text = true := by
  obtain ⟨name, params⟩ := namedIff.mp named
  have plain : ∀ c, nameChar c = true → (c != '"') = true :=
    fun c inside => bne_iff_ne.mpr (kindOther inside (by decide))
  have fixed : ∀ c, headChar c = true → (c != '"') = true :=
    fun c inside => bne_iff_ne.mpr (kindOther inside (by decide))
  exact headTextChars fixed h.returnType h.attributes (allCharsMono plain name)
    fun p member => allCharsMono plain (params p member)

end Head

theorem signatureText (d : Definition) : d.signature = d.head.text := rfl

theorem assemblyChars (a : AsmDefinition) :
    a.text.toList = (a.head.text ++ " asm ").toList ++ '"' :: (a.code.toList ++ ['"', ';']) := by
  simp [AsmDefinition.text, AsmDefinition.head, Head.text]

theorem assemblyIff {a a' : AsmDefinition} (named : a.head.isNamed = true) (named' : a'.head.isNamed = true) :
    a.text = a'.text ↔ a.head.normal = a'.head.normal ∧ a.code = a'.code := by
  rw [← Head.textIff named named']
  constructor
  · intro same
    have texts := congrArg String.toList same
    rw [assemblyChars, assemblyChars] at texts
    have before {a : AsmDefinition} (named : a.head.isNamed = true) :
        ∀ c ∈ (a.head.text ++ " asm ").toList, (c != '"') = true := by
      have fixed : allChars (· != '"') " asm " = true := by decide
      exact allCharsIff.mp (by simp [Head.unquoted named, fixed])
    obtain ⟨heads, _, codes⟩ := splitFirst (p := (· != '"')) (before named) (before named') (by simp)
      (by simp) texts
    rw [String.toList_append, String.toList_append] at heads
    exact ⟨String.toList_inj.mp (List.append_cancel_right heads),
      String.toList_inj.mp (List.append_cancel_right codes)⟩
  · rintro ⟨heads, codes⟩
    have texts : a.head.text ++ " asm \"" ++ a.code ++ "\";" =
        a'.head.text ++ " asm \"" ++ a'.code ++ "\";" := by rw [heads, codes]
    exact texts

/-- Two functions are printed with the same head exactly if they have the same signature, but for tensors
without items; and two assembly functions are printed alike exactly if they have the same code besides. -/
theorem headsPrintedAlike :
    (∀ d d' : Definition, d.head.isNamed = true → d'.head.isNamed = true →
      (d.signature = d'.signature ↔ d.head.normal = d'.head.normal)) ∧
    ∀ a a' : AsmDefinition, a.head.isNamed = true → a'.head.isNamed = true →
      (a.text = a'.text ↔ a.head.normal = a'.head.normal ∧ a.code = a'.code) := by
  constructor
  · intro d d' named named'
    rw [signatureText, signatureText]
    exact Head.textIff named named'
  · intro a a' named named'
    exact assemblyIff named named'

def pairDefinition (returnType empty : ValueType) : Definition :=
  { attributes := [.inlinedByRef, .methodId (some 7), .methodId none]
    name := "pair[]"
    params := [⟨"x", .tensor [empty, .tensor [.int, empty]]⟩, ⟨"_y", .hole⟩]
    returnType := returnType
    body := [] }

def quotedAssembly (code : String) (attributes : List Attribute) : AsmDefinition :=
  { attributes := attributes, name := "f", params := [], returnType := .tensor [], code := code }

theorem emptyTensorsPrintedAlike :
    (pairDefinition .unit (.tensor [])).head.isNamed = true ∧
    (pairDefinition (.tensor []) .unit).head.isNamed = true ∧
    (pairDefinition .unit (.tensor [])).signature = (pairDefinition (.tensor []) .unit).signature ∧
    (pairDefinition .unit (.tensor [])).head.normal = (pairDefinition (.tensor []) .unit).head.normal ∧
    (quotedAssembly "NOP" [.impure]).head.isNamed = true ∧
    (quotedAssembly "NOP\";\n asm \"NOP" [.impure]).head.isNamed = true ∧
    (quotedAssembly "NOP" [.impure]).text ≠ (quotedAssembly "NOP\";\n asm \"NOP" [.impure]).text := by
  have named : (pairDefinition .unit (.tensor [])).head.isNamed = true := by decide
  have named' : (pairDefinition (.tensor []) .unit).head.isNamed = true := by decide
  have same : (pairDefinition .unit (.tensor [])).signature =
      (pairDefinition (.tensor []) .unit).signature := by decide
  have short : (quotedAssembly "NOP" [.impure]).head.isNamed = true := by decide
  have long : (quotedAssembly "NOP\";\n asm \"NOP" [.impure]).head.isNamed = true := by decide
  refine ⟨named, named', same, (headsPrintedAlike.1 _ _ named named').mp same, short, long, ?_⟩
  intro texts
  have codes := ((headsPrintedAlike.2 _ _ short long).mp texts).2
  contradiction

end CompilationUnit
