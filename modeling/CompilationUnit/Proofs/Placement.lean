import CompilationUnit.Placement
import CompilationUnit.Proofs.Json.Refusal
import CompilationUnit.Proofs.Json.Within

/-! Placements as they are stored. Every placement but the type without a name is read from its own text, and
from no other; that one is refused, and no text gives it. -/
namespace CompilationUnit

open Json

theorem dropBeginningAppend (beginning rest : List Char) :
    Placement.dropBeginning beginning (beginning ++ rest) = some rest := by
  induction beginning with
  | nil => rfl
  | cons c cs ih =>
    rw [List.cons_append, Placement.dropBeginning, if_pos rfl]
    exact ih

theorem dropBeginningSome {beginning cs rest : List Char}
    (dropped : Placement.dropBeginning beginning cs = some rest) : cs = beginning ++ rest := by
  induction beginning generalizing cs with
  | nil => exact Option.some.inj dropped
  | cons b beginning ih =>
    cases cs with
    | nil => contradiction
    | cons c cs =>
      rw [Placement.dropBeginning] at dropped
      split at dropped
      · rename_i same
        rw [same, ih dropped, List.cons_append]
      · contradiction

namespace Placement

def IsNamed (p : Placement) : Prop := p ≠ .type ""

theorem typeTextFirst (name : String) : (Placement.type name).text.toList = typeMark ++ name.toList := by
  rw [text, String.toList_append]
  rfl

theorem typeTextOther (name : String) :
    (Placement.type name).text ≠ "stdlib" ∧ (Placement.type name).text ≠ "constants" := by
  constructor <;> intro same <;> have chars := congrArg String.toList same <;>
    rw [typeTextFirst] at chars <;> nomatch chars

theorem textInjective {p q : Placement} (same : p.text = q.text) : p = q := by
  cases p with
  | stdlib =>
    cases q with
    | stdlib => rfl
    | constants => contradiction
    | type name => exact absurd same.symm (typeTextOther name).1
  | constants =>
    cases q with
    | stdlib => contradiction
    | constants => rfl
    | type name => exact absurd same.symm (typeTextOther name).2
  | type name =>
    cases q with
    | stdlib => exact absurd same (typeTextOther name).1
    | constants => exact absurd same (typeTextOther name).2
    | type other =>
      have chars := congrArg String.toList same
      rw [typeTextFirst, typeTextFirst] at chars
      exact congrArg Placement.type (String.toList_inj.mp (List.append_cancel_left chars))

theorem ofOwnText {p : Placement} (named : p.IsNamed) : ofText p.text = .ok p := by
  cases p with
  | stdlib => rfl
  | constants => rfl
  | type name =>
    obtain ⟨library, constant⟩ := typeTextOther name
    rw [ofText, if_neg library, if_neg constant, typeTextFirst, dropBeginningAppend]
    cases chars : name.toList with
    | nil => exact absurd (congrArg Placement.type (String.toList_eq_nil_iff.mp chars)) named
    | cons c cs =>
      change Except.ok (Placement.type (String.ofList (c :: cs))) = _
      rw [← chars, String.ofList_toList]

theorem ofTextSource (text : String) :
    (∃ p : Placement, p.text = text ∧ p.IsNamed ∧ ofText text = .ok p) ∨ ofText text = .error ⟨text⟩ := by
  unfold ofText
  split
  · rename_i same
    exact .inl ⟨.stdlib, same.symm, nofun, rfl⟩
  · split
    · rename_i same
      exact .inl ⟨.constants, same.symm, nofun, rfl⟩
    · split
      · rename_i c cs dropped
        refine .inl ⟨.type (String.ofList (c :: cs)), ?_, ?_, rfl⟩
        · apply String.toList_inj.mp
          rw [typeTextFirst, String.toList_ofList, dropBeginningSome dropped]
        · intro unnamed
          have empty := congrArg String.toList (Placement.type.inj unnamed)
          rw [String.toList_ofList] at empty
          contradiction
      · exact .inr rfl

theorem ofTextIff {text : String} {p : Placement} : ofText text = .ok p ↔ p.text = text ∧ p.IsNamed := by
  constructor
  · intro ok
    rcases ofTextSource text with ⟨q, same, named, read⟩ | failed
    · cases read.symm.trans ok
      exact ⟨same, named⟩
    · rw [failed] at ok
      contradiction
  · rintro ⟨rfl, named⟩
    exact ofOwnText named

theorem typeNamedIff {name : String} : (Placement.type name).IsNamed ↔ name ≠ "" :=
  not_congr ⟨Placement.type.inj, congrArg Placement.type⟩

def Readable (text : String) : Prop :=
  text = "stdlib" ∨ text = "constants" ∨ ∃ name, name ≠ "" ∧ text = "type:" ++ name

theorem readableIff {text : String} : (∃ p, ofText text = .ok p) ↔ Readable text := by
  constructor
  · rintro ⟨p, ok⟩
    obtain ⟨rfl, named⟩ := ofTextIff.mp ok
    cases p with
    | stdlib => exact .inl rfl
    | constants => exact .inr (.inl rfl)
    | type name => exact .inr (.inr ⟨name, typeNamedIff.mp named, rfl⟩)
  · rintro (rfl | rfl | ⟨name, given, rfl⟩)
    · exact ⟨.stdlib, rfl⟩
    · exact ⟨.constants, rfl⟩
    · exact ⟨.type name, ofOwnText (typeNamedIff.mpr given)⟩

theorem ofTextErrorIff {text : String} {invalid : InvalidPlacement} :
    ofText text = .error invalid ↔ invalid = ⟨text⟩ ∧ ¬Readable text := by
  rw [← readableIff]
  rcases ofTextSource text with ⟨p, _, _, read⟩ | failed
  · simp [read]
  · simp [failed, eq_comm]

theorem textExact (s : String) (p : Placement) :
    ((∃ q, ofText s = .ok q) ↔ Readable s) ∧
    (∀ q, ofText s = .ok q ↔ q.text = s ∧ q ≠ .type "") ∧
    (∀ invalid, ofText s = .error invalid ↔ invalid = ⟨s⟩ ∧ ¬Readable s) ∧
    (∀ q : Placement, q.text = p.text ↔ q = p) ∧
    (ofText p.text = .ok p ↔ p ≠ .type "") ∧
    (∀ name, ofText ("type:" ++ name) = .ok (.type name) ↔ name ≠ "") := by
  have own : ∀ p : Placement, ofText p.text = .ok p ↔ p.IsNamed :=
    fun p => ofTextIff.trans (and_iff_right rfl)
  refine ⟨readableIff, fun _ => ofTextIff, fun _ => ofTextErrorIff, ?_, own p, ?_⟩
  · exact fun _ => ⟨textInjective, congrArg text⟩
  · exact fun name => (own (.type name)).trans typeNamedIff

def form (p : Placement) : Form := .plain p.encode

theorem formFull (p : Placement) : p.form.full = p.encode := rfl

theorem formPresent (p : Placement) : p.form ≠ .plain .null := nofun

theorem takes {bound : Nat} {p : Placement} (named : p.IsNamed) : reader.Takes bound p.form p := by
  refine takesPlain trivial fun holding levels _ _ => ?_
  have text : Reader.string holding (levels + 1) p.encode.outline = .ok p.text := rfl
  simp only [reader, text, bind, Except.bind, ofOwnText named]
  rfl

theorem unnamedRefused (levels : Nat) : reader.Refuses levels (Placement.type "").encode :=
  fun _ => ⟨.rejected (InvalidPlacement.message ⟨"type:"⟩), rfl⟩

theorem givesNamed {levels : Nat} {p : Placement} (gives : reader.Gives levels p) : p.IsNamed := by
  obtain ⟨holding, outline, ok⟩ := gives
  obtain ⟨text, _, ok⟩ := bindOk ok
  split at ok
  · rename_i placement read
    cases ok
    exact (ofTextIff.mp read).2
  · contradiction

end Placement

end CompilationUnit
