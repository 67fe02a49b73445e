import CompilationUnit.Emission.Context

/-! What an emission writes, piece by piece and into any destination. An emission writes some texts if
it does to the destination what writing these texts one after another does, up to the first one that
fails; if none fails, it ends at the level of indentation at which it began. -/
namespace CompilationUnit

variable {σ : Type} [Destination σ]

def pour (sink : σ) : List String → Except EmitError Unit × σ
  | [] => (.ok (), sink)
  | text :: texts =>
    match Destination.write sink text with
    | (.ok (), taken) => pour taken texts
    | (.error error, taken) => (.error error, taken)

theorem pourAppend (sink : σ) (texts others : List String) :
    pour sink (texts ++ others) = match pour sink texts with
      | (.ok (), taken) => pour taken others
      | (.error error, taken) => (.error error, taken) := by
  induction texts generalizing sink with
  | nil => rfl
  | cons text texts ih =>
    rw [List.cons_append, pour, pour]
    rcases Destination.write sink text with ⟨_ | ⟨⟩, taken⟩
    · rfl
    · exact ih taken

theorem pourString (taken : String) (texts : List String) :
    pour taken texts = (.ok (), taken ++ String.join texts) := by
  induction texts generalizing taken with
  | nil => simp [pour]
  | cons text texts ih =>
    change pour (taken ++ text) texts = _
    rw [ih, String.join_cons, String.append_assoc]

namespace Emit

def Writes (a : Emit σ Unit) (c : Context) (texts : List String) : Prop :=
  ∀ sink, match pour sink texts with
    | (.ok (), taken) => a.run ⟨sink, c⟩ = (.ok (), ⟨taken, c⟩)
    | (.error error, taken) => ∃ left, a.run ⟨sink, c⟩ = (.error error, ⟨taken, left⟩)

theorem runThen {σ : Type} (a b : Emit σ Unit) (e : Emitting σ) :
    (a >>= fun _ => b).run e = match a.run e with
      | (.ok (), later) => b.run later
      | (.error error, later) => (.error error, later) := by
  change (match a.run e with
    | (result, later) => ExceptT.bindCont (fun _ => b) result later) = _
  rcases a.run e with ⟨_ | ⟨⟩, later⟩ <;> rfl

variable {a b : Emit σ Unit} {c : Context} {texts others : List String}

theorem writesNothing (c : Context) : Writes (pure () : Emit σ Unit) c [] := fun _ => rfl

theorem writesThen (first : Writes a c texts) (second : Writes b c others) :
    Writes (a >>= fun _ => b) c (texts ++ others) := by
  intro sink
  have ran := first sink
  rw [pourAppend, runThen]
  generalize pour sink texts = poured at ran ⊢
  obtain ⟨_ | ⟨⟩, taken⟩ := poured
  · obtain ⟨left, ran⟩ := ran
    exact ⟨left, by rw [ran]⟩
  · dsimp only at ran
    rw [ran]
    exact second taken

theorem writesText (text : String) (c : Context) : Writes (write text : Emit σ Unit) c [text] := by
  intro sink
  have ran : (write text : Emit σ Unit).run ⟨sink, c⟩ =
      (liftExcept (Destination.write sink text).1 : Emit σ Unit).run
        ⟨(Destination.write sink text).2, c⟩ := rfl
  rw [pour, ran]
  rcases Destination.write sink text with ⟨_ | ⟨⟩, taken⟩
  · exact ⟨c, rfl⟩
  · rfl

theorem writesLine (text : String) (c : Context) :
    Writes (line text : Emit σ Unit) c [c.indentation, text, "\n"] :=
  writesThen (writesText c.indentation c) (writesThen (writesText text c) (writesText "\n" c))

theorem writesIndented (body : Writes a c.indent texts) : Writes (indented a) c texts := by
  intro sink
  have ran := body sink
  have run : (indented a).run ⟨sink, c⟩ = match a.run ⟨sink, c.indent⟩ with
      | (.ok (), later) => (.ok (), ⟨later.sink, later.context.dedent⟩)
      | (.error error, later) => (.error error, later) := runThen a dedent ⟨sink, c.indent⟩
  rw [run]
  generalize pour sink texts = poured at ran ⊢
  obtain ⟨_ | ⟨⟩, taken⟩ := poured
  · obtain ⟨left, ran⟩ := ran
    exact ⟨left, by rw [ran]⟩
  · dsimp only at ran
    rw [ran]
    rfl

theorem writesPoured (writes : Writes a c texts) (sink : σ) :
    ((a.run ⟨sink, c⟩).1, (a.run ⟨sink, c⟩).2.sink) = pour sink texts := by
  have ran := writes sink
  generalize pour sink texts = poured at ran ⊢
  obtain ⟨_ | ⟨⟩, taken⟩ := poured
  · obtain ⟨left, ran⟩ := ran
    rw [ran]
  · dsimp only at ran
    rw [ran]

theorem writesString {a : Emit String Unit} (writes : Writes a c texts) (taken : String) :
    a.run ⟨taken, c⟩ = (.ok (), ⟨taken ++ String.join texts, c⟩) := by
  have ran := writes taken
  rwa [pourString] at ran

end Emit
end CompilationUnit
