import CompilationUnit.Proofs.Json.Respelling
import CompilationUnit.Proofs.Manifest

/-! Manifests laid out in another way. Whatever is reordered, left out because the reader supplies it, or added
for nobody to read, and however the text is spaced and its strings escaped, it is read as the same manifest. -/
namespace CompilationUnit.Manifest
open Json Relation

theorem encodeSpells (m : Manifest) : m.form.Spells m.encode :=
  manifestFull m ▸ writtenSpells true m.form (manifestSound m)

theorem layoutInert {m : Manifest} {w : Value} {text : String} (read : ofText m.text = .ok m)
    (rewritten : ReflTransGen m.form.Rewrites m.encode w) (shallow : w.depth ≤ 127)
    (spaced : Spaced w.lexemes text.toList) : ofText text = .ok m := by
  have takes : reader.Takes 128 m.form m := takesManifest (manifestGiven (ofTextGives read))
  have spells : m.form.Spells w := rewrittenSpells takes.sound rewritten (encodeSpells m)
  rw [ofText, readTextSpaced reader (spelledFits m.form takes.sound spells) spaced]
  exact takes.reads spells .streamed 127 (by decide) shallow

theorem kindToldLast :
    ofText (Value.object [("functions", .list [.object [("note", .list [.null]), ("name", .string "g"),
      ("info", Info.encode ⟨none, true, []⟩), ("kind", .string "placeholder")]])]).pretty =
      .ok ⟨.overwrite, [.placeholder "g" ⟨none, true, []⟩]⟩ := by
  have read : ofText (Manifest.text ⟨.overwrite, [.placeholder "g" ⟨none, true, []⟩]⟩) =
      .ok ⟨.overwrite, [.placeholder "g" ⟨none, true, []⟩]⟩ := by
    rw [text, ← manifestFull]
    exact ofOwnSpelling true (by simp [IsPlaceable, Info.IsPlaceable, Registration.info]) (by decide)
  have inside : ∀ {v w}, (Registration.form (.placeholder "g" ⟨none, true, []⟩)).Rewrites v w →
      (Manifest.form ⟨.overwrite, [.placeholder "g" ⟨none, true, []⟩]⟩).Rewrites
        (.object [("functions", .list [v])]) (.object [("functions", .list [w])]) := fun {v w} step =>
    @Form.Rewrites.member _ [] [] "functions" false _ _ _ (List.mem_cons_of_mem _ List.mem_cons_self)
      (@Form.Rewrites.item [] [] [] [] _ v w rfl step)
  have policyLeft : (Manifest.form ⟨.overwrite, [.placeholder "g" ⟨none, true, []⟩]⟩).Rewrites
      (Manifest.encode ⟨.overwrite, [.placeholder "g" ⟨none, true, []⟩]⟩)
      (.object [("functions", .list [Registration.encode (.placeholder "g" ⟨none, true, []⟩)])]) :=
    @Form.Rewrites.leaveOut _ [] _ "policy" (.plain Policy.overwrite.encode) _ List.mem_cons_self
  have unnamed : "note" ∉ ["kind", "name", "info"] := by decide
  have noted : (Registration.form (.placeholder "g" ⟨none, true, []⟩)).Rewrites
      (Registration.encode (.placeholder "g" ⟨none, true, []⟩))
      (.object [("note", .list [.null]), ("kind", .string "placeholder"), ("name", .string "g"),
        ("info", Info.encode ⟨none, true, []⟩)]) :=
    @Form.Rewrites.add _ [] _ "note" _ unnamed ⟨trivial, trivial⟩
  have kindLast := (@List.perm_append_comm _ [("kind", Value.string "placeholder")]
    [("name", .string "g"), ("info", Info.encode ⟨none, true, []⟩)]).cons ("note", .list [.null])
  exact layoutInert read (.tail (.tail (.single policyLeft) (inside noted)) (inside (.reorder kindLast)))
    (by decide) (prettySpaced _)

end CompilationUnit.Manifest
