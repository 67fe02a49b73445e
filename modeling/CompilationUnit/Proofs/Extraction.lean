import CompilationUnit.Proofs.Cycles
import CompilationUnit.Proofs.Operations
import CompilationUnit.Proofs.Reachability

/-! What an extraction emits: the functions that a path from an entry point leads to, and with each of
them all it calls directly. A direct call is dangling, or leads to a function emitted before its
caller, or is a reported back edge. -/
namespace CompilationUnit
namespace Registry

variable {r : Registry}

theorem extractedIff {e : Entry} :
    e ∈ r.extraction.functions ↔ e ∈ r.entries ∧ r.Reached e.name := by
  rw [← reachableIff, ← startsIff]
  exact (sequencePerm r _).mem_iff

theorem extractedNamesIff {name : String} : name ∈ r.extraction.names ↔ r.Reached name := by
  have ordered : name ∈ r.extraction.names ↔ name ∈ r.names ∧ name ∈ r.reachable.live.names :=
    sequenceMember
  rw [ordered, reachableIff]
  refine ⟨?_, ?_⟩
  · exact And.right
  · intro reached
    exact ⟨reachedRegistered reached, reached⟩

theorem extractedDistinct (r : Registry) : r.extraction.names.Nodup := sequenceDistinct r _

theorem prunedSource (r : Registry) : r.extraction.report.pruned =
    r.names.filter fun name => decide (name ∉ r.extraction.names) := by
  refine List.filter_congr fun name _ => ?_
  have same : name ∈ r.reachable.live ↔ name ∈ r.extraction.names :=
    reachableIff.trans extractedNamesIff.symm
  simp only [same]

theorem extractionPerm (r : Registry) :
    (r.extraction.names ++ r.extraction.report.pruned).Perm r.names := by
  have emitted : r.extraction.names.Perm
      (r.names.filter fun name => decide (name ∈ r.extraction.names)) := by
    refine (List.perm_ext_iff_of_nodup (extractedDistinct r) (r.distinct.filter _)).mpr fun name => ?_
    rw [List.mem_filter, decide_eq_true_eq, extractedNamesIff]
    refine ⟨?_, ?_⟩
    · intro reached
      exact ⟨reachedRegistered reached, reached⟩
    · exact And.right
  rw [prunedSource]
  refine (emitted.append_right _).trans ?_
  simpa using List.filter_append_perm (fun name => decide (name ∈ r.extraction.names)) r.names

theorem extractionPartition (r : Registry) :
    (∀ e, e ∈ r.extraction.functions ↔ e ∈ r.entries ∧ r.Reached e.name) ∧
    r.extraction.names.Nodup ∧
    r.extraction.report.pruned = (r.names.filter fun name => decide (name ∉ r.extraction.names)) ∧
    (r.extraction.names ++ r.extraction.report.pruned).Perm r.names ∧
    r.extraction.names.length + r.extraction.report.pruned.length = r.size := by
  refine ⟨fun _ => extractedIff, extractedDistinct r, prunedSource r, extractionPerm r, ?_⟩
  have counted := (extractionPerm r).length_eq
  rwa [List.length_append, names, List.length_map] at counted

theorem reachedEdge {caller callee : String} (reached : r.Reached caller)
    (leads : r.Leads caller callee) : r.LiveEdge r.reachable.live.names caller callee := by
  refine ⟨leads, reachableIff.mpr reached, reachableIff.mpr ?_⟩
  obtain ⟨e, member, isEntry, path⟩ := reached
  exact ⟨e, member, isEntry, path.tail leads⟩

def ExactlyOne (a b c : Prop) : Prop := (a ∨ b ∨ c) ∧ ¬ (a ∧ b) ∧ ¬ (a ∧ c) ∧ ¬ (b ∧ c)

def Accounts (r : Registry) (caller callee : String) : Prop :=
  ExactlyOne (callee ∉ r.names ∧ ⟨caller, callee⟩ ∈ r.extraction.report.dangling)
    (Precedes r.extraction.names callee caller)
    ((caller = callee ∨ Precedes r.extraction.names caller callee) ∧
      ⟨caller, callee⟩ ∈ r.extraction.report.backEdges)

theorem reachedAccounts {caller callee : String} (reached : r.Reached caller)
    (depends : r.Depends caller callee) : r.Accounts caller callee := by
  by_cases registered : callee ∈ r.names
  · have edge := reachedEdge reached ⟨depends, registered⟩
    have placed := backEdgePlaced edge
    by_cases before : Precedes r.extraction.names callee caller
    · exact ⟨.inr (.inl before), fun both => both.1.1 registered, fun both => both.1.1 registered,
        fun both => placed.mp both.2.2 before⟩
    · have reported := placed.mpr before
      have after := (backEdgeIff.mp reported).2
      exact ⟨.inr (.inr ⟨after, reported⟩), fun both => before both.2, fun both => both.1.1 registered,
        fun both => before both.1⟩
  · have missing := danglingIff.mpr ⟨reached, depends, registered⟩
    have unextracted : callee ∉ r.extraction.names :=
      fun extracted => registered (reachedRegistered (extractedNamesIff.mp extracted))
    refine ⟨.inl ⟨registered, missing⟩, fun both => ?_, fun both => ?_, fun both => ?_⟩
    · exact unextracted (precedesMember both.2)
    · rcases both.2.1 with same | after
      · exact registered (same ▸ reachedRegistered reached)
      · exact unextracted after.1
    · exact unextracted (precedesMember both.1)

theorem reachedUnpruned {caller callee : String} (reached : r.Reached caller)
    (depends : r.Depends caller callee) : callee ∉ r.extraction.report.pruned := by
  intro pruned
  rw [prunedSource, List.mem_filter, decide_eq_true_eq, extractedNamesIff] at pruned
  have edge := reachedEdge reached ⟨depends, pruned.1⟩
  exact pruned.2 (reachableIff.mp edge.2.2)

theorem directCallsAccounted {policy : Policy} {operations : List Operation} {f : Entry}
    {d : Definition} {callee : String}
    (extracted : f ∈ (ofRun policy operations).extraction.functions)
    (ordinary : f.body = .ordinary d) (calls : d.Calls callee) :
    (ofRun policy operations).Accounts f.name callee ∧
    callee ∉ (ofRun policy operations).extraction.report.pruned ∧
    (Precedes (ofRun policy operations).extraction.names f.name callee →
      ⟨f.name, callee⟩ ∈ (ofRun policy operations).extraction.report.backEdges) := by
  obtain ⟨member, reached⟩ := extractedIff.mp extracted
  have stored := callStored (ofRunRegistered policy operations) member ordinary calls
  have depends := (dependsIff member callee).mpr stored
  have accounts := reachedAccounts reached depends
  refine ⟨accounts, reachedUnpruned reached depends, fun later => ?_⟩
  rcases accounts.1 with missing | before | back
  · exact absurd (reachedRegistered (extractedNamesIff.mp later.1)) missing.1
  · exact absurd before (precedesAsymm later)
  · exact back.2

def ping : Definition := ⟨[], "ping", [], .unit, [.expr (.callName "pong" [])]⟩

def pong : Definition :=
  ⟨[], "pong", [], .unit, [.whileTrue (.bool true) [.ret (.callName "ping" [.callName "lost" []])]]⟩

def pingEntry : Entry := .ofRegistration (.ordinary ping Info.default.asEntryPoint)

def pongEntry : Entry := .ofRegistration (.ordinary pong .default)

def pingPong : List Operation :=
  [.register (.ordinary pong .default), .define ping Info.default.asEntryPoint]

theorem pongAccountsForPing :
    pongEntry ∈ (ofRun .overwrite pingPong).extraction.functions ∧
    pongEntry.body = .ordinary pong ∧ pong.Calls "ping" ∧
    (ofRun .overwrite pingPong).Accounts "pong" "ping" ∧
    "ping" ∉ (ofRun .overwrite pingPong).extraction.report.pruned ∧
    (Precedes (ofRun .overwrite pingPong).extraction.names "pong" "ping" →
      ⟨"pong", "ping"⟩ ∈ (ofRun .overwrite pingPong).extraction.report.backEdges) := by
  have entries : (ofRun .overwrite pingPong).entries = [pongEntry, pingEntry] := rfl
  have extracted : pongEntry ∈ (ofRun .overwrite pingPong).extraction.functions := by
    have member : pongEntry ∈ (ofRun .overwrite pingPong).entries := by simp [entries]
    have start : pingEntry ∈ (ofRun .overwrite pingPong).entries := by simp [entries]
    have calls : "pong" ∈ pingEntry.dependencies.names := by decide
    refine extractedIff.mpr ⟨member, pingEntry, start, rfl, .single ⟨?_, nameRegistered member⟩⟩
    exact ⟨pingEntry, start, rfl, calls⟩
  have calls : pong.Calls "ping" :=
    ⟨[.callName "lost" []], _, List.mem_cons_self, .whileBody List.mem_cons_self (.ret .here)⟩
  exact ⟨extracted, rfl, calls, directCallsAccounted extracted rfl calls⟩

end Registry
end CompilationUnit
