import CompilationUnit.Proofs.Emission.Blocks

/-! Emissions into a buffer of limited size. The buffer ends up with the first bytes of the text that a string
would take, as many as there is room for, and the emission fails where the text is longer. -/
namespace CompilationUnit
namespace Buffer

def room (b : Buffer) : Nat := b.capacity - b.bytes.size

def taking (b : Buffer) (text : String) : Except EmitError Unit × Buffer :=
  (if text.utf8ByteSize ≤ b.room then .ok () else .error .full,
    { b with bytes := b.bytes ++ text.toUTF8.extract 0 b.room })

theorem extractWhole {bytes : ByteArray} {n : Nat} (fits : bytes.size ≤ n) : bytes.extract 0 n = bytes := by
  have whole := ByteArray.extract_zero_max_size (a := bytes) (i := n)
  rwa [Nat.max_eq_left fits] at whole

theorem takingWhole {b : Buffer} {text : String} (fits : text.utf8ByteSize ≤ b.room) :
    b.taking text = (.ok (), { b with bytes := b.bytes ++ text.toUTF8 }) := by
  have whole : text.toUTF8.extract 0 b.room = text.toUTF8 := extractWhole fits
  unfold taking
  rw [if_pos fits, whole]

theorem roomBehind (b : Buffer) (bytes : ByteArray) :
    Buffer.room { b with bytes := b.bytes ++ bytes } = b.room - bytes.size := by
  simp [room, Nat.sub_sub]

theorem takingBehind (b : Buffer) (text later : String) :
    b.taking (text ++ later) = match b.taking text with
      | (.ok (), taken) => taken.taking later
      | (.error error, taken) => (.error error, taken) := by
  have size : text.toUTF8.size = text.utf8ByteSize := rfl
  have bytes : (text ++ later).toUTF8.extract 0 b.room =
      text.toUTF8.extract 0 b.room ++ later.toUTF8.extract 0 (b.room - text.utf8ByteSize) := by
    simp [String.toUTF8, String.toByteArray_append, ByteArray.extract_append]
  by_cases fits : text.utf8ByteSize ≤ b.room
  · have whole : text.toUTF8.extract 0 b.room = text.toUTF8 := extractWhole fits
    have enough : (text ++ later).utf8ByteSize ≤ b.room ↔
        later.utf8ByteSize ≤ b.room - text.utf8ByteSize := by
      rw [String.utf8ByteSize_append]
      omega
    rw [takingWhole fits]
    simp only [taking, roomBehind, bytes, whole, size, enough, ByteArray.append_assoc]
  · have long : ¬ (text ++ later).utf8ByteSize ≤ b.room := by
      rw [String.utf8ByteSize_append]
      omega
    have full : b.room - text.utf8ByteSize = 0 := by omega
    simp only [taking, bytes, if_neg fits, if_neg long, full, ByteArray.extract_same, ByteArray.append_empty]

theorem writeTaking (b : Buffer) (text : String) : Destination.write b text = b.taking text := by
  have written : Destination.write b text =
      if text.utf8ByteSize ≤ b.room then (.ok (), { b with bytes := b.bytes ++ text.toUTF8 })
      else (.error .full, { b with bytes := b.bytes ++ text.toUTF8.extract 0 b.room }) := rfl
  rw [written]
  split
  · rename_i fits
    exact (takingWhole fits).symm
  · rename_i long
    unfold taking
    rw [if_neg long]

theorem pourTaking (b : Buffer) (texts : List String) : pour b texts = b.taking (String.join texts) := by
  induction texts generalizing b with
  | nil =>
    have nothing : b.taking "" = _ := takingWhole (Nat.zero_le _)
    rw [String.join_nil, nothing]
    simp [pour]
  | cons text texts ih =>
    rw [pour, String.join_cons, takingBehind, writeTaking]
    rcases b.taking text with ⟨_ | ⟨⟩, taken⟩
    · rfl
    · exact ih taken

end Buffer

namespace Emission

theorem bufferTruncates (m : Emission) (n : Nat) (colorsForced : Bool) :
    ∃ text, m.text colorsForced = .ok text ∧
      (m.emitTo (Buffer.empty n) colorsForced).2.bytes =
        text.toUTF8.extract 0 (min n text.toUTF8.size) ∧
      ((∃ error, (m.emitTo (Buffer.empty n) colorsForced).1 = .error error) ↔ n < text.toUTF8.size) := by
  refine ⟨_, m.textJoined colorsForced, ?_⟩
  rw [emitToPours, Buffer.pourTaking]
  generalize String.join (m.texts colorsForced) = text
  have size : text.toUTF8.size = text.utf8ByteSize := rfl
  have room : (Buffer.empty n).room = n := Nat.sub_zero n
  have none : (Buffer.empty n).bytes = .empty := rfl
  unfold Buffer.taking
  rw [room, none, ByteArray.empty_append]
  constructor
  · rcases Nat.le_total n text.toUTF8.size with short | long
    · rw [Nat.min_eq_left short]
    · rw [Nat.min_eq_right long, Buffer.extractWhole long, ByteArray.extract_zero_size]
  · rw [size]
    split
    · rename_i fits
      simp [Nat.not_lt.mpr fits]
    · rename_i long
      simp [Nat.not_le.mp long]

end Emission
end CompilationUnit
