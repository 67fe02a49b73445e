/-!
Where emitted text goes: a string, which takes everything, or a buffer of limited size, which takes
the bytes that fit and then fails.
-/
namespace CompilationUnit

inductive EmitError
  | full
  | stop
  deriving DecidableEq, Repr

def EmitError.message : EmitError → String
  | .full => "failed to write whole buffer"
  | .stop => "stop"

/-- What text can be written to; a write that fails may have taken part of the text. -/
class Destination (σ : Type) where
  write : σ → String → Except EmitError Unit × σ

instance : Destination String where
  write taken text := (.ok (), taken ++ text)

structure Buffer where
  bytes : ByteArray
  capacity : Nat

def Buffer.empty (capacity : Nat) : Buffer := ⟨.empty, capacity⟩

def Buffer.write (b : Buffer) (text : String) : Except EmitError Unit × Buffer :=
  let room := b.capacity - b.bytes.size
  if text.utf8ByteSize ≤ room then (.ok (), { b with bytes := b.bytes ++ text.toUTF8 })
  else (.error .full, { b with bytes := b.bytes ++ text.toUTF8.extract 0 room })

instance : Destination Buffer := ⟨Buffer.write⟩

end CompilationUnit
