import DocStore.Script.Printer
import DocStore.Text.Digest

/-!
Programs addressed by content: a store keeps a script under the SHA-1 of its text.
-/

namespace DocStore.Script

/-- A program with its text and the digest of the text. -/
structure Compiled where
  program : Program
  text : String
  digest : String
  text_eq : text = program.text := by rfl
  digest_eq : digest = Digest.ofText text := by rfl

/-- Renders a program and digests the text. -/
def Program.compiled (program : Program) : Compiled :=
  let text := program.text
  ⟨program, text, Digest.ofText text, rfl, rfl⟩

/-- A compiled script is determined by its program. -/
theorem Compiled.eq_compiled (script : Compiled) : script = script.program.compiled := by
  obtain ⟨program, text, digest, htext, hdigest⟩ := script
  subst htext
  subst hdigest
  rfl

end DocStore.Script
