import ScriptLang.Console.Output
import ScriptLang.Program.Printer
import ScriptLang.Session
import ScriptLang.Token.Listing
import ScriptLang.Value.Printer

namespace ScriptLang.Console

/-- What to do with a program. -/
inductive Command where
  /-- Evaluate it and show its value. -/
  | run
  /-- Show its statements. -/
  | parse
  /-- Show its tokens. -/
  | lex
  deriving DecidableEq, Repr

/-- A file that is not there. -/
def missingFile : Output := .failure "No such file or directory (os error 2)"

/-- The value of a program, or why it has none. -/
def showOutcome : Outcome → Output
  | .ok value => .line value.render
  | .error failure => .failure failure.text

/-- Carries out a command on the bytes of a program.  There is no output if calls nest too
deep. -/
def Command.perform? (depth : Nat) (command : Command) (content : ByteArray) : Option Output :=
  match command with
  | run => (Session.start.step? depth (.bytes content)).map fun (outcome, _) =>
      showOutcome outcome
  | parse =>
      match String.fromUTF8? content with
      | none => some (.failure Failure.notText.text)
      | some source =>
          match Program.parse source with
          | .ok program => some (.line program.listing)
          | .error diagnostics => some (.failure (Failure.malformed diagnostics).text)
  | lex =>
      match String.fromUTF8? content with
      | none => some (.failure Failure.notText.text)
      | some source => some (.line (Token.listing (Token.tokenize source)))

end ScriptLang.Console
