import ScriptLang.Program.Equality
import ScriptLang.Program.Parser.Rules
import ScriptLang.Token.Scan

namespace ScriptLang

/-- What was made of a text. -/
structure Reading where
  program : Program
  diagnostics : List Diagnostic
  deriving DecidableEq

namespace Parser

/-- Enough allowance for so many tokens: rules nest no more than eight deep before one of them
leaves a token behind. -/
def allowance (tokens : Nat) : Nat := 8 * (tokens + 1)

/-- Reads tokens as the statements of a program. -/
def run (tokens : List Token) : Reply Program :=
  statements (allowance tokens.length) false (.start tokens)

end Parser

/-- The reading of a list of tokens. -/
def Reading.ofTokens (tokens : List Token) : Reading :=
  match Parser.run tokens with
  | .done program state => ⟨program, state.diagnostics⟩
  | .failed state => ⟨[], state.diagnostics⟩
  | .exhausted => ⟨[], []⟩

/-- The reading of a text. -/
def Reading.ofSource (source : String) : Reading :=
  .ofTokens (Token.words source.toList)

/-- The program that a text spells, or all that is wrong with the text. -/
def Program.parse (source : String) : Except (List Diagnostic) Program :=
  let reading := Reading.ofSource source
  if reading.diagnostics = [] then .ok reading.program else .error reading.diagnostics

end ScriptLang
