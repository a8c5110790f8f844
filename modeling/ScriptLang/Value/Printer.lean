import ScriptLang.Program.Printer
import ScriptLang.Value.Basic

namespace ScriptLang

open ScriptLang.Text

/-- The text of a function is the literal that makes it. -/
def Closure.render (closure : Closure) : String :=
  (Expr.fn closure.label closure.params closure.body).render

mutual

/-- The text of a value. -/
def Value.render : Value → String
  | .integer n => Decimal.ofInt64 n
  | .boolean true => "true"
  | .boolean false => "false"
  | .string text => text
  | .null => "null"
  | .array elements => "[" ++ commaSeparated (Value.renderEach elements) ++ "]"
  | .hash entries => "\x7b" ++ commaSeparated (Value.renderEntries entries) ++ "\x7d"
  | .function closure => closure.render
  | .builtin _ => "builtin function"
  | .returned value => value.render
  | .error message => "ERROR: " ++ message

/-- The texts of values, in order. -/
def Value.renderEach : List Value → List String
  | [] => []
  | v :: vs => v.render :: Value.renderEach vs

/-- The texts of the entries of a hash, in order. -/
def Value.renderEntries : List (Entry Value) → List String
  | [] => []
  | ⟨_, key, value⟩ :: entries =>
      (key.render ++ ": " ++ value.render) :: Value.renderEntries entries

end

end ScriptLang
