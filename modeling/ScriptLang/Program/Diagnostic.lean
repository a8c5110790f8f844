import ScriptLang.Token.Basic

namespace ScriptLang

/-- Why a statement was given up. -/
inductive Diagnostic where
  /-- An expression was due, and a token of this kind cannot begin one. -/
  | noExpression (found : Token.Kind)
  /-- One kind of token was due and another stood there. -/
  | unexpected (expected found : Token.Kind)
  /-- A numeral stands for a number that is too large. -/
  | tooLarge (digits : String)
  deriving DecidableEq, Repr

/-- The wording of a diagnostic. -/
def Diagnostic.message : Diagnostic → String
  | .noExpression found => "no prefix parse function for " ++ found.name ++ " found"
  | .unexpected expected found =>
      "expected next token to be " ++ expected.name ++ ", got " ++ found.name ++ " instead"
  | .tooLarge digits => "could not parse " ++ digits ++ " as integer"

/-- The wording of a list of diagnostics, one to a line. -/
def Diagnostic.report (diagnostics : List Diagnostic) : String :=
  String.intercalate "\n" (diagnostics.map Diagnostic.message)

end ScriptLang
