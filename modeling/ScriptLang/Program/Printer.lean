import ScriptLang.Program.Basic
import ScriptLang.Text.Decimal
import ScriptLang.Text.Literal

namespace ScriptLang

open ScriptLang.Text

variable {ι : Type}

/-- Texts in a row, divided by a comma and a space. -/
def commaSeparated (items : List String) : String :=
  String.intercalate ", " items

/-- A block from the texts of its statements, each with a space in front. -/
def braced (statements : List String) : String :=
  "\x7b" ++ String.join (statements.map (" " ++ ·)) ++ " \x7d"

mutual

/-- The canonical text of an expression. -/
def Expr.render : Expr ι → String
  | .ident name => name
  | .int value => Decimal.ofInt64 value
  | .string text => Literal.quote text
  | .bool true => "true"
  | .bool false => "false"
  | .unary op operand => "(" ++ op.symbol ++ operand.render ++ ")"
  | .binary left op right => "(" ++ left.render ++ " " ++ op.symbol ++ " " ++ right.render ++ ")"
  | .cond condition yes no =>
      "if " ++ condition.render ++ " " ++ braced (Stmt.renderEach yes) ++ Stmt.renderElse no
  | .fn _ params body =>
      "fn(" ++ commaSeparated params ++ ") " ++ braced (Stmt.renderEach body)
  | .call callee args => callee.render ++ "(" ++ commaSeparated (Expr.renderEach args) ++ ")"
  | .array elements => "[" ++ commaSeparated (Expr.renderEach elements) ++ "]"
  | .index collection position => "(" ++ collection.render ++ "[" ++ position.render ++ "])"
  | .hash pairs => "\x7b" ++ commaSeparated (Expr.renderPairs pairs) ++ "\x7d"

/-- The texts of expressions, in order. -/
def Expr.renderEach : List (Expr ι) → List String
  | [] => []
  | e :: es => e.render :: Expr.renderEach es

/-- The texts of the pairs of a hash, in order. -/
def Expr.renderPairs : List (Expr ι × Expr ι) → List String
  | [] => []
  | (key, value) :: pairs => (key.render ++ ": " ++ value.render) :: Expr.renderPairs pairs

/-- The canonical text of a statement. -/
def Stmt.render : Stmt ι → String
  | .bind name value => "let " ++ name ++ " = " ++ value.render ++ ";"
  | .ret none => "return;"
  | .ret (some value) => "return " ++ value.render ++ ";"
  | .expr value => value.render

/-- The texts of statements, in order. -/
def Stmt.renderEach : List (Stmt ι) → List String
  | [] => []
  | s :: ss => s.render :: Stmt.renderEach ss

/-- The text of the second branch, if there is one. -/
def Stmt.renderElse : Option (List (Stmt ι)) → String
  | none => ""
  | some block => " else " ++ braced (Stmt.renderEach block)

end

/-- The canonical text of a block. -/
def Block.render (block : Block ι) : String :=
  braced (block.map Stmt.render)

/-- The canonical text of a program: its statements with nothing between them. -/
def Program.render (program : Program ι) : String :=
  String.join (program.map Stmt.render)

/-- The listing of a program, one statement to a line. -/
def Program.listing (program : Program ι) : String :=
  String.intercalate "\n" (program.map Stmt.render)

theorem Stmt.renderEach_eq_map (ss : List (Stmt ι)) :
    Stmt.renderEach ss = ss.map Stmt.render := by
  induction ss with
  | nil => rfl
  | cons s ss ih => simp [Stmt.renderEach, ih]

theorem Expr.renderEach_eq_map (es : List (Expr ι)) :
    Expr.renderEach es = es.map Expr.render := by
  induction es with
  | nil => rfl
  | cons e es ih => simp [Expr.renderEach, ih]

end ScriptLang
