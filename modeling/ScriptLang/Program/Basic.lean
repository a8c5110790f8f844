/-!
Programs: expressions and statements as trees.

Trees carry no trace of how they were written: parentheses, separators and optional commas are
gone.  Function literals carry a label.  In a program as it is read the label says nothing.  In a
program that is evaluated it tells the literal apart from all others, however alike they look.
-/

namespace ScriptLang

/-- An operator in front of its operand. -/
inductive UnaryOp where
  | not
  | negate
  deriving DecidableEq, Repr

/-- An operator between its operands. -/
inductive BinaryOp where
  | add
  | sub
  | mul
  | div
  | lt
  | gt
  | eq
  | notEq
  deriving DecidableEq, Repr

/-- An operator as written. -/
def UnaryOp.symbol : UnaryOp → String
  | not => "!"
  | negate => "-"

/-- An operator as written. -/
def BinaryOp.symbol : BinaryOp → String
  | add => "+"
  | sub => "-"
  | mul => "*"
  | div => "/"
  | lt => "<"
  | gt => ">"
  | eq => "=="
  | notEq => "!="

mutual

/-- What has a value.  The statements of a branch or of a function body are a list, the pairs of a
hash stand in source order. -/
inductive Expr (ι : Type := Unit) where
  | ident (name : String)
  | int (value : Int64)
  | string (text : String)
  | bool (value : Bool)
  | unary (op : UnaryOp) (operand : Expr ι)
  | binary (left : Expr ι) (op : BinaryOp) (right : Expr ι)
  | cond (condition : Expr ι) (yes : List (Stmt ι)) (no : Option (List (Stmt ι)))
  | fn (label : ι) (params : List String) (body : List (Stmt ι))
  | call (callee : Expr ι) (args : List (Expr ι))
  | array (elements : List (Expr ι))
  | index (collection : Expr ι) (position : Expr ι)
  | hash (pairs : List (Expr ι × Expr ι))

/-- What a program does, one after the other. -/
inductive Stmt (ι : Type := Unit) where
  | bind (name : String) (value : Expr ι)
  | ret (value : Option (Expr ι))
  | expr (value : Expr ι)

end

/-- Statements between braces. -/
abbrev Block (ι : Type := Unit) := List (Stmt ι)

/-- Statements at top level. -/
abbrev Program (ι : Type := Unit) := List (Stmt ι)

end ScriptLang
