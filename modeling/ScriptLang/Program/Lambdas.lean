import ScriptLang.Program.Equality

/-!
Function literals and their labels.

Before a program is evaluated its function literals are numbered in the order in which they stand,
those within the body of another one included.  Two literals of one program have different numbers
even if they look alike, and programs that are numbered one behind the other share none.
-/

namespace ScriptLang

/-- Function literals are numbered in the order in which they are read. -/
abbrev Label := Nat

/-- A function literal: its label, and what can be seen of it. -/
structure Lambda (ι : Type) where
  label : ι
  params : List String
  body : Block ι
  deriving DecidableEq

section Literals

variable {ι : Type}

mutual

/-- The function literals of an expression, at any depth and in source order. -/
def Expr.lambdas : Expr ι → List (Lambda ι)
  | .ident _ => []
  | .int _ => []
  | .string _ => []
  | .bool _ => []
  | .unary _ operand => operand.lambdas
  | .binary left _ right => left.lambdas ++ right.lambdas
  | .cond condition yes no => condition.lambdas ++ (Stmt.lambdasEach yes ++ Stmt.lambdasElse no)
  | .fn label params body => ⟨label, params, body⟩ :: Stmt.lambdasEach body
  | .call callee args => callee.lambdas ++ Expr.lambdasEach args
  | .array elements => Expr.lambdasEach elements
  | .index collection position => collection.lambdas ++ position.lambdas
  | .hash pairs => Expr.lambdasPairs pairs

def Expr.lambdasEach : List (Expr ι) → List (Lambda ι)
  | [] => []
  | e :: es => e.lambdas ++ Expr.lambdasEach es

def Expr.lambdasPairs : List (Expr ι × Expr ι) → List (Lambda ι)
  | [] => []
  | (key, value) :: pairs => key.lambdas ++ (value.lambdas ++ Expr.lambdasPairs pairs)

/-- The function literals of a statement, at any depth and in source order. -/
def Stmt.lambdas : Stmt ι → List (Lambda ι)
  | .bind _ value => value.lambdas
  | .ret none => []
  | .ret (some value) => value.lambdas
  | .expr value => value.lambdas

def Stmt.lambdasEach : List (Stmt ι) → List (Lambda ι)
  | [] => []
  | s :: ss => s.lambdas ++ Stmt.lambdasEach ss

def Stmt.lambdasElse : Option (List (Stmt ι)) → List (Lambda ι)
  | none => []
  | some block => Stmt.lambdasEach block

end

end Literals

mutual

/-- An expression with its function literals numbered from `first` on. -/
def Expr.labelled (first : Label) : Expr → Expr Label
  | .ident name => .ident name
  | .int value => .int value
  | .string text => .string text
  | .bool value => .bool value
  | .unary op operand => .unary op (operand.labelled first)
  | .binary left op right =>
      .binary (left.labelled first) op (right.labelled (first + left.lambdas.length))
  | .cond condition yes no =>
      let behind := first + condition.lambdas.length
      .cond (condition.labelled first) (Stmt.labelledEach behind yes)
        (Stmt.labelledElse (behind + (Stmt.lambdasEach yes).length) no)
  | .fn _ params body => .fn first params (Stmt.labelledEach (first + 1) body)
  | .call callee args =>
      .call (callee.labelled first) (Expr.labelledEach (first + callee.lambdas.length) args)
  | .array elements => .array (Expr.labelledEach first elements)
  | .index collection position =>
      .index (collection.labelled first) (position.labelled (first + collection.lambdas.length))
  | .hash pairs => .hash (Expr.labelledPairs first pairs)

def Expr.labelledEach (first : Label) : List Expr → List (Expr Label)
  | [] => []
  | e :: es => e.labelled first :: Expr.labelledEach (first + e.lambdas.length) es

def Expr.labelledPairs (first : Label) : List (Expr × Expr) → List (Expr Label × Expr Label)
  | [] => []
  | (key, value) :: pairs =>
      let behind := first + key.lambdas.length
      (key.labelled first, value.labelled behind) ::
        Expr.labelledPairs (behind + value.lambdas.length) pairs

/-- A statement with its function literals numbered from `first` on. -/
def Stmt.labelled (first : Label) : Stmt → Stmt Label
  | .bind name value => .bind name (value.labelled first)
  | .ret none => .ret none
  | .ret (some value) => .ret (some (value.labelled first))
  | .expr value => .expr (value.labelled first)

def Stmt.labelledEach (first : Label) : List Stmt → List (Stmt Label)
  | [] => []
  | s :: ss => s.labelled first :: Stmt.labelledEach (first + s.lambdas.length) ss

def Stmt.labelledElse (first : Label) : Option (List Stmt) → Option (List (Stmt Label))
  | none => none
  | some block => some (Stmt.labelledEach first block)

end

/-- The function literals of a program. -/
def Program.lambdas {ι : Type} (program : Program ι) : List (Lambda ι) :=
  Stmt.lambdasEach program

/-- A program with its function literals numbered from `first` on. -/
def Program.labelled (first : Label) (program : Program) : Program Label :=
  Stmt.labelledEach first program

end ScriptLang
