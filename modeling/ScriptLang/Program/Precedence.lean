import ScriptLang.Program.Basic
import ScriptLang.Token.Basic

namespace ScriptLang

/-- The levels of binding, from the loosest to the tightest. -/
inductive Precedence where
  | lowest
  | equality
  | comparison
  | sum
  | product
  | unary
  | call
  | index
  deriving DecidableEq, Repr

/-- The place of a level in the order. -/
def Precedence.rank : Precedence → Nat
  | lowest => 0
  | equality => 1
  | comparison => 2
  | sum => 3
  | product => 4
  | unary => 5
  | call => 6
  | index => 7

instance : LT Precedence := ⟨fun p q => p.rank < q.rank⟩

instance : LE Precedence := ⟨fun p q => p.rank ≤ q.rank⟩

instance (p q : Precedence) : Decidable (p < q) := Nat.decLt p.rank q.rank

instance (p q : Precedence) : Decidable (p ≤ q) := Nat.decLe p.rank q.rank

/-- The level at which a token continues an expression, the lowest if it continues none. -/
def Precedence.ofKind : Token.Kind → Precedence
  | .eq | .notEq => .equality
  | .lt | .gt => .comparison
  | .plus | .minus => .sum
  | .asterisk | .slash => .product
  | .lparen => .call
  | .lbracket => .index
  | _ => .lowest

/-- The operator that a token stands for between operands, if it stands for one. -/
def BinaryOp.ofKind? : Token.Kind → Option BinaryOp
  | .plus => some .add
  | .minus => some .sub
  | .asterisk => some .mul
  | .slash => some .div
  | .lt => some .lt
  | .gt => some .gt
  | .eq => some .eq
  | .notEq => some .notEq
  | _ => none

/-- How a complete expression may become part of a larger one. -/
inductive Continuation where
  | operator
  | call
  | index
  deriving DecidableEq, Repr

/-- The continuation that a token announces, if it announces one. -/
def Continuation.ofKind? : Token.Kind → Option Continuation
  | .plus | .minus | .asterisk | .slash | .lt | .gt | .eq | .notEq => some .operator
  | .lparen => some .call
  | .lbracket => some .index
  | _ => none

end ScriptLang
