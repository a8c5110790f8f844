import ScriptLang.Program.Basic
import ScriptLang.Text.Decimal
import ScriptLang.Value.Basic

namespace ScriptLang

/-- The cause of a runtime error. -/
inductive Fault where
  /-- A name that is bound nowhere. -/
  | unbound (name : String)
  /-- A value that cannot be negated. -/
  | notNegatable (operand : Value.Kind)
  /-- Operands of different kinds that no operator takes together. -/
  | mismatch (left : Value.Kind) (op : BinaryOp) (right : Value.Kind)
  /-- Operands of one kind that the operator does not take. -/
  | unsupported (left : Value.Kind) (op : BinaryOp) (right : Value.Kind)
  | divisionByZero (dividend : Int64)
  | notFunction (callee : Value.Kind)
  | wrongCount (given wanted : Nat)
  | notKey (key : Value.Kind)
  | notCollection (collection : Value.Kind)
  /-- A value that has no length. -/
  | noLength (argument : Value.Kind)
  /-- A value given to a builtin that wants an array. -/
  | notArray (builtin : Builtin) (argument : Value.Kind)
  deriving DecidableEq, Repr

namespace Fault

open ScriptLang.Text

/-- The wording of a fault. -/
def message : Fault → String
  | unbound name => "identifier not found: " ++ name
  | notNegatable operand => "unknown operator: -" ++ operand.name
  | mismatch left op right =>
      "type mismatch: " ++ left.name ++ " " ++ op.symbol ++ " " ++ right.name
  | unsupported left op right =>
      "unknown operator: " ++ left.name ++ " " ++ op.symbol ++ " " ++ right.name
  | divisionByZero dividend => "division by zero: " ++ Decimal.ofInt64 dividend ++ " / 0"
  | notFunction callee => "not a function: " ++ callee.name
  | wrongCount given wanted =>
      "wrong number of arguments. got=" ++ Decimal.ofNat given ++
        ", want=" ++ Decimal.ofNat wanted
  | notKey key => "unusable as hash key: " ++ key.name
  | notCollection collection => "index operator not supported: " ++ collection.name
  | noLength argument => "argument to 'len' not supported, got " ++ argument.name
  | notArray builtin argument =>
      "argument to '" ++ builtin.name ++ "' must be ARRAY, got " ++ argument.name

/-- The signal that a fault sends out. -/
def signal (fault : Fault) : Value := .error fault.message

end Fault

end ScriptLang
