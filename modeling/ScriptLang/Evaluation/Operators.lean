import ScriptLang.Evaluation.Fault
import ScriptLang.Value.Hash

namespace ScriptLang

/-- An operator in front of a value. -/
def UnaryOp.apply : UnaryOp → Value → Value
  | .not, operand => .boolean !operand.isTruthy
  | .negate, .integer n => .integer (-n)
  | .negate, operand => (Fault.notNegatable operand.kind).signal

/-- An operator between integers. -/
def BinaryOp.onIntegers (left right : Int64) : BinaryOp → Value
  | .add => .integer (left + right)
  | .sub => .integer (left - right)
  | .mul => .integer (left * right)
  | .div => if right = 0 then (Fault.divisionByZero left).signal else .integer (left / right)
  | .lt => .boolean (decide (left < right))
  | .gt => .boolean (decide (right < left))
  | .eq => .boolean (left == right)
  | .notEq => .boolean (left != right)

/-- An operator between values that it does not take. -/
def BinaryOp.refuse (op : BinaryOp) (left right : Value) : Value :=
  if left.kind = right.kind then (Fault.unsupported left.kind op right.kind).signal
  else (Fault.mismatch left.kind op right.kind).signal

/-- An operator between values.  Booleans can only be compared for equality, strings can only be
joined. -/
def BinaryOp.apply : BinaryOp → Value → Value → Value
  | op, .integer left, .integer right => op.onIntegers left right
  | .eq, .boolean left, .boolean right => .boolean (left == right)
  | .notEq, .boolean left, .boolean right => .boolean (left != right)
  | .add, .string left, .string right => .string (left ++ right)
  | op, left, right => op.refuse left right

/-- The element of an array at a position, `null` outside the array. -/
def Value.elementAt (elements : List Value) (position : Int64) : Value :=
  if 0 ≤ position.toInt then elements[position.toInt.toNat]?.getD .null else .null

/-- The value filed in a hash under a key, `null` if there is none. -/
def Value.filedUnder (entries : List (Entry Value)) (key : Value) : Value :=
  match key.hashKey? with
  | none => (Fault.notKey key.kind).signal
  | some slot => ((entryAt? entries slot).map Entry.value).getD .null

/-- A part of a collection. -/
def Value.index : Value → Value → Value
  | .array elements, .integer position => elementAt elements position
  | .hash entries, key => filedUnder entries key
  | collection, _ => (Fault.notCollection collection.kind).signal

end ScriptLang
