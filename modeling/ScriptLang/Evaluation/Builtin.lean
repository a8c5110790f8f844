import ScriptLang.Evaluation.Fault

namespace ScriptLang.Builtin

/-- How many arguments a builtin takes. -/
def arity : Builtin → Nat
  | push => 2
  | _ => 1

/-- A count as an integer.  One that is too large gives the largest integer. -/
def count (n : Nat) : Int64 :=
  Int64.ofNat (min n Text.Decimal.largest)

/-- The length of a string is counted in characters. -/
def lengthOf : Value → Value
  | .string text => .integer (count text.length)
  | .array elements => .integer (count elements.length)
  | other => (Fault.noLength other.kind).signal

/-- What a builtin makes of an array. -/
def onArray (builtin : Builtin) (argument : Value) (make : List Value → Value) : Value :=
  match argument with
  | .array elements => make elements
  | other => (Fault.notArray builtin other.kind).signal

/-- All but the first element, `null` if there is no first. -/
def restOf : List Value → Value
  | [] => .null
  | _ :: elements => .array elements

/-- Calls a builtin. -/
def apply : Builtin → List Value → Value
  | len, [argument] => lengthOf argument
  | first, [argument] => onArray first argument fun elements => elements.head?.getD .null
  | last, [argument] => onArray last argument fun elements => elements.getLast?.getD .null
  | rest, [argument] => onArray rest argument restOf
  | push, [argument, element] =>
      onArray push argument fun elements => .array (elements ++ [element])
  | builtin, args => (Fault.wrongCount args.length builtin.arity).signal

end ScriptLang.Builtin
