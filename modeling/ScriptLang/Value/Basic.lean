import ScriptLang.Program.Lambdas
import ScriptLang.Text.Digest

namespace ScriptLang

/-- What a value is, in the order in which hash keys of different kinds are listed. -/
inductive Value.Kind where
  | integer
  | boolean
  | string
  | null
  | array
  | hash
  | function
  | builtin
  | returned
  | error
  deriving DecidableEq, Repr

namespace Value.Kind

/-- The name of a kind, as messages show it. -/
def name : Kind → String
  | integer => "INTEGER"
  | boolean => "BOOLEAN"
  | string => "STRING"
  | null => "NULL"
  | array => "ARRAY"
  | hash => "HASH"
  | function => "FUNCTION"
  | builtin => "BUILTIN"
  | returned => "RETURN_VALUE"
  | error => "ERROR"

/-- The place of a kind in the order. -/
def rank : Kind → Nat
  | integer => 0
  | boolean => 1
  | string => 2
  | null => 3
  | array => 4
  | hash => 5
  | function => 6
  | builtin => 7
  | returned => 8
  | error => 9

end Value.Kind

/-- The functions that every program can call without defining them. -/
inductive Builtin where
  | len
  | first
  | last
  | rest
  | push
  deriving DecidableEq, Repr

namespace Builtin

/-- The name under which a program finds a builtin. -/
def name : Builtin → String
  | len => "len"
  | first => "first"
  | last => "last"
  | rest => "rest"
  | push => "push"

/-- The builtin of a name, if there is one. -/
def ofName? (name : String) : Option Builtin :=
  [len, first, last, rest, push].find? fun builtin => builtin.name == name

end Builtin

/-- Scopes are numbered in the order in which they were opened. -/
abbrev FrameId := Nat

/-- A function: the literal that it was made from, and the scope in which it was made. -/
structure Closure extends Lambda Label where
  frame : FrameId
  deriving DecidableEq

/-- The entry of a hash under which a key is filed: its kind and 64 bits made from it. -/
structure HashKey where
  kind : Value.Kind
  bits : UInt64
  deriving DecidableEq, Repr

/-- Hash keys are ordered by kind, and within a kind by their bits. -/
def HashKey.before (a b : HashKey) : Bool :=
  decide (a.kind.rank < b.kind.rank) || (a.kind == b.kind && decide (a.bits < b.bits))

/-- An entry of a hash: where it is filed, the key it was last filed under, and its value. -/
structure Entry (α : Type) where
  slot : HashKey
  key : α
  value : α

/-- What an expression evaluates to. -/
inductive Value where
  | integer (n : Int64)
  | boolean (b : Bool)
  | string (text : String)
  | null
  | array (elements : List Value)
  | hash (entries : List (Entry Value))
  | function (closure : Closure)
  | builtin (builtin : Builtin)
  /-- A value on its way out of a function. -/
  | returned (value : Value)
  /-- A runtime error, by its message. -/
  | error (message : String)

namespace Value

/-- What a value is. -/
def kind : Value → Kind
  | integer _ => .integer
  | boolean _ => .boolean
  | string _ => .string
  | null => .null
  | array _ => .array
  | hash _ => .hash
  | function _ => .function
  | builtin _ => .builtin
  | returned _ => .returned
  | error _ => .error

/-- Whether a value travels in the place of a result. -/
def isSignal : Value → Bool
  | returned _ => true
  | error _ => true
  | _ => false

/-- Only `false` and `null` count as false. -/
def isTruthy : Value → Bool
  | boolean b => b
  | null => false
  | _ => true

/-- The value that comes out where a function or a program ends: a returned value has arrived, any
other value is left alone. -/
def arrived : Value → Value
  | returned value => value
  | value => value

/-- The entry under which a key is filed.  Only integers, booleans and strings can be keys. -/
def hashKey? : Value → Option HashKey
  | integer n => some ⟨.integer, n.toUInt64⟩
  | boolean b => some ⟨.boolean, if b then 1 else 0⟩
  | string text => some ⟨.string, Text.Digest.ofString text⟩
  | _ => none

end Value

end ScriptLang
