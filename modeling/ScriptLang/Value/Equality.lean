import ScriptLang.Value.Basic

namespace ScriptLang

/-- Whether two functions come from one literal and one scope. -/
def Closure.same (a b : Closure) : Bool :=
  a.label == b.label && a.frame == b.frame

mutual

/-- Whether two values are equal. -/
def Value.same : Value → Value → Bool
  | .integer m, .integer n => m == n
  | .boolean a, .boolean b => a == b
  | .string s, .string t => s == t
  | .null, .null => true
  | .array vs, .array ws => Value.sameList vs ws
  | .hash as, .hash bs => Value.sameEntries as bs
  | .function f, .function g => f.same g
  | .builtin f, .builtin g => f == g
  | .returned v, .returned w => v.same w
  | .error m, .error n => m == n
  | _, _ => false

/-- Whether two lists have equal values at every place. -/
def Value.sameList : List Value → List Value → Bool
  | [], [] => true
  | v :: vs, w :: ws => v.same w && Value.sameList vs ws
  | _, _ => false

/-- Whether two hashes have the same slots with equal keys and values in them. -/
def Value.sameEntries : List (Entry Value) → List (Entry Value) → Bool
  | [], [] => true
  | ⟨slot, key, value⟩ :: as, ⟨slot', key', value'⟩ :: bs =>
      slot == slot' && key.same key' && value.same value' && Value.sameEntries as bs
  | _, _ => false

end

end ScriptLang
