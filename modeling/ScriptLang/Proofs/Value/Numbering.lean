import ScriptLang.Evaluation.Builtin
import ScriptLang.Evaluation.Operators

namespace ScriptLang

/-- A function as seen by someone who can tell functions by their labels, or who cannot. -/
def Closure.seen (numbered : Bool) (closure : Closure) : Closure :=
  { closure with label := if numbered then closure.label else 0 }

theorem Closure.eq_of_seen {numbered : Bool} {f g : Closure}
    (h : f.seen numbered = g.seen numbered) :
    f.params = g.params ∧ f.body = g.body ∧ f.frame = g.frame := by
  simp only [Closure.seen, Closure.mk.injEq, Lambda.mk.injEq] at h
  exact ⟨h.1.2.1, h.1.2.2, h.2⟩

mutual

/-- A value with all its functions as seen. -/
def Value.seen (numbered : Bool) : Value → Value
  | .integer n => .integer n
  | .boolean b => .boolean b
  | .string text => .string text
  | .null => .null
  | .array elements => .array (Value.seenEach numbered elements)
  | .hash entries => .hash (Value.seenEntries numbered entries)
  | .function f => .function (f.seen numbered)
  | .builtin f => .builtin f
  | .returned value => .returned (value.seen numbered)
  | .error message => .error message

def Value.seenEach (numbered : Bool) : List Value → List Value
  | [] => []
  | v :: vs => v.seen numbered :: Value.seenEach numbered vs

def Value.seenEntries (numbered : Bool) : List (Entry Value) → List (Entry Value)
  | [] => []
  | ⟨slot, key, value⟩ :: entries =>
      ⟨slot, key.seen numbered, value.seen numbered⟩ :: Value.seenEntries numbered entries

end

def Entry.seen (numbered : Bool) (entry : Entry Value) : Entry Value :=
  ⟨entry.slot, entry.key.seen numbered, entry.value.seen numbered⟩

variable (numbered : Bool)

theorem Value.seenEach_eq_map (vs : List Value) :
    Value.seenEach numbered vs = vs.map (Value.seen numbered) := by
  induction vs with
  | nil => rfl
  | cons v vs ih => rw [Value.seenEach, ih, List.map_cons]

theorem Value.seenEntries_eq_map (entries : List (Entry Value)) :
    Value.seenEntries numbered entries = entries.map (Entry.seen numbered) := by
  induction entries with
  | nil => rfl
  | cons entry entries ih => rw [Value.seenEntries, ih, List.map_cons, Entry.seen]

section Told

mutual

/-- Someone who can tell functions by their labels sees values as they are. -/
theorem Value.seen_true : ∀ v : Value, v.seen true = v
  | .array vs => by rw [Value.seen, Value.seenEach_true]
  | .hash entries => by rw [Value.seen, Value.seenEntries_true]
  | .returned v => by rw [Value.seen, v.seen_true]
  | .integer _ | .boolean _ | .string _ | .null | .function _ | .builtin _ | .error _ => rfl

theorem Value.seenEach_true : ∀ vs : List Value, Value.seenEach true vs = vs
  | [] => rfl
  | v :: vs => by rw [Value.seenEach, v.seen_true, Value.seenEach_true]

theorem Value.seenEntries_true : ∀ entries : List (Entry Value),
    Value.seenEntries true entries = entries
  | [] => rfl
  | ⟨slot, key, value⟩ :: entries => by
      rw [Value.seenEntries, key.seen_true, value.seen_true, Value.seenEntries_true]

end

end Told

namespace Value

@[simp] theorem kind_seen (v : Value) : (v.seen numbered).kind = v.kind := by
  cases v <;> rfl

@[simp] theorem isSignal_seen (v : Value) : (v.seen numbered).isSignal = v.isSignal := by
  cases v <;> rfl

@[simp] theorem isTruthy_seen (v : Value) : (v.seen numbered).isTruthy = v.isTruthy := by
  cases v <;> rfl

@[simp] theorem hashKey?_seen (v : Value) : (v.seen numbered).hashKey? = v.hashKey? := by
  cases v <;> rfl

theorem seen_arrived (v : Value) : v.arrived.seen numbered = (v.seen numbered).arrived := by
  cases v <;> rfl

@[simp] theorem seen_signal (fault : Fault) : fault.signal.seen numbered = fault.signal := rfl

theorem seen_getD_null (found : Option Value) :
    (found.getD .null).seen numbered = (found.map (seen numbered)).getD .null := by
  cases found <;> rfl

end Value

section Operators

theorem UnaryOp.seen_apply (op : UnaryOp) (v : Value) :
    (op.apply v).seen numbered = op.apply (v.seen numbered) := by
  cases op with
  | not => rw [UnaryOp.apply, UnaryOp.apply, Value.isTruthy_seen, Value.seen]
  | negate => cases v <;> rfl

theorem BinaryOp.seen_onIntegers (op : BinaryOp) (left right : Int64) :
    (op.onIntegers left right).seen numbered = op.onIntegers left right := by
  cases op with
  | div =>
      rw [BinaryOp.onIntegers]
      split <;> rfl
  | _ => rfl

theorem BinaryOp.seen_refuse (op : BinaryOp) (left right : Value) :
    (op.refuse left right).seen numbered =
      op.refuse (left.seen numbered) (right.seen numbered) := by
  rw [BinaryOp.refuse, BinaryOp.refuse, Value.kind_seen, Value.kind_seen]
  split <;> rfl

theorem BinaryOp.seen_apply (op : BinaryOp) (left right : Value) :
    (op.apply left right).seen numbered =
      op.apply (left.seen numbered) (right.seen numbered) := by
  cases left with
  | integer m =>
      cases right with
      | integer n => exact op.seen_onIntegers numbered m n
      | _ => cases op <;> exact BinaryOp.seen_refuse ..
  | boolean b =>
      cases right with
      | boolean c => cases op <;> rfl
      | _ => cases op <;> exact BinaryOp.seen_refuse ..
  | string text =>
      cases right with
      | string text => cases op <;> rfl
      | _ => cases op <;> exact BinaryOp.seen_refuse ..
  | _ => cases op <;> exact BinaryOp.seen_refuse ..

theorem Value.seen_elementAt (vs : List Value) (position : Int64) :
    (Value.elementAt vs position).seen numbered =
      Value.elementAt (vs.map (Value.seen numbered)) position := by
  rw [Value.elementAt, Value.elementAt]
  split
  · rw [Value.seen_getD_null, List.getElem?_map]
  · rfl

theorem Value.entryAt?_map_seen (entries : List (Entry Value)) (slot : HashKey) :
    Value.entryAt? (entries.map (Entry.seen numbered)) slot =
      (Value.entryAt? entries slot).map (Entry.seen numbered) := by
  rw [Value.entryAt?, Value.entryAt?, List.find?_map]
  rfl

theorem Value.seen_filedUnder (entries : List (Entry Value)) (key : Value) :
    (Value.filedUnder entries key).seen numbered =
      Value.filedUnder (entries.map (Entry.seen numbered)) (key.seen numbered) := by
  rw [Value.filedUnder, Value.filedUnder, Value.hashKey?_seen, Value.kind_seen]
  cases key.hashKey? with
  | none => rfl
  | some slot =>
      dsimp only
      rw [Value.seen_getD_null, Value.entryAt?_map_seen, Option.map_map, Option.map_map]
      rfl

theorem Value.seen_index (collection key : Value) :
    (collection.index key).seen numbered =
      (collection.seen numbered).index (key.seen numbered) := by
  cases collection with
  | array vs =>
      rw [Value.seen, Value.seenEach_eq_map]
      cases key with
      | integer n => exact Value.seen_elementAt numbered vs n
      | _ => rfl
  | hash entries =>
      rw [Value.seen, Value.seenEntries_eq_map]
      exact Value.seen_filedUnder numbered entries key
  | _ => rfl

theorem Value.map_seen_insertEntry (new : Entry Value) (entries : List (Entry Value)) :
    (Value.insertEntry new entries).map (Entry.seen numbered) =
      Value.insertEntry (new.seen numbered) (entries.map (Entry.seen numbered)) := by
  induction entries with
  | nil => rfl
  | cons entry entries ih =>
      rw [List.map_cons, Value.insertEntry, Value.insertEntry, ← ih]
      change _ = if new.slot.before entry.slot = true then _
        else if new.slot = entry.slot then _ else _
      split
      · rfl
      · split <;> rfl

end Operators

section Builtins

theorem Builtin.seen_onArray (builtin : Builtin) (v : Value) {make make' : List Value → Value}
    (h : ∀ vs, (make vs).seen numbered = make' (vs.map (Value.seen numbered))) :
    (builtin.onArray v make).seen numbered = builtin.onArray (v.seen numbered) make' := by
  cases v with
  | array vs =>
      rw [Value.seen, Value.seenEach_eq_map]
      exact h vs
  | _ => rfl

theorem Builtin.seen_lengthOf (v : Value) :
    (Builtin.lengthOf v).seen numbered = Builtin.lengthOf (v.seen numbered) := by
  cases v with
  | array vs =>
      rw [Value.seen, Value.seenEach_eq_map, Builtin.lengthOf, Builtin.lengthOf, List.length_map]
      rfl
  | _ => rfl

theorem Builtin.seen_restOf (vs : List Value) :
    (Builtin.restOf vs).seen numbered = Builtin.restOf (vs.map (Value.seen numbered)) := by
  cases vs with
  | nil => rfl
  | cons v vs => rw [Builtin.restOf, Value.seen, Value.seenEach_eq_map, List.map_cons, restOf]

theorem Builtin.seen_apply (builtin : Builtin) (args : List Value) :
    (builtin.apply args).seen numbered = builtin.apply (args.map (Value.seen numbered)) := by
  rcases args with _ | ⟨v, _ | ⟨w, _ | ⟨x, more⟩⟩⟩
  · cases builtin <;> rfl
  · cases builtin with
    | len => exact Builtin.seen_lengthOf numbered v
    | first =>
        refine Builtin.seen_onArray numbered .first v fun vs => ?_
        rw [Value.seen_getD_null, List.head?_map]
    | last =>
        refine Builtin.seen_onArray numbered .last v fun vs => ?_
        rw [Value.seen_getD_null, List.getLast?_map]
    | rest => exact Builtin.seen_onArray numbered .rest v (Builtin.seen_restOf numbered)
    | push => rfl
  · cases builtin with
    | push =>
        refine Builtin.seen_onArray numbered .push v fun vs => ?_
        rw [Value.seen, Value.seenEach_eq_map, List.map_append]
        rfl
    | _ => rfl
  · cases builtin <;> simp [Builtin.apply]

end Builtins

end ScriptLang
