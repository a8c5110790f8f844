import ScriptLang.Evaluation.Builtin
import ScriptLang.Evaluation.Operators
import ScriptLang.Evaluation.Run

/-!
Evaluation of programs.

Expressions and statements are evaluated by recursion on the tree, in a frame, and against a store
that is handed from one part to the next.  What a call does is a parameter of that recursion.  It
is supplied by `enter`, which evaluates the body of a function by the same recursion and counts
how deep calls may still nest.  So a program without calls needs no allowance at all.
-/

namespace ScriptLang

/-- What becomes of a call: from the callee, the arguments and the store. -/
abbrev Caller := Value → List Value → Store → Run Value

/-- The value of a name: the nearest binding, or else the builtin of that name. -/
def Store.resolve (store : Store) (frame : FrameId) (name : String) : Value :=
  match store.lookup? frame name with
  | some value => value
  | none =>
      match Builtin.ofName? name with
      | some builtin => .builtin builtin
      | none => (Fault.unbound name).signal

mutual

/-- Evaluates an expression in a frame. -/
def Expr.evalWith (call : Caller) (frame : FrameId) : Expr Label → Store → Run Value
  | .ident name, store => .done (store.resolve frame name) store
  | .int value, store => .done (.integer value) store
  | .string text, store => .done (.string text) store
  | .bool value, store => .done (.boolean value) store
  | .unary op operand, store =>
      (operand.evalWith call frame store).andThen fun value store =>
        .done (op.apply value) store
  | .binary left op right, store =>
      (left.evalWith call frame store).andThen fun leftValue store =>
        (right.evalWith call frame store).andThen fun rightValue store =>
          .done (op.apply leftValue rightValue) store
  | .cond condition yes no, store =>
      (condition.evalWith call frame store).andThen fun value store =>
        if value.isTruthy then Stmt.evalBlock call frame yes .null store
        else Stmt.evalElse call frame no store
  | .fn label params body, store => .done (.function ⟨⟨label, params, body⟩, frame⟩) store
  | .call callee args, store =>
      (callee.evalWith call frame store).andThen fun value store =>
        (Expr.evalEach call frame args store).andThenAll fun values store =>
          call value values store
  | .array elements, store =>
      (Expr.evalEach call frame elements store).andThenAll fun values store =>
        .done (.array values) store
  | .index collection position, store =>
      (collection.evalWith call frame store).andThen fun value store =>
        (position.evalWith call frame store).andThen fun key store =>
          .done (value.index key) store
  | .hash pairs, store => Expr.evalPairs call frame pairs [] store

/-- Evaluates expressions from left to right, up to the first one that gives a signal. -/
def Expr.evalEach (call : Caller) (frame : FrameId) :
    List (Expr Label) → Store → Run (Except Value (List Value))
  | [], store => .done (.ok []) store
  | e :: es, store =>
      match e.evalWith call frame store with
      | .tooDeep => .tooDeep
      | .done value store =>
          if value.isSignal then .done (.error value) store
          else (Expr.evalEach call frame es store).map fun values => values.map (value :: ·)

/-- Evaluates the pairs of a hash literal, key before value, and files each at once.  The entries
filed so far are given. -/
def Expr.evalPairs (call : Caller) (frame : FrameId) :
    List (Expr Label × Expr Label) → List (Entry Value) → Store → Run Value
  | [], entries, store => .done (.hash entries) store
  | (keyExpr, valueExpr) :: pairs, entries, store =>
      (keyExpr.evalWith call frame store).andThen fun key store =>
        match key.hashKey? with
        | none => .done (Fault.notKey key.kind).signal store
        | some slot =>
            (valueExpr.evalWith call frame store).andThen fun value store =>
              Expr.evalPairs call frame pairs (Value.insertEntry ⟨slot, key, value⟩ entries) store

/-- Evaluates a statement in a frame.  A binding gives the value that it binds. -/
def Stmt.evalWith (call : Caller) (frame : FrameId) : Stmt Label → Store → Run Value
  | .bind name value, store =>
      (value.evalWith call frame store).andThen fun result store =>
        .done result (store.set frame name result)
  | .ret none, store => .done (.returned .null) store
  | .ret (some value), store =>
      (value.evalWith call frame store).andThen fun result store =>
        .done (.returned result) store
  | .expr value, store => value.evalWith call frame store

/-- Evaluates statements one after the other, up to the first one that gives a signal.  The value
of the last one counts, or the given one if there are none. -/
def Stmt.evalBlock (call : Caller) (frame : FrameId) :
    List (Stmt Label) → Value → Store → Run Value
  | [], value, store => .done value store
  | s :: ss, _, store =>
      (s.evalWith call frame store).andThen fun value store =>
        Stmt.evalBlock call frame ss value store

/-- Evaluates the second branch, if there is one. -/
def Stmt.evalElse (call : Caller) (frame : FrameId) :
    Option (List (Stmt Label)) → Store → Run Value
  | none, store => .done .null store
  | some block, store => Stmt.evalBlock call frame block .null store

end

/-- Carries out a call, given what it means to enter a function. -/
def callWith (enter : Closure → List Value → Store → Run Value) : Caller
  | .function closure, args, store =>
      if args.length = closure.params.length then enter closure args store
      else .done (Fault.wrongCount args.length closure.params.length).signal store
  | .builtin builtin, args, store => .done (builtin.apply args) store
  | callee, _, store => .done (Fault.notFunction callee.kind).signal store

/-- Evaluates the body of a function in a new scope within the one it was made in, with its
parameters bound to the arguments.  Calls may nest so many levels deep. -/
def enter : Nat → Closure → List Value → Store → Run Value
  | 0, _, _, _ => .tooDeep
  | depth + 1, closure, args, store =>
      let scope := (Frame.within (some closure.frame)).setAll (closure.params.zip args)
      let (frame, store) := store.alloc scope
      (Stmt.evalBlock (callWith (enter depth)) frame closure.body .null store).map Value.arrived

/-- Calls a value, with calls nested no deeper than `depth`. -/
def Value.call (depth : Nat) : Caller :=
  callWith (enter depth)

/-- Evaluates an expression in a frame, with calls nested no deeper than `depth`. -/
def Expr.eval (depth : Nat) (frame : FrameId) (e : Expr Label) (store : Store) : Run Value :=
  e.evalWith (Value.call depth) frame store

/-- Evaluates a statement in a frame. -/
def Stmt.eval (depth : Nat) (frame : FrameId) (s : Stmt Label) (store : Store) : Run Value :=
  s.evalWith (Value.call depth) frame store

/-- Evaluates a block in a frame.  A value that is returned stays on its way. -/
def Block.eval (depth : Nat) (frame : FrameId) (block : Block Label) (store : Store) :
    Run Value :=
  Stmt.evalBlock (Value.call depth) frame block .null store

/-- Evaluates a program in a frame.  A value that is returned has arrived. -/
def Program.eval (depth : Nat) (frame : FrameId) (program : Program Label)
    (store : Store) : Run Value :=
  (Stmt.evalBlock (Value.call depth) frame program .null store).map Value.arrived

end ScriptLang
