import ScriptLang.Proofs.Evaluation.Contexts
import ScriptLang.Proofs.Store.Founded

/-!
Evaluation without calls.

A tree that calls nothing is evaluated by looking names up, making functions, binding names and
going on to smaller parts.  Here these steps are said without any bound on how long a look-up may
walk or how deep calls may nest, so that an evaluation may well have no end.  Trees without calls
have one wherever chains of scopes end.
-/

namespace ScriptLang

mutual

/-- Nothing is called outside the bodies of the functions that are made. -/
def Expr.CallFree : Expr Label → Prop
  | .ident _ => True
  | .int _ => True
  | .string _ => True
  | .bool _ => True
  | .unary _ operand => operand.CallFree
  | .binary left _ right => left.CallFree ∧ right.CallFree
  | .cond condition yes no => condition.CallFree ∧ Stmt.CallFreeEach yes ∧ Stmt.CallFreeElse no
  | .fn _ _ _ => True
  | .call _ _ => False
  | .array elements => Expr.CallFreeEach elements
  | .index collection position => collection.CallFree ∧ position.CallFree
  | .hash pairs => Expr.CallFreePairs pairs

def Expr.CallFreeEach : List (Expr Label) → Prop
  | [] => True
  | e :: es => e.CallFree ∧ Expr.CallFreeEach es

def Expr.CallFreePairs : List (Expr Label × Expr Label) → Prop
  | [] => True
  | (key, value) :: pairs => key.CallFree ∧ value.CallFree ∧ Expr.CallFreePairs pairs

def Stmt.CallFree : Stmt Label → Prop
  | .bind _ value => value.CallFree
  | .ret none => True
  | .ret (some value) => value.CallFree
  | .expr value => value.CallFree

def Stmt.CallFreeEach : List (Stmt Label) → Prop
  | [] => True
  | s :: ss => s.CallFree ∧ Stmt.CallFreeEach ss

def Stmt.CallFreeElse : Option (List (Stmt Label)) → Prop
  | none => True
  | some block => Stmt.CallFreeEach block

end

def Node.CallFree : Node → Prop
  | .program ss => Stmt.CallFreeEach ss
  | .block ss => Stmt.CallFreeEach ss
  | .statement s => s.CallFree
  | .expression e => e.CallFree

/-- What is still to be evaluated, with the values that have been found on the way. -/
inductive Task where
  | value (value : Value)
  | expr (e : Expr Label)
  | right (left : Value) (op : BinaryOp) (e : Expr Label)
  | position (collection : Value) (e : Expr Label)
  | elements (before : List Value) (es : List (Expr Label))
  | pairs (entries : List (Entry Value)) (pairs : List (Expr Label × Expr Label))
  | filing (slot : HashKey) (key : Value) (e : Expr Label) (entries : List (Entry Value))
      (pairs : List (Expr Label × Expr Label))
  | stmt (s : Stmt Label)
  | assign (name : String) (value : Value)
  | block (last : Value) (ss : List (Stmt Label))

/-- What a task begins with. -/
inductive Action where
  | give (value : Value)
  | look (name : String)
  | make (lambda : Lambda Label)
  | bind (name : String) (value : Value)
  /-- A part has to be evaluated first.  How it goes on depends on the value. -/
  | first (part : Task) (next : Value → Task)
  | call (callee : Expr Label) (args : List (Expr Label))

namespace Task

def otherwise : Option (List (Stmt Label)) → Task
  | none => .value .null
  | some ss => .block .null ss

/-- The branch that is taken. -/
def branch (yes : List (Stmt Label)) (no : Option (List (Stmt Label))) (v : Value) : Task :=
  if v.isTruthy then .block .null yes else otherwise no

/-- What becomes of a pair when its key has been evaluated. -/
def keyed (e : Expr Label) (entries : List (Entry Value)) (ps : List (Expr Label × Expr Label))
    (key : Value) : Task :=
  match key.hashKey? with
  | none => .value (Fault.notKey key.kind).signal
  | some slot => .filing slot key e entries ps

def elementsAction (before : List Value) : List (Expr Label) → Action
  | [] => .give (.array before)
  | e :: es => .first (.expr e) fun v => .elements (before ++ [v]) es

def pairsAction (entries : List (Entry Value)) : List (Expr Label × Expr Label) → Action
  | [] => .give (.hash entries)
  | (key, e) :: ps => .first (.expr key) (keyed e entries ps)

def exprAction : Expr Label → Action
  | .ident name => .look name
  | .int n => .give (.integer n)
  | .string text => .give (.string text)
  | .bool b => .give (.boolean b)
  | .unary op operand => .first (.expr operand) fun v => .value (op.apply v)
  | .binary l op r => .first (.expr l) fun v => .right v op r
  | .cond condition yes no => .first (.expr condition) (branch yes no)
  | .fn label params body => .make ⟨label, params, body⟩
  | .call callee args => .call callee args
  | .array es => elementsAction [] es
  | .index collection e => .first (.expr collection) fun v => .position v e
  | .hash ps => pairsAction [] ps

def action : Task → Action
  | .value v => .give v
  | .expr e => exprAction e
  | .right left op e => .first (.expr e) fun v => .value (op.apply left v)
  | .position collection e => .first (.expr e) fun key => .value (collection.index key)
  | .elements before es => elementsAction before es
  | .pairs entries ps => pairsAction entries ps
  | .filing slot key e entries ps =>
      .first (.expr e) fun v => .pairs (Value.insertEntry ⟨slot, key, v⟩ entries) ps
  | .stmt (.bind name e) => .first (.expr e) (.assign name)
  | .stmt (.ret none) => .give (.returned .null)
  | .stmt (.ret (some e)) => .first (.expr e) fun v => .value (.returned v)
  | .stmt (.expr e) => exprAction e
  | .assign name v => .bind name v
  | .block last [] => .give last
  | .block _ (s :: ss) => .first (.stmt s) fun v => .block v ss

/-- What the evaluation of programs makes of a task. -/
def run (call : Caller) (frame : FrameId) : Task → Store → Run Value
  | .value v, store => .done v store
  | .expr e, store => e.evalWith call frame store
  | .right left op e, store =>
      (e.evalWith call frame store).andThen fun v store => .done (op.apply left v) store
  | .position collection e, store =>
      (e.evalWith call frame store).andThen fun key store => .done (collection.index key) store
  | .elements before es, store =>
      (Expr.evalEach call frame es store).andThenAll fun values store =>
        .done (.array (before ++ values)) store
  | .pairs entries ps, store => Expr.evalPairs call frame ps entries store
  | .filing slot key e entries ps, store =>
      (e.evalWith call frame store).andThen fun v store =>
        Expr.evalPairs call frame ps (Value.insertEntry ⟨slot, key, v⟩ entries) store
  | .stmt s, store => s.evalWith call frame store
  | .assign name v, store => .done v (store.set frame name v)
  | .block last ss, store => Stmt.evalBlock call frame ss last store

end Task

/-- What comes of what a task begins with. -/
def Action.run (call : Caller) (frame : FrameId) : Action → Store → Run Value
  | .give value, store => .done value store
  | .look name, store => .done (store.resolve frame name) store
  | .make lambda, store => .done (.function ⟨lambda, frame⟩) store
  | .bind name value, store => .done value (store.set frame name value)
  | .first part next, store =>
      (part.run call frame store).andThen fun value store => (next value).run call frame store
  | .call callee args, store => (Expr.call callee args).evalWith call frame store

/-- A task in a frame comes to an end, with a value and a store.  Every look-up on the way walks
outward until it ends by itself.  Nothing is said of calls: a task that calls never settles. -/
inductive Task.Settles (frame : FrameId) : Task → Store → Value → Store → Prop where
  | give {task : Task} {value s} (h : task.action = .give value) : Settles frame task s value s
  | look {task : Task} {name s} (h : task.action = .look name)
      (hfinds : s.Finds name frame (s.lookup? frame name)) :
      Settles frame task s (s.resolve frame name) s
  | make {task : Task} {lambda s} (h : task.action = .make lambda) :
      Settles frame task s (.function ⟨lambda, frame⟩) s
  | bind {task : Task} {name value s} (h : task.action = .bind name value) :
      Settles frame task s value (s.set frame name value)
  | signal {task part : Task} {next signal s t} (h : task.action = .first part next)
      (hpart : Settles frame part s signal t) (hsignal : signal.isSignal = true) :
      Settles frame task s signal t
  | goOn {task part : Task} {next value result s t u} (h : task.action = .first part next)
      (hpart : Settles frame part s value t) (hplain : value.isSignal = false)
      (hnext : Settles frame (next value) t result u) : Settles frame task s result u

/-- A tree comes to an end on its own. -/
def Node.Settles (frame : FrameId) : Node → Store → Value → Store → Prop
  | .program ss, before, value, after =>
      ∃ inner : Value, (Task.block .null ss).Settles frame before inner after ∧
        inner.arrived = value
  | .block ss, before, value, after => (Task.block .null ss).Settles frame before value after
  | .statement s, before, value, after => (Task.stmt s).Settles frame before value after
  | .expression e, before, value, after => (Task.expr e).Settles frame before value after

namespace Task

section Runs

variable {call : Caller} {frame : FrameId} {s t : Store} {value : Value}

theorem elements_run (before : List Value) (es : List (Expr Label)) (s : Store) :
    (Task.elements before es).run call frame s = (elementsAction before es).run call frame s := by
  cases es with
  | nil => simp [run, elementsAction, Action.run, Expr.evalEach, Run.andThenAll]
  | cons e es =>
      simp only [run, elementsAction, Action.run,
        Expr.evalEach_cons_andThenAll, List.append_assoc,
        List.singleton_append]

theorem pairs_run (entries : List (Entry Value))
    (pairs : List (Expr Label × Expr Label)) (s : Store) :
    (Task.pairs entries pairs).run call frame s =
      (pairsAction entries pairs).run call frame s := by
  cases pairs with
  | nil => rfl
  | cons pair pairs =>
      obtain ⟨key, value⟩ := pair
      simp only [run, pairsAction, Action.run, Expr.evalPairs, keyed]
      congr 1
      funext found t
      cases found.hashKey? with
      | none => rfl
      | some slot => rfl

theorem expr_run (e : Expr Label) (s : Store) :
    (Task.expr e).run call frame s = (exprAction e).run call frame s := by
  cases e with
  | array elements =>
      rw [exprAction, ← elements_run]
      simp only [run, Expr.evalWith, List.nil_append]
  | hash pairs =>
      rw [exprAction, ← pairs_run]
      simp only [run, Expr.evalWith]
  | cond condition yes no =>
      simp only [run, exprAction, Action.run, Expr.evalWith]
      congr 1
      funext found t
      rw [branch]
      cases found.isTruthy with
      | true => rfl
      | false =>
          cases no with
          | none => simp [otherwise, Stmt.evalElse]
          | some block => simp [otherwise, Stmt.evalElse]
  | _ => simp only [run, exprAction, Action.run, Expr.evalWith]

/-- A task is what it begins with. -/
theorem run_eq (task : Task) (s : Store) :
    task.run call frame s = task.action.run call frame s := by
  cases task with
  | expr e => exact expr_run e s
  | elements before es => exact elements_run before es s
  | pairs entries pairs => exact pairs_run entries pairs s
  | stmt statement =>
      rcases statement with ⟨name, e⟩ | ⟨_ | e⟩ | e
      · simp only [run, action, Action.run, Stmt.evalWith]
      · simp only [run, action, Action.run, Stmt.evalWith]
      · simp only [run, action, Action.run, Stmt.evalWith]
      · simpa only [run, action, Stmt.evalWith] using expr_run e s
  | block last ss =>
      cases ss with
      | nil => simp only [run, action, Action.run, Stmt.evalBlock]
      | cons s ss => simp only [run, action, Action.run, Stmt.evalBlock]
  | _ => rfl

/-- What a task settles at is what evaluating it gives, whatever calls do. -/
theorem Settles.run_eq {task : Task} (h : task.Settles frame s value t) :
    task.run call frame s = .done value t := by
  induction h with
  | give h | look h | make h | bind h => rw [Task.run_eq, h, Action.run]
  | signal h _ hsignal ih => rw [Task.run_eq, h, Action.run, ih, Run.andThen_of_signal hsignal]
  | goOn h _ hplain _ ih ih' =>
      rw [Task.run_eq, h, Action.run, ih, Run.andThen_of_plain hplain, ih']

end Runs

def CallFree : Task → Prop
  | .value _ => True
  | .expr e => e.CallFree
  | .right _ _ e => e.CallFree
  | .position _ e => e.CallFree
  | .elements _ es => Expr.CallFreeEach es
  | .pairs _ ps => Expr.CallFreePairs ps
  | .filing _ _ e _ ps => e.CallFree ∧ Expr.CallFreePairs ps
  | .stmt s => s.CallFree
  | .assign _ _ => True
  | .block _ ss => Stmt.CallFreeEach ss

/-- How much of the tree is left. -/
noncomputable def size : Task → Nat
  | .value _ => 0
  | .expr e => sizeOf e
  | .right _ _ e => sizeOf e + 1
  | .position _ e => sizeOf e + 1
  | .elements _ es => sizeOf es
  | .pairs _ ps => sizeOf ps
  | .filing _ _ e _ ps => sizeOf e + sizeOf ps + 1
  | .stmt s => sizeOf s
  | .assign _ _ => 0
  | .block _ ss => sizeOf ss

end Task

/-- It is no call, and all that it leads to calls nothing and is smaller than `size`. -/
def Action.Descends (size : Nat) : Action → Prop
  | .first part next =>
      (part.CallFree ∧ part.size < size) ∧ ∀ value, (next value).CallFree ∧
        (next value).size < size
  | .call _ _ => False
  | _ => True

theorem Action.Descends.mono {size larger : Nat} {action : Action} (h : action.Descends size)
    (hle : size ≤ larger) : action.Descends larger := by
  cases action with
  | first part next =>
      obtain ⟨⟨hfree, hpart⟩, hnext⟩ := h
      refine ⟨⟨hfree, by omega⟩, fun value => ⟨(hnext value).1, ?_⟩⟩
      exact Nat.lt_of_lt_of_le (hnext value).2 hle
  | call => exact h
  | _ => trivial

theorem Expr.sizeOf_pos (e : Expr Label) : 0 < sizeOf e := by
  apply Nat.pos_of_ne_zero
  cases e <;> simp

namespace Task

theorem elementsAction_descends (before : List Value) {es : List (Expr Label)}
    (h : Expr.CallFreeEach es) :
    (elementsAction before es).Descends (sizeOf es) := by
  cases es with
  | nil => trivial
  | cons e es =>
      simp only [Expr.CallFreeEach] at h
      simp only [elementsAction, Action.Descends, CallFree, size, List.cons.sizeOf_spec]
      exact ⟨⟨h.1, by omega⟩, fun _ => ⟨h.2, by omega⟩⟩

theorem pairsAction_descends (entries : List (Entry Value))
    {pairs : List (Expr Label × Expr Label)}
    (h : Expr.CallFreePairs pairs) : (pairsAction entries pairs).Descends (sizeOf pairs) := by
  cases pairs with
  | nil => trivial
  | cons pair pairs =>
      obtain ⟨key, value⟩ := pair
      simp only [Expr.CallFreePairs] at h
      simp only [pairsAction, Action.Descends, List.cons.sizeOf_spec, Prod.mk.sizeOf_spec]
      refine ⟨⟨h.1, by simp only [size]; omega⟩, fun found => ?_⟩
      rw [keyed]
      cases found.hashKey? with
      | none => exact ⟨trivial, by simp only [size]; omega⟩
      | some slot => exact ⟨h.2, by simp only [size]; omega⟩

theorem exprAction_descends {e : Expr Label} (h : e.CallFree) :
    (exprAction e).Descends (sizeOf e) := by
  cases e with
  | unary op operand =>
      simp only [Expr.CallFree] at h
      simp only [exprAction, Action.Descends, CallFree, size, Expr.unary.sizeOf_spec]
      exact ⟨⟨h, by omega⟩, fun _ => ⟨trivial, by omega⟩⟩
  | binary left op right =>
      simp only [Expr.CallFree] at h
      have := left.sizeOf_pos
      simp only [exprAction, Action.Descends, CallFree, size, Expr.binary.sizeOf_spec]
      exact ⟨⟨h.1, by omega⟩, fun _ => ⟨h.2, by omega⟩⟩
  | cond condition yes no =>
      simp only [Expr.CallFree] at h
      obtain ⟨hcondition, hyes, hno⟩ := h
      simp only [exprAction, Action.Descends, Expr.cond.sizeOf_spec]
      refine ⟨⟨hcondition, by simp only [size]; omega⟩, fun found => ?_⟩
      rw [branch]
      split
      · exact ⟨hyes, by simp only [size]; omega⟩
      · cases no with
        | none => exact ⟨trivial, by simp only [otherwise, size]; omega⟩
        | some block =>
            refine ⟨hno, ?_⟩
            simp only [otherwise, size, Option.some.sizeOf_spec]
            omega
  | call => exact h
  | array elements =>
      apply (elementsAction_descends [] h).mono
      simp
  | index collection position =>
      simp only [Expr.CallFree] at h
      have := collection.sizeOf_pos
      simp only [exprAction, Action.Descends, CallFree, size, Expr.index.sizeOf_spec]
      exact ⟨⟨h.1, by omega⟩, fun _ => ⟨h.2, by omega⟩⟩
  | hash pairs =>
      apply (pairsAction_descends [] h).mono
      simp
  | _ => trivial

/-- A task that calls nothing begins with something smaller that calls nothing, and goes on with
something smaller that calls nothing. -/
theorem action_descends {task : Task} (h : task.CallFree) : task.action.Descends task.size := by
  cases task with
  | expr e => exact exprAction_descends h
  | elements before es => exact elementsAction_descends before h
  | pairs entries pairs => exact pairsAction_descends entries h
  | right _ _ e | position _ e =>
      simp only [action, Action.Descends, CallFree, size]
      exact ⟨⟨h, by omega⟩, fun _ => ⟨trivial, by omega⟩⟩
  | filing slot key e entries pairs =>
      simp only [action, Action.Descends, CallFree, size]
      exact ⟨⟨h.1, by omega⟩, fun _ => ⟨h.2, by omega⟩⟩
  | stmt s =>
      rcases s with ⟨name, e⟩ | ⟨_ | e⟩ | e
      · simp only [action, Action.Descends, CallFree, size, Stmt.bind.sizeOf_spec]
        exact ⟨⟨h, by omega⟩, fun _ => ⟨trivial, by omega⟩⟩
      · trivial
      · simp only [action, Action.Descends, CallFree, size, Stmt.ret.sizeOf_spec,
          Option.some.sizeOf_spec]
        exact ⟨⟨h, by omega⟩, fun _ => ⟨trivial, by omega⟩⟩
      · apply (exprAction_descends h).mono
        simp [size]
  | block last ss =>
      cases ss with
      | nil => trivial
      | cons s ss =>
          simp only [CallFree, Stmt.CallFreeEach] at h
          simp only [action, Action.Descends, CallFree, size, List.cons.sizeOf_spec]
          exact ⟨⟨h.1, by omega⟩, fun _ => ⟨h.2, by omega⟩⟩
  | _ => trivial

/-- A task that calls nothing settles, and leaves the scopes as they are.  The induction is on how
much of the tree is left. -/
theorem exists_settles {s : Store} (hs : s.Founded) {frame : FrameId}
    (hframe : frame < s.frames.size)
    (task : Task) (h : task.CallFree) :
    ∃ value t, task.Settles frame s value t ∧ s.SameScopes t := by
  induction hsize : task.size using Nat.strongRecOn generalizing task s with
  | _ size ih =>
      have hdescends := hsize ▸ action_descends h
      cases haction : task.action with
      | give value => exact ⟨_, _, .give haction, .refl s⟩
      | look name => exact ⟨_, _, .look haction (hs.finds hframe name), .refl s⟩
      | make lambda => exact ⟨_, _, .make haction, .refl s⟩
      | bind name value => exact ⟨_, _, .bind haction, .set s frame name value⟩
      | call callee args =>
          rw [haction] at hdescends
          exact hdescends.elim
      | first part next =>
          rw [haction] at hdescends
          obtain ⟨⟨hpart, hpartSize⟩, hnext⟩ := hdescends
          obtain ⟨value, t, hsettles, hst⟩ := ih _ hpartSize hs hframe part hpart rfl
          cases hvalue : value.isSignal with
          | true => exact ⟨_, _, .signal haction hsettles hvalue, hst⟩
          | false =>
              obtain ⟨hfree, hnextSize⟩ := hnext value
              have hframe' : frame < t.frames.size := hst.size_eq ▸ hframe
              obtain ⟨result, u, hsettles', htu⟩ :=
                ih _ hnextSize (hs.same hst) hframe' _ hfree rfl
              exact ⟨result, u, .goOn haction hsettles hvalue hsettles', hst.trans htu⟩

end Task

/-- Where chains of scopes end, a tree that calls nothing is evaluated to its end.  No allowance
for calls is needed, no look-up is cut short, and no scope is opened. -/
theorem Node.settles_of_callFree {s : Store} (hs : s.Founded) {frame : FrameId}
    (hframe : frame < s.frames.size) (node : Node) (hnode : node.CallFree) :
    ∃ value t, node.Settles frame s value t ∧ (∀ depth, node.eval depth frame s = .done value t) ∧
      s.SameScopes t := by
  cases node with
  | program ss =>
      obtain ⟨inner, t, hsettles, hst⟩ := Task.exists_settles hs hframe (.block .null ss) hnode
      refine ⟨inner.arrived, t, ⟨inner, hsettles, rfl⟩, fun depth => ?_, hst⟩
      exact congrArg (Run.map Value.arrived) hsettles.run_eq
  | block ss =>
      obtain ⟨value, t, hsettles, hst⟩ := Task.exists_settles hs hframe (.block .null ss) hnode
      exact ⟨value, t, hsettles, fun depth => hsettles.run_eq, hst⟩
  | statement statement =>
      obtain ⟨value, t, hsettles, hst⟩ := Task.exists_settles hs hframe (.stmt statement) hnode
      exact ⟨value, t, hsettles, fun depth => hsettles.run_eq, hst⟩
  | expression e =>
      obtain ⟨value, t, hsettles, hst⟩ := Task.exists_settles hs hframe (.expr e) hnode
      exact ⟨value, t, hsettles, fun depth => hsettles.run_eq, hst⟩

/-- The outer scope need not be the older one, and a function that calls itself may be made. -/
theorem Node.settles_within_later_scope :
    ∃ t, (Node.program
        [.bind "f" (.fn 0 ["y"] [.expr (.call (.ident "f") [.ident "y"])]),
          .expr (.binary (.ident "x") .add (.int 1))]).Settles 0
        ⟨#[⟨some 1, []⟩, ⟨none, [("x", .integer 5)]⟩]⟩ (.integer 6) t ∧
      t.frames.size = 2 := by
  have hfounded : Store.Founded ⟨#[⟨some 1, []⟩, ⟨none, [("x", .integer 5)]⟩]⟩ := by
    apply Store.Founded.of_rank (1 - ·)
    rintro outer frame ⟨found, hfound, houter⟩
    obtain ⟨hframe, rfl⟩ := Array.getElem?_eq_some_iff.mp hfound
    match frame, hframe with
    | 0, _ =>
        cases houter
        decide
    | 1, _ => cases houter
  obtain ⟨value, t, hsettles, heval, hscopes⟩ := Node.settles_of_callFree hfounded
    (by decide : 0 < 2) (.program
      [.bind "f" (.fn 0 ["y"] [.expr (.call (.ident "f") [.ident "y"])]),
        .expr (.binary (.ident "x") .add (.int 1))])
    (by simp [Node.CallFree, Stmt.CallFreeEach, Stmt.CallFree, Expr.CallFree])
  have hvalue : value = .integer 6 := by
    cases heval 0
    rfl
  subst hvalue
  exact ⟨t, hsettles, hscopes.size_eq⟩

end ScriptLang
