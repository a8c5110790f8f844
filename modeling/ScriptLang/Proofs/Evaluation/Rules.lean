import ScriptLang.Proofs.Evaluation.Contexts
import ScriptLang.Proofs.Evaluation.Scoping
import ScriptLang.Proofs.Store.Chains
import ScriptLang.Session

namespace ScriptLang

section Rules

variable {call : Caller} {depth : Nat} {frame : FrameId} {s t u : Store} {scopes : List Frame}
  {name : String} {value : Value} {values : List Value}

theorem Expr.evalWith_ident (hsees : s.Sees frame scopes)
    (hseen : Store.seen? scopes name = some value) :
    (Expr.ident name).evalWith call frame s = .done value s := by
  rw [Expr.evalWith, hsees.resolve_eq hseen]

theorem Expr.evalWith_int (n : Int64) :
    (Expr.int n).evalWith call frame s = .done (.integer n) s := by
  rw [Expr.evalWith]

theorem Expr.evalWith_fn (label : Label) (params : List String) (body : Block Label) :
    (Expr.fn label params body).evalWith call frame s =
      .done (.function ⟨⟨label, params, body⟩, frame⟩) s := by
  rw [Expr.evalWith]

theorem Expr.evalEach_cons_of_done {e : Expr Label} {es : List (Expr Label)}
    (he : e.evalWith call frame s = .done value t) (hvalue : value.isSignal = false)
    (hes : Expr.evalEach call frame es t = .done (.ok values) u) :
    Expr.evalEach call frame (e :: es) s = .done (.ok (value :: values)) u := by
  simp only [Expr.evalEach, he, hvalue, hes]
  rfl

theorem Expr.evalEach_ident (hsees : s.Sees frame scopes)
    (hseen : Store.seen? scopes name = some value) (hvalue : value.isSignal = false) :
    Expr.evalEach call frame [.ident name] s = .done (.ok [value]) s :=
  Expr.evalEach_cons_of_done (Expr.evalWith_ident hsees hseen) hvalue rfl

theorem Expr.evalWith_cond_of_done {condition : Expr Label} {yes : Block Label}
    {no : Option (Block Label)}
    (h : condition.evalWith call frame s = .done value t) (hvalue : value.isSignal = false) :
    (Expr.cond condition yes no).evalWith call frame s =
      if value.isTruthy then Stmt.evalBlock call frame yes .null t
      else Stmt.evalElse call frame no t := by
  rw [Expr.evalWith, h, Run.andThen_of_plain hvalue]

theorem Expr.evalWith_binary_of_done {left right : Expr Label} {other : Value} (op : BinaryOp)
    (hleft : left.evalWith call frame s = .done value t) (hvalue : value.isSignal = false)
    (hright : right.evalWith call frame t = .done other u) (hother : other.isSignal = false) :
    (Expr.binary left op right).evalWith call frame s = .done (op.apply value other) u := by
  rw [Expr.evalWith, hleft, Run.andThen_of_plain hvalue, hright, Run.andThen_of_plain hother]

theorem Expr.evalWith_call_of_done {callee : Expr Label} {args : List (Expr Label)}
    (hcallee : callee.evalWith call frame s = .done value t) (hvalue : value.isSignal = false)
    (hargs : Expr.evalEach call frame args t = .done (.ok values) u) :
    (Expr.call callee args).evalWith call frame s = call value values u := by
  rw [Expr.evalWith, hcallee, Run.andThen_of_plain hvalue, hargs]
  rfl

theorem Expr.eval_call_builtin {builtin : Builtin} {args : List (Expr Label)}
    (hsees : s.Sees frame scopes)
    (hname : Builtin.ofName? name = some builtin) (hseen : Store.seen? scopes name = none)
    (hargs : Expr.evalEach (Value.call depth) frame args s = .done (.ok values) t) :
    (Expr.call (.ident name) args).evalWith (Value.call depth) frame s =
      .done (builtin.apply values) t := by
  have hcallee : (Expr.ident name).evalWith (Value.call depth) frame s =
      .done (.builtin builtin) s := by
    rw [Expr.evalWith, hsees.resolve_builtin hname hseen]
  rw [Expr.evalWith_call_of_done hcallee rfl hargs]
  rfl

theorem Stmt.evalBlock_single (e : Expr Label) (start : Value) (s : Store) :
    Stmt.evalBlock call frame [.expr e] start s = e.evalWith call frame s := by
  rw [Stmt.evalBlock, Stmt.evalWith]
  exact Run.andThen_done _

theorem Stmt.evalBlock_bind_of_done {e : Expr Label} {ss : List (Stmt Label)} {start : Value}
    (he : e.evalWith call frame s = .done value t) (hvalue : value.isSignal = false) :
    Stmt.evalBlock call frame (.bind name e :: ss) start s =
      Stmt.evalBlock call frame ss value (t.set frame name value) := by
  rw [Stmt.evalBlock, Stmt.evalWith, he, Run.andThen_of_plain hvalue, Run.andThen_of_plain hvalue]

theorem Frame.outer_setAll (found : Frame) (bindings : List (String × Value)) :
    (found.setAll bindings).outer = found.outer := by
  induction bindings generalizing found with
  | nil => rfl
  | cons binding bindings ih => exact ih _

theorem Frame.get?_setAll_of_not_mem {bindings : List (String × Value)}
    (h : ∀ binding ∈ bindings, binding.1 ≠ name) (found : Frame) :
    (found.setAll bindings).get? name = found.get? name := by
  induction bindings generalizing found with
  | nil => rfl
  | cons binding bindings ih =>
      obtain ⟨hbinding, hbindings⟩ := List.forall_mem_cons.mp h
      refine (ih hbindings _).trans ?_
      rw [Frame.get?_set, if_neg (Ne.symm hbinding)]

/-- What is no parameter of a function is seen from its body as from where it was made. -/
theorem Closure.seen?_scope {closure : Closure} (h : name ∉ closure.params) (values : List Value)
    (scopes : List Frame) :
    Store.seen? (closure.scope values :: scopes) name = Store.seen? scopes name := by
  have hnone : (closure.scope values).get? name = none := by
    refine (Frame.get?_setAll_of_not_mem ?_ _).trans rfl
    rintro binding hbinding rfl
    exact h (List.of_mem_zip hbinding).1
  rw [Store.seen?_cons, hnone, Option.none_or]

/-- A function with the right number of arguments is called by evaluating its body in a new
scope. -/
theorem Value.call_function {closure : Closure} (hlength : values.length = closure.params.length)
    (depth : Nat) (s : Store) : Value.call (depth + 1) (.function closure) values s =
      (Stmt.evalBlock (Value.call depth) s.frames.size closure.body .null
        (s.alloc (closure.scope values)).2).map Value.arrived := by
  rw [Value.call, callWith, if_pos hlength]
  rfl

theorem Value.call_function_of_done {closure : Closure}
    (hlength : values.length = closure.params.length)
    (hbody : Stmt.evalBlock (Value.call depth) s.frames.size closure.body .null
      (s.alloc (closure.scope values)).2 = .done value t) (hvalue : value.isSignal = false) :
    Value.call (depth + 1) (.function closure) values s = .done value t := by
  rw [Value.call_function hlength, hbody]
  exact congrArg (Run.done · t) (Value.arrived_of_plain hvalue)

theorem Store.Sees.scope {closure : Closure} (h : s.Sees closure.frame scopes)
    (values : List Value) :
    (s.alloc (closure.scope values)).2.Sees s.frames.size (closure.scope values :: scopes) :=
  h.alloc (Frame.outer_setAll _ _)

theorem Program.eval_of_block {p : Program Label}
    (h : Block.eval depth frame p s = .done value t) :
    Program.eval depth frame p s = .done value.arrived t := by
  rw [Program.eval, ← Block.eval, h]
  rfl

theorem Outcome.ofValue_of_plain {value : Value} (h : value.isSignal = false) :
    Outcome.ofValue value = .ok value := by
  cases value <;> first | rfl | cases h

namespace Session

variable {session : Session} {input : Input} {source : String} {program : Program}

theorem step?_of_read (hread : input.read = .ok program)
    (heval : (program.labelled session.fresh).eval depth session.frame session.store =
      .done value t) :
    session.step? depth input = some (.ofValue value, session.next program t) := by
  simp only [step?, hread, heval]

theorem read_of_parse (h : Program.parse source = .ok program) :
    (Input.text source).read = .ok program := by
  rw [Input.read, h]
  rfl

theorem step?_of_block (hparse : Program.parse source = .ok program)
    (heval : Block.eval depth session.frame (program.labelled session.fresh) session.store =
      .done value t) (hvalue : value.isSignal = false) :
    session.step? depth (.text source) = some (.ok value, session.next program t) := by
  rw [step?_of_read (read_of_parse hparse) (Program.eval_of_block heval),
    Value.arrived_of_plain hvalue, Outcome.ofValue_of_plain hvalue]

theorem step?_of_fault {message : String} (hparse : Program.parse source = .ok program)
    (heval : Block.eval depth session.frame (program.labelled session.fresh) session.store =
      .done (.error message) t) :
    session.step? depth (.text source) =
      some (.error (.fault message), session.next program t) :=
  step?_of_read (read_of_parse hparse) (Program.eval_of_block heval)

end Session

end Rules

end ScriptLang
