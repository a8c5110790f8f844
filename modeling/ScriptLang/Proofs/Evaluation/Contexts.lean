import Mathlib.Data.List.Forall2
import ScriptLang.Proofs.Evaluation.Writes

/-!
Expressions in their surroundings.

A context is an expression or a statement with a place left open in it, however deep.  An
evaluation either gets to the open place or it does not look at what stands there.  If it gets
there, then all that is still to be done waits for the value, and a signal takes the place of the
whole.
-/

namespace ScriptLang

section Sequences

variable {call : Caller} {frame : FrameId}

namespace Run

theorem andThen_of_plain {value : Value} (h : value.isSignal = false) (store : Store)
    (next : Value → Store → Run Value) : (done value store).andThen next = next value store := by
  rw [andThen, h]
  rfl

theorem andThen_of_signal {value : Value} (h : value.isSignal = true) (store : Store)
    (next : Value → Store → Run Value) : (done value store).andThen next = done value store := by
  rw [andThen, if_pos h]

theorem andThen_assoc (run : Run Value) (next last : Value → Store → Run Value) :
    (run.andThen next).andThen last =
      run.andThen fun value store => (next value store).andThen last := by
  cases run with
  | tooDeep => rfl
  | done value store =>
      cases h : value.isSignal with
      | true => rw [andThen_of_signal h, andThen_of_signal h, andThen_of_signal h]
      | false => rw [andThen_of_plain h, andThen_of_plain h]

theorem andThen_done (run : Run Value) : run.andThen .done = run := by
  cases run with
  | tooDeep => rfl
  | done value store =>
      rw [andThen]
      split <;> rfl

end Run

theorem Value.arrived_of_plain {value : Value} (h : value.isSignal = false) :
    value.arrived = value := by
  cases value <;> first | rfl | cases h

theorem Stmt.evalBlock_append {value : Value} (h : value.isSignal = false)
    (before after : List (Stmt Label))
    (store : Store) : Stmt.evalBlock call frame (before ++ after) value store =
      (Stmt.evalBlock call frame before value store).andThen
        (Stmt.evalBlock call frame after) := by
  induction before generalizing value store with
  | nil => rw [List.nil_append, Stmt.evalBlock, Run.andThen_of_plain h]
  | cons s before ih =>
      rw [List.cons_append, Stmt.evalBlock, Stmt.evalBlock, Run.andThen_assoc]
      cases hrun : s.evalWith call frame store with
      | tooDeep => rfl
      | done v t =>
          cases hv : v.isSignal with
          | true => rw [Run.andThen_of_signal hv, Run.andThen_of_signal hv]
          | false => rw [Run.andThen_of_plain hv, Run.andThen_of_plain hv, ih hv]

section Lists

theorem Expr.evalEach_cons_andThenAll (e : Expr Label) (es : List (Expr Label)) (store : Store)
    (next : List Value → Store → Run Value) :
    (Expr.evalEach call frame (e :: es) store).andThenAll next =
      (e.evalWith call frame store).andThen fun value store =>
        (Expr.evalEach call frame es store).andThenAll fun values => next (value :: values) := by
  rw [Expr.evalEach]
  cases e.evalWith call frame store with
  | tooDeep => rfl
  | done value store =>
      cases hvalue : value.isSignal with
      | true =>
          rw [Run.andThen_of_signal hvalue]
          simp only [hvalue, if_true]
          rfl
      | false =>
          rw [Run.andThen_of_plain hvalue]
          simp only [hvalue, Bool.false_eq_true, if_false]
          rcases Expr.evalEach call frame es store with ⟨signal | values, t⟩ | _ <;> rfl

theorem Expr.evalEach_append_andThenAll (before after : List (Expr Label)) (store : Store)
    (next : List Value → Store → Run Value) :
    (Expr.evalEach call frame (before ++ after) store).andThenAll next =
      (Expr.evalEach call frame before store).andThenAll fun values store =>
        (Expr.evalEach call frame after store).andThenAll fun more => next (values ++ more) := by
  induction before generalizing store next with
  | nil => rfl
  | cons e before ih =>
      rw [List.cons_append, Expr.evalEach_cons_andThenAll, Expr.evalEach_cons_andThenAll]
      congr 1
      funext value t
      exact ih t _

/-- The entries of a hash.  No other value has any. -/
def Value.entries : Value → List (Entry Value)
  | .hash entries => entries
  | _ => []

theorem Expr.evalPairs_append (before after : List (Expr Label × Expr Label))
    (entries : List (Entry Value))
    (store : Store) : Expr.evalPairs call frame (before ++ after) entries store =
      (Expr.evalPairs call frame before entries store).andThen fun hash store =>
        Expr.evalPairs call frame after hash.entries store := by
  induction before generalizing entries store with
  | nil => rfl
  | cons pair before ih =>
      obtain ⟨keyExpr, valueExpr⟩ := pair
      rw [List.cons_append, Expr.evalPairs, Expr.evalPairs, Run.andThen_assoc]
      congr 1
      funext key t
      cases key.hashKey? with
      | none => rfl
      | some slot =>
          dsimp only
          rw [Run.andThen_assoc]
          congr 1
          funext value u
          exact ih _ u

end Lists

end Sequences

section Places

/-- A statement with a place for an expression. -/
inductive Slot where
  | bind (name : String)
  | ret
  | expr

def Slot.fill (e : Expr Label) : Slot → Stmt Label
  | .bind name => .bind name e
  | .ret => .ret (some e)
  | .expr => .expr e

/-- An expression with a place for another one, one level down. -/
inductive Layer where
  | operand (op : UnaryOp)
  | left (op : BinaryOp) (second : Expr Label)
  | right (first : Expr Label) (op : BinaryOp)
  | condition (ifTrue : Block Label) (ifFalse : Option (Block Label))
  | yes (test : Expr Label) (before : Block Label) (slot : Slot) (after : Block Label)
      (ifFalse : Option (Block Label))
  | no (test : Expr Label) (ifTrue : Block Label) (before : Block Label)
      (slot : Slot) (after : Block Label)
  | callee (args : List (Expr Label))
  | argument (function : Expr Label) (before after : List (Expr Label))
  | element (before after : List (Expr Label))
  | collection (index : Expr Label)
  | position (within : Expr Label)
  | key (before : List (Expr Label × Expr Label)) (filed : Expr Label)
      (after : List (Expr Label × Expr Label))
  | value (before : List (Expr Label × Expr Label)) (under : Expr Label)
      (after : List (Expr Label × Expr Label))

def Layer.fill (e : Expr Label) : Layer → Expr Label
  | .operand op => .unary op e
  | .left op second => .binary e op second
  | .right first op => .binary first op e
  | .condition ifTrue ifFalse => .cond e ifTrue ifFalse
  | .yes test before slot after ifFalse => .cond test (before ++ slot.fill e :: after) ifFalse
  | .no test ifTrue before slot after => .cond test ifTrue (some (before ++ slot.fill e :: after))
  | .callee args => .call e args
  | .argument function before after => .call function (before ++ e :: after)
  | .element before after => .array (before ++ e :: after)
  | .collection index => .index e index
  | .position within => .index within e
  | .key before filed after => .hash (before ++ (e, filed) :: after)
  | .value before under after => .hash (before ++ (under, e) :: after)

/-- A tree with a place for an expression at any depth, the outermost layer first. -/
inductive Context where
  | expression (layers : List Layer)
  | statement (slot : Slot) (layers : List Layer)

/-- An expression within layers, the outermost first. -/
def Layer.fillAll (e : Expr Label) (layers : List Layer) : Expr Label :=
  layers.foldr (fun layer inner => layer.fill inner) e

def Context.fill (e : Expr Label) : Context → Node
  | .expression layers => .expression (Layer.fillAll e layers)
  | .statement slot layers => .statement (slot.fill (Layer.fillAll e layers))

/-- Two layers that differ at most in what is not evaluated before the place: what comes after it,
and the branch that it does not stand in. -/
inductive Layer.Variant : Layer → Layer → Prop where
  | operand (op) : Variant (.operand op) (.operand op)
  | left (op e e') : Variant (.left op e) (.left op e')
  | right (e op) : Variant (.right e op) (.right e op)
  | condition (ss ss' no no') : Variant (.condition ss no) (.condition ss' no')
  | yes (test before slot ss ss' no no') :
      Variant (.yes test before slot ss no) (.yes test before slot ss' no')
  | no (test yes yes' before slot ss ss') :
      Variant (.no test yes before slot ss) (.no test yes' before slot ss')
  | callee (es es') : Variant (.callee es) (.callee es')
  | argument (e before es es') : Variant (.argument e before es) (.argument e before es')
  | element (before es es') : Variant (.element before es) (.element before es')
  | collection (e e') : Variant (.collection e) (.collection e')
  | position (e) : Variant (.position e) (.position e)
  | key (before e e' ps ps') : Variant (.key before e ps) (.key before e' ps')
  | value (before e ps ps') : Variant (.value before e ps) (.value before e ps')

/-- Two contexts that differ at most in what is not evaluated before the place. -/
inductive Context.Variant : Context → Context → Prop where
  | expression {layers layers'} (h : List.Forall₂ Layer.Variant layers layers') :
      Variant (.expression layers) (.expression layers')
  | statement (slot) {layers layers'} (h : List.Forall₂ Layer.Variant layers layers') :
      Variant (.statement slot layers) (.statement slot layers')

end Places

section Reach

/-- Goes on only from a plain value. -/
def Run.then? (run : Run Value) (next : Value → Store → Option Store) : Option Store :=
  match run with
  | .done value store => if value.isSignal then none else next value store
  | .tooDeep => none

/-- Goes on only from a list of plain values. -/
def Run.thenAll? (run : Run (Except Value (List Value)))
    (next : List Value → Store → Option Store) : Option Store :=
  match run with
  | .done (.ok values) store => next values store
  | _ => none

/-- The store in which the expression in the place is evaluated, if it is evaluated at all.  All
that comes before it has to give plain values, the branch that it stands in has to be taken, and a
value of a hash is not evaluated unless its key can be filed. -/
def Layer.reach? (call : Caller) (frame : FrameId) (store : Store) : Layer → Option Store
  | .operand _ | .left _ _ | .condition _ _ | .callee _ | .collection _ => some store
  | .right first _ => (first.evalWith call frame store).then? fun _ store => some store
  | .yes test before _ _ _ =>
      (test.evalWith call frame store).then? fun value store =>
        if value.isTruthy then
          (Stmt.evalBlock call frame before .null store).then? fun _ store => some store
        else none
  | .no test _ before _ _ =>
      (test.evalWith call frame store).then? fun value store =>
        if value.isTruthy then none
        else (Stmt.evalBlock call frame before .null store).then? fun _ store => some store
  | .argument function before _ =>
      (function.evalWith call frame store).then? fun _ store =>
        (Expr.evalEach call frame before store).thenAll? fun _ store => some store
  | .element before _ =>
      (Expr.evalEach call frame before store).thenAll? fun _ store => some store
  | .position within => (within.evalWith call frame store).then? fun _ store => some store
  | .key before _ _ => (Expr.evalPairs call frame before [] store).then? fun _ store => some store
  | .value before under _ =>
      (Expr.evalPairs call frame before [] store).then? fun _ store =>
        (under.evalWith call frame store).then? fun key store =>
          if key.hashKey?.isSome then some store else none

def Layer.reachAll? (call : Caller) (frame : FrameId) : Store → List Layer → Option Store
  | store, [] => some store
  | store, layer :: layers =>
      (layer.reach? call frame store).bind fun store => Layer.reachAll? call frame store layers

/-- The store in which the expression in the place of a context is evaluated, if it is. -/
def Context.reach? (depth : Nat) (frame : FrameId) (store : Store) : Context → Option Store
  | .expression layers | .statement _ layers =>
      Layer.reachAll? (Value.call depth) frame store layers

end Reach

namespace Evaluation

/-- What an evaluation makes of the expression that stands in some place.  If the place is
reached, the expression is evaluated in that store and all that is left to do waits for its value.
Otherwise the evaluation is the same whatever stands there. -/
def Looks (call : Caller) (frame : FrameId) (run : Expr Label → Run Value) : Option Store → Prop
  | some store => ∃ next, ∀ e, run e = (e.evalWith call frame store).andThen next
  | none => ∃ ending, ∀ e, run e = ending

namespace Looks

variable {call : Caller} {frame : FrameId} {reached : Option Store}

theorem here (store : Store) :
    Looks call frame (fun e => e.evalWith call frame store) (some store) :=
  ⟨.done, fun _ => (Run.andThen_done _).symm⟩

theorem andThen {run : Expr Label → Run Value} (h : Looks call frame run reached)
    (next : Value → Store → Run Value) :
    Looks call frame (fun e => (run e).andThen next) reached := by
  cases reached with
  | none =>
      obtain ⟨ending, hrun⟩ := h
      exact ⟨ending.andThen next, fun e => congrArg (Run.andThen · next) (hrun e)⟩
  | some store =>
      obtain ⟨first, hrun⟩ := h
      refine ⟨fun value store => (first value store).andThen next, ?_⟩
      intro e
      change (run e).andThen next = _
      rw [hrun, Run.andThen_assoc]

theorem after (first : Run Value) {run : Value → Store → Expr Label → Run Value}
    {reached : Value → Store → Option Store}
    (h : ∀ value store, Looks call frame (run value store) (reached value store)) :
    Looks call frame (fun e => first.andThen fun value store => run value store e)
      (first.then? reached) := by
  cases first with
  | tooDeep => exact ⟨.tooDeep, fun _ => rfl⟩
  | done value store =>
      cases hvalue : value.isSignal with
      | true =>
          simp only [Run.then?, hvalue, if_true]
          exact ⟨.done value store, fun _ => Run.andThen_of_signal hvalue _ _⟩
      | false =>
          simp only [Run.then?, hvalue, Run.andThen_of_plain hvalue]
          exact h value store

theorem afterAll (first : Run (Except Value (List Value)))
    {run : List Value → Store → Expr Label → Run Value}
    {reached : List Value → Store → Option Store}
    (h : ∀ values store, Looks call frame (run values store) (reached values store)) :
    Looks call frame (fun e => first.andThenAll fun values store => run values store e)
      (first.thenAll? reached) := by
  rcases first with ⟨signal | values, store⟩ | _
  · exact ⟨.done signal store, fun _ => rfl⟩
  · exact h values store
  · exact ⟨.tooDeep, fun _ => rfl⟩

theorem slot (slot : Slot) (store : Store) :
    Looks call frame (fun e => (slot.fill e).evalWith call frame store) (some store) := by
  cases slot with
  | bind name =>
      simp only [Slot.fill, Stmt.evalWith]
      exact (here store).andThen _
  | ret =>
      simp only [Slot.fill, Stmt.evalWith]
      exact (here store).andThen _
  | expr =>
      simp only [Slot.fill, Stmt.evalWith]
      exact here store

theorem block (before : Block Label) (slot : Slot) (behind : Block Label) (store : Store) :
    Looks call frame
      (fun e => Stmt.evalBlock call frame (before ++ slot.fill e :: behind) .null store)
      ((Stmt.evalBlock call frame before .null store).then? fun _ store => some store) := by
  have hplain : Value.null.isSignal = false := rfl
  simp only [Stmt.evalBlock_append hplain, Stmt.evalBlock]
  exact after _ fun _ store => (Looks.slot slot store).andThen _

theorem each (before behind : List (Expr Label)) (store : Store)
    (next : List Value → Store → Run Value) :
    Looks call frame
      (fun e => (Expr.evalEach call frame (before ++ e :: behind) store).andThenAll next)
      ((Expr.evalEach call frame before store).thenAll? fun _ store => some store) := by
  simp only [Expr.evalEach_append_andThenAll, Expr.evalEach_cons_andThenAll]
  exact afterAll _ fun _ store => (here store).andThen _

theorem layer (layer : Layer) (store : Store) :
    Looks call frame (fun e => (layer.fill e).evalWith call frame store)
      (layer.reach? call frame store) := by
  cases layer with
  | operand op | left op second | callee args | collection index =>
      simp only [Layer.fill, Expr.evalWith, Layer.reach?]
      exact (here store).andThen _
  | condition ifTrue ifFalse =>
      simp only [Layer.fill, Expr.evalWith, Layer.reach?]
      exact (here store).andThen _
  | right first op =>
      simp only [Layer.fill, Expr.evalWith, Layer.reach?]
      exact after _ fun _ store => (here store).andThen _
  | position within =>
      simp only [Layer.fill, Expr.evalWith, Layer.reach?]
      exact after _ fun _ store => (here store).andThen _
  | yes test before slot behind ifFalse =>
      simp only [Layer.fill, Expr.evalWith, Layer.reach?]
      refine after _ fun value store => ?_
      split
      · exact block before slot behind store
      · exact ⟨_, fun _ => rfl⟩
  | no test ifTrue before slot behind =>
      simp only [Layer.fill, Expr.evalWith, Stmt.evalElse, Layer.reach?]
      refine after _ fun value store => ?_
      split
      · exact ⟨_, fun _ => rfl⟩
      · exact block before slot behind store
  | argument function before behind =>
      simp only [Layer.fill, Expr.evalWith, Layer.reach?]
      exact after _ fun _ store => each before behind store _
  | element before behind =>
      simp only [Layer.fill, Expr.evalWith, Layer.reach?]
      exact each before behind store _
  | key before filed behind =>
      simp only [Layer.fill, Expr.evalWith, Expr.evalPairs_append, Expr.evalPairs, Layer.reach?]
      exact after _ fun _ store => (here store).andThen _
  | value before under behind =>
      simp only [Layer.fill, Expr.evalWith, Expr.evalPairs_append, Expr.evalPairs, Layer.reach?]
      refine after _ fun _ store => after _ fun key store => ?_
      cases key.hashKey? with
      | none => exact ⟨_, fun _ => rfl⟩
      | some slot => exact (here store).andThen _

theorem layers (layers : List Layer) (store : Store) :
    Looks call frame (fun e => (Layer.fillAll e layers).evalWith call frame store)
      (Layer.reachAll? call frame store layers) := by
  induction layers generalizing store with
  | nil => exact here store
  | cons outer layers ih =>
      have houter : Looks call frame _ _ := layer outer store
      rw [Layer.reachAll?]
      cases hreach : outer.reach? call frame store with
      | none =>
          rw [hreach] at houter
          obtain ⟨ending, hrun⟩ := houter
          exact ⟨ending, fun e => hrun (Layer.fillAll e layers)⟩
      | some inner =>
          rw [hreach] at houter
          obtain ⟨next, hrun⟩ := houter
          have hall := (ih inner).andThen next
          simp only [← hrun] at hall
          exact hall

theorem context (c : Context) (depth : Nat) (frame : FrameId) (store : Store) :
    Looks (Value.call depth) frame (fun e => (c.fill e).eval depth frame store)
      (c.reach? depth frame store) := by
  cases c with
  | expression layers => exact Looks.layers layers store
  | statement slot layers =>
      have hlooks : Looks (Value.call depth) frame _ _ := Looks.slot slot store
      obtain ⟨next, hslot⟩ := hlooks
      have hall : Looks (Value.call depth) frame _ _ := (Looks.layers layers store).andThen next
      simp only [← hslot] at hall
      exact hall

end Looks

end Evaluation

section Variants

variable {call : Caller} {frame : FrameId}

theorem Layer.Variant.reach?_eq {layer layer' : Layer}
    (h : layer.Variant layer') (store : Store) :
    layer'.reach? call frame store = layer.reach? call frame store := by
  cases h <;> rfl

theorem Layer.reachAll?_eq_of_variants {layers layers' : List Layer}
    (h : List.Forall₂ Layer.Variant layers layers') (store : Store) :
    Layer.reachAll? call frame store layers' = Layer.reachAll? call frame store layers := by
  induction h generalizing store with
  | nil => rfl
  | cons hfirst _ ih => simp only [Layer.reachAll?, hfirst.reach?_eq, ih]

theorem Context.Variant.reach?_eq {c c' : Context} (h : c.Variant c') (depth : Nat)
    (store : Store) : c'.reach? depth frame store = c.reach? depth frame store := by
  cases h with
  | expression h => exact Layer.reachAll?_eq_of_variants h store
  | statement slot h => exact Layer.reachAll?_eq_of_variants h store

end Variants

/-- A signal is handed on by all that encloses it, unchanged and at once.  If an evaluation of a
context gets to the expression in its place, and that gives a signal, then the whole gives this
signal and leaves this store, whatever stands behind the place.  If it does not get there, then it
does not depend on what stands in the place. -/
theorem signal_replaces_context (depth : Nat) (frame : FrameId) (c : Context) (s : Store) :
    (∀ t, c.reach? depth frame s = some t → ∀ e signal u, e.eval depth frame t = .done signal u →
      signal.isSignal = true → (c.fill e).eval depth frame s = .done signal u ∧
        ∀ c', c.Variant c' → (c'.fill e).eval depth frame s = .done signal u) ∧
    (c.reach? depth frame s = none → ∀ e e',
      (c.fill e).eval depth frame s = (c.fill e').eval depth frame s) := by
  have handed {c : Context} {t u : Store} {e : Expr Label} {signal : Value}
      (hreach : c.reach? depth frame s = some t) (he : e.eval depth frame t = .done signal u)
      (hsignal : signal.isSignal = true) : (c.fill e).eval depth frame s = .done signal u := by
    have hlooks := Evaluation.Looks.context c depth frame s
    rw [hreach] at hlooks
    obtain ⟨next, hrun⟩ := hlooks
    have hfill := hrun e
    rw [← Expr.eval, he, Run.andThen_of_signal hsignal] at hfill
    exact hfill
  constructor
  · intro t hreach e signal u he hsignal
    refine ⟨handed hreach he hsignal, ?_⟩
    intro c' hvariant
    exact handed (hvariant.reach?_eq depth s ▸ hreach) he hsignal
  · intro hreach e e'
    have hlooks := Evaluation.Looks.context c depth frame s
    rw [hreach] at hlooks
    obtain ⟨ending, hrun⟩ := hlooks
    exact (hrun e).trans (hrun e').symm

/-- A value returned from within a branch, within a hash, within an array: the binding around it
is not made, and what stands behind it in the array and in the branch may be anything. -/
theorem return_replaces_binding :
    let around (others : List (Expr Label)) (more : Block Label) : Context :=
      .statement (.bind "x") [.element [.int 1] others, .value [(.int 1, .int 2)] (.bool true) [],
        .yes (.bool true) [.bind "z" (.int 2)] .expr more none]
    let e : Expr Label := .cond (.bool true) [.ret (some (.ident "z"))] none
    let s : Store := ⟨#[⟨none, []⟩]⟩
    let t : Store := ⟨#[⟨none, [("z", .integer 2)]⟩]⟩
    (around [.ident "y"] []).reach? 0 0 s = some t ∧
      e.eval 0 0 t = .done (.returned (.integer 2)) t ∧
      ((around [.ident "y"] []).fill e).eval 0 0 s = .done (.returned (.integer 2)) t ∧
      ((around [] [.ret none]).fill e).eval 0 0 s = .done (.returned (.integer 2)) t := by
  intro around e s t
  have hreach : (around [.ident "y"] []).reach? 0 0 s = some t := rfl
  have he : e.eval 0 0 t = .done (.returned (.integer 2)) t := rfl
  obtain ⟨hwhole, hvariants⟩ :=
    (signal_replaces_context 0 0 (around [.ident "y"] []) s).1 t hreach e _ t he rfl
  refine ⟨hreach, he, hwhole, hvariants _ ?_⟩
  exact .statement _ (.cons (.element ..) (.cons (.value ..) (.cons (.yes ..) .nil)))

end ScriptLang
