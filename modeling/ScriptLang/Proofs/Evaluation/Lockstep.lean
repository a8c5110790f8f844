import ScriptLang.Proofs.Evaluation.Scoping
import ScriptLang.Proofs.Value.Names

/-!
Two evaluations in step with each other.

The same tree is evaluated in two stores that are related.  If the first evaluation ends, then the
second one ends with the same result, and the stores are related again.  A lockstep says what the
relation has to be kept by.  The induction on the tree is done here once, and so is the induction
on how deep calls may nest.  The second evaluation may be allowed more of them.
-/

namespace ScriptLang

/-- The names that a tree mentions. -/
def Node.names : Node → List String
  | .program ss => Stmt.namesEach ss
  | .block ss => Stmt.namesEach ss
  | .statement s => s.names
  | .expression e => e.names

variable {α β : Type}

/-- If the first evaluation ends, then the second one has the same result, and the stores they
leave are related. -/
def Run.Follows (good : α → Prop) (S : Store → Store → Prop) (run run' : Run α) : Prop :=
  run = .tooDeep ∨ ∃ result s t, run = .done result s ∧
    run' = .done result t ∧ good result ∧ S s t

/-- Good values, or a good signal in their place. -/
def GoodAll (Good : Value → Prop) : Except Value (List Value) → Prop
  | .ok values => ∀ value ∈ values, Good value
  | .error signal => Good signal

namespace Run.Follows

variable {S : Store → Store → Prop} {Good : Value → Prop}

theorem done {good : α → Prop} {result : α} {s t : Store} (hresult : good result) (hst : S s t) :
    (Run.done result s).Follows good S (.done result t) :=
  .inr ⟨result, s, t, rfl, rfl, hresult, hst⟩

theorem map {good : α → Prop} {good' : β → Prop} {run run' : Run α} (h : run.Follows good S run')
    {f : α → β} (hf : ∀ result, good result → good' (f result)) :
    (run.map f).Follows good' S (run'.map f) := by
  obtain rfl | ⟨result, s, t, rfl, rfl, hresult, hst⟩ := h
  · exact .inl rfl
  · exact done (hf result hresult) hst

theorem andThen {run run' : Run Value} {next next' : Value → Store → Run Value}
    (h : run.Follows Good S run')
    (hnext : ∀ value s t, Good value → S s t → (next value s).Follows Good S (next' value t)) :
    (run.andThen next).Follows Good S (run'.andThen next') := by
  obtain rfl | ⟨value, s, t, rfl, rfl, hvalue, hst⟩ := h
  · exact .inl rfl
  · rw [Run.andThen, Run.andThen]
    split
    · exact done hvalue hst
    · exact hnext value s t hvalue hst

theorem andThenAll {run run' : Run (Except Value (List Value))}
    {next next' : List Value → Store → Run Value} (h : run.Follows (GoodAll Good) S run')
    (hnext : ∀ values s t, (∀ value ∈ values, Good value) → S s t →
      (next values s).Follows Good S (next' values t)) :
    (run.andThenAll next).Follows Good S (run'.andThenAll next') := by
  obtain rfl | ⟨result, s, t, rfl, rfl, hresult, hst⟩ := h
  · exact .inl rfl
  · cases result with
    | error signal => exact done hresult hst
    | ok values => exact hnext values s t hresult hst

end Run.Follows

namespace Evaluation

/-- What two evaluations have to keep in order to stay in step, if the trees mention only certain
names: a relation between their stores, and a condition on values. -/
structure Lockstep (Names : String → Prop) (S : Store → Store → Prop) (Good : Value → Prop) :
    Prop where
  size_eq : ∀ {s t}, S s t → s.frames.size = t.frames.size
  resolve : ∀ {s t name} frame, S s t → Names name →
    s.resolve frame name = t.resolve frame name ∧ Good (s.resolve frame name)
  set : ∀ {s t name value} frame, S s t → Names name → Good value →
    S (s.set frame name value) (t.set frame name value)
  function : ∀ {closure : Closure}, (∀ name ∈ closure.names, Names name) →
    Good (.function closure)
  scope : ∀ {s t} {closure : Closure} {args}, S s t → (∀ value ∈ args, Good value) →
    S (s.alloc (closure.scope args)).2 (t.alloc (closure.scope args)).2
  body : ∀ {closure}, Good (.function closure) → ∀ name ∈ Stmt.namesEach closure.body, Names name
  /-- This is about operators and builtins, and they look at no store. -/
  values : ∀ frame, Invariant frame (fun _ => False) (fun _ => False) (fun _ _ => True)
    fun _ => Good
  returned : ∀ {value}, Good (.returned value) ↔ Good value
  error : ∀ message, Good (.error message)

variable {Names : String → Prop} {S : Store → Store → Prop} {Good : Value → Prop}
  {call call' : Caller} {frame : FrameId}

/-- Calls of good values follow each other. -/
def CallsFollow (S : Store → Store → Prop) (Good : Value → Prop) (call call' : Caller) : Prop :=
  ∀ callee args s t, Good callee → (∀ value ∈ args, Good value) → S s t →
    (call callee args s).Follows Good S (call' callee args t)

namespace Lockstep

theorem delivered (step : Lockstep Names S Good) {value : Value} (h : value.Delivered Good) :
    Good value := by
  rcases h with h | ⟨message, rfl⟩
  · exact h
  · exact step.error message

theorem signal (step : Lockstep Names S Good) (fault : Fault) : Good fault.signal :=
  step.delivered (fault.delivered Good)

theorem null (step : Lockstep Names S Good) : Good .null :=
  (step.values 0).null .empty

theorem arrived (step : Lockstep Names S Good) {value : Value} (h : Good value) :
    Good value.arrived := by
  cases value with
  | returned inner => exact step.returned.mp h
  | _ => exact h

end Lockstep

mutual

theorem Lockstep.expr (step : Lockstep Names S Good) (hcall : CallsFollow S Good call call') :
    ∀ (e : Expr Label) {s t : Store}, (∀ name ∈ e.names, Names name) → S s t →
      (e.evalWith call frame s).Follows Good S (e.evalWith call' frame t)
  | .ident name, s, t, hnames, hst => by
      rw [Expr.evalWith, Expr.evalWith]
      rw [Expr.names, List.forall_mem_singleton] at hnames
      obtain ⟨hsame, hgood⟩ := step.resolve frame hst hnames
      rw [← hsame]
      exact .done hgood hst
  | .int value, s, t, _, hst => by
      rw [Expr.evalWith, Expr.evalWith]
      exact .done ((step.values frame).integer s value) hst
  | .string text, s, t, _, hst => by
      rw [Expr.evalWith, Expr.evalWith]
      exact .done ((step.values frame).string s text) hst
  | .bool value, s, t, _, hst => by
      rw [Expr.evalWith, Expr.evalWith]
      exact .done ((step.values frame).boolean s value) hst
  | .unary op operand, s, t, hnames, hst => by
      rw [Expr.evalWith, Expr.evalWith]
      rw [Expr.names] at hnames
      apply (step.expr hcall operand hnames hst).andThen
      intro value s t _ hst
      exact .done (step.delivered ((step.values frame).unary (s := s) op value)) hst
  | .binary left op right, s, t, hnames, hst => by
      rw [Expr.evalWith, Expr.evalWith]
      rw [Expr.names, List.forall_mem_append] at hnames
      apply (step.expr hcall left hnames.1 hst).andThen
      intro value s t _ hst
      apply (step.expr hcall right hnames.2 hst).andThen
      intro value' s t _ hst
      exact .done (step.delivered ((step.values frame).binary (s := s) op value value')) hst
  | .cond condition yes no, s, t, hnames, hst => by
      rw [Expr.evalWith, Expr.evalWith]
      rw [Expr.names, List.forall_mem_append, List.forall_mem_append] at hnames
      apply (step.expr hcall condition hnames.1.1 hst).andThen
      intro value s t _ hst
      split
      · exact step.block hcall yes hnames.1.2 step.null hst
      · exact step.otherwise hcall no hnames.2 hst
  | .fn label params body, s, t, hnames, hst => by
      rw [Expr.evalWith, Expr.evalWith]
      exact .done (step.function hnames) hst
  | .call callee args, s, t, hnames, hst => by
      rw [Expr.evalWith, Expr.evalWith]
      rw [Expr.names, List.forall_mem_append] at hnames
      apply (step.expr hcall callee hnames.1 hst).andThen
      intro value s t hvalue hst
      apply (step.each hcall args hnames.2 hst).andThenAll
      intro values s t hvalues hst
      exact hcall value values s t hvalue hvalues hst
  | .array elements, s, t, hnames, hst => by
      rw [Expr.evalWith, Expr.evalWith]
      rw [Expr.names] at hnames
      apply (step.each hcall elements hnames hst).andThenAll
      intro values s t hvalues hst
      exact .done ((step.values frame).array (s := s).mpr hvalues) hst
  | .index collection position, s, t, hnames, hst => by
      rw [Expr.evalWith, Expr.evalWith]
      rw [Expr.names, List.forall_mem_append] at hnames
      apply (step.expr hcall collection hnames.1 hst).andThen
      intro value s t hvalue hst
      apply (step.expr hcall position hnames.2 hst).andThen
      intro key s t _ hst
      exact .done (step.delivered ((step.values frame).index (s := s) hvalue)) hst
  | .hash pairs, s, t, hnames, hst => by
      rw [Expr.evalWith, Expr.evalWith]
      rw [Expr.names] at hnames
      exact step.pairs hcall pairs hnames ((step.values frame).emptyHash s) hst

theorem Lockstep.each (step : Lockstep Names S Good) (hcall : CallsFollow S Good call call') :
    ∀ (es : List (Expr Label)) {s t : Store}, (∀ name ∈ Expr.namesEach es, Names name) → S s t →
      (Expr.evalEach call frame es s).Follows (GoodAll Good) S (Expr.evalEach call' frame es t)
  | [], s, t, _, hst => by
      rw [Expr.evalEach, Expr.evalEach]
      exact .done (by simp [GoodAll]) hst
  | e :: es, s, t, hnames, hst => by
      rw [Expr.evalEach, Expr.evalEach]
      rw [Expr.namesEach, List.forall_mem_append] at hnames
      have hfirst : (e.evalWith call frame s).Follows Good S (e.evalWith call' frame t) :=
        step.expr hcall e hnames.1 hst
      obtain hrun | ⟨value, s, t, hrun, hrun', hvalue, hst⟩ := hfirst
      · rw [hrun]
        exact .inl rfl
      · rw [hrun, hrun']
        dsimp only
        split
        · exact .done hvalue hst
        · apply (step.each hcall es hnames.2 hst).map
          rintro (signal | values) hresult
          · exact hresult
          · exact List.forall_mem_cons.mpr ⟨hvalue, hresult⟩

theorem Lockstep.pairs (step : Lockstep Names S Good) (hcall : CallsFollow S Good call call') :
    ∀ (ps : List (Expr Label × Expr Label)) {entries : List (Entry Value)} {s t : Store},
      (∀ name ∈ Expr.namesPairs ps, Names name) → Good (.hash entries) → S s t →
      (Expr.evalPairs call frame ps entries s).Follows Good S
        (Expr.evalPairs call' frame ps entries t)
  | [], entries, s, t, _, hentries, hst => by
      rw [Expr.evalPairs, Expr.evalPairs]
      exact .done hentries hst
  | (keyExpr, valueExpr) :: ps, entries, s, t, hnames, hentries, hst => by
      rw [Expr.evalPairs, Expr.evalPairs]
      rw [Expr.namesPairs, List.forall_mem_append, List.forall_mem_append] at hnames
      apply (step.expr hcall keyExpr hnames.1.1 hst).andThen
      intro key s t hkey hst
      split
      · exact .done (step.signal _) hst
      · rename_i slot hslot
        apply (step.expr hcall valueExpr hnames.1.2 hst).andThen
        intro value s t hvalue hst
        refine step.pairs hcall ps hnames.2 ?_ hst
        exact (step.values frame).insert (s := s) hentries hkey hvalue hslot

theorem Lockstep.stmt (step : Lockstep Names S Good) (hcall : CallsFollow S Good call call') :
    ∀ (st : Stmt Label) {s t : Store}, (∀ name ∈ st.names, Names name) → S s t →
      (st.evalWith call frame s).Follows Good S (st.evalWith call' frame t)
  | .bind name value, s, t, hnames, hst => by
      rw [Stmt.evalWith, Stmt.evalWith]
      rw [Stmt.names, List.forall_mem_cons] at hnames
      apply (step.expr hcall value hnames.2 hst).andThen
      intro result s t hresult hst
      exact .done hresult (step.set frame hst hnames.1 hresult)
  | .ret none, s, t, _, hst => by
      rw [Stmt.evalWith, Stmt.evalWith]
      exact .done (step.returned.mpr step.null) hst
  | .ret (some value), s, t, hnames, hst => by
      rw [Stmt.evalWith, Stmt.evalWith]
      rw [Stmt.names] at hnames
      apply (step.expr hcall value hnames hst).andThen
      intro result s t hresult hst
      exact .done (step.returned.mpr hresult) hst
  | .expr value, s, t, hnames, hst => by
      rw [Stmt.evalWith, Stmt.evalWith]
      rw [Stmt.names] at hnames
      exact step.expr hcall value hnames hst

theorem Lockstep.block (step : Lockstep Names S Good) (hcall : CallsFollow S Good call call') :
    ∀ (ss : List (Stmt Label)) {value : Value} {s t : Store},
      (∀ name ∈ Stmt.namesEach ss, Names name) →
      Good value → S s t →
      (Stmt.evalBlock call frame ss value s).Follows Good S
        (Stmt.evalBlock call' frame ss value t)
  | [], value, s, t, _, hvalue, hst => by
      rw [Stmt.evalBlock, Stmt.evalBlock]
      exact .done hvalue hst
  | st :: ss, value, s, t, hnames, _, hst => by
      rw [Stmt.evalBlock, Stmt.evalBlock]
      rw [Stmt.namesEach, List.forall_mem_append] at hnames
      apply (step.stmt hcall st hnames.1 hst).andThen
      intro result s t hresult hst
      exact step.block hcall ss hnames.2 hresult hst

theorem Lockstep.otherwise (step : Lockstep Names S Good)
    (hcall : CallsFollow S Good call call') :
    ∀ (no : Option (List (Stmt Label))) {s t : Store},
      (∀ name ∈ Stmt.namesElse no, Names name) → S s t →
      (Stmt.evalElse call frame no s).Follows Good S (Stmt.evalElse call' frame no t)
  | none, s, t, _, hst => by
      rw [Stmt.evalElse, Stmt.evalElse]
      exact .done step.null hst
  | some ss, s, t, hnames, hst => by
      rw [Stmt.evalElse, Stmt.evalElse]
      rw [Stmt.namesElse] at hnames
      exact step.block hcall ss hnames step.null hst

end

section Calls

variable {depth depth' : Nat}

theorem Lockstep.callWith (step : Lockstep Names S Good)
    {enter enter' : Closure → List Value → Store → Run Value}
    (henter : ∀ closure args s t, Good (.function closure) →
      (∀ value ∈ args, Good value) → S s t →
      (enter closure args s).Follows Good S (enter' closure args t)) :
    CallsFollow S Good (callWith enter) (callWith enter') := by
  intro callee args s t hcallee hargs hst
  cases callee with
  | function closure =>
      rw [ScriptLang.callWith, ScriptLang.callWith]
      split
      · exact henter closure args s t hcallee hargs hst
      · exact .done (step.signal _) hst
  | builtin f =>
      exact .done (step.delivered ((step.values 0).apply (s := s) f hargs)) hst
  | _ => exact .done (step.signal _) hst

/-- Entering a function.  The induction is on how deep calls may nest in the first evaluation. -/
theorem Lockstep.enter (step : Lockstep Names S Good)
    (hdepth : depth ≤ depth') (closure : Closure)
    (args : List Value) (s t : Store) (hclosure : Good (.function closure))
    (hargs : ∀ value ∈ args, Good value) (hst : S s t) :
    (enter depth closure args s).Follows Good S (enter depth' closure args t) := by
  induction depth generalizing depth' closure args s t with
  | zero => exact .inl rfl
  | succ depth ih =>
      obtain ⟨larger, rfl⟩ := Nat.exists_eq_add_of_le' (Nat.le_of_add_left_le hdepth)
      have hcall : CallsFollow S Good (ScriptLang.callWith (ScriptLang.enter depth))
          (ScriptLang.callWith (ScriptLang.enter larger)) :=
        step.callWith (ih (Nat.le_of_succ_le_succ hdepth))
      rw [ScriptLang.enter, ScriptLang.enter]
      change ((Stmt.evalBlock _ s.frames.size closure.body .null _).map Value.arrived).Follows
        Good S
        ((Stmt.evalBlock _ t.frames.size closure.body .null _).map Value.arrived)
      rw [← step.size_eq hst]
      exact (step.block hcall closure.body (step.body hclosure)
        step.null (step.scope hst hargs)).map
        fun _ => step.arrived

theorem Lockstep.calls (step : Lockstep Names S Good) (hdepth : depth ≤ depth') :
    CallsFollow S Good (Value.call depth) (Value.call depth') :=
  step.callWith (step.enter hdepth)

theorem Lockstep.node (step : Lockstep Names S Good) (hdepth : depth ≤ depth') (frame : FrameId)
    (node : Node) {s t : Store} (hnames : ∀ name ∈ node.names, Names name) (hst : S s t) :
    (node.eval depth frame s).Follows Good S (node.eval depth' frame t) := by
  have hcall := step.calls hdepth
  cases node with
  | program statements =>
      exact (step.block hcall statements hnames step.null hst).map fun _ => step.arrived
  | block statements => exact step.block hcall statements hnames step.null hst
  | statement statement => exact step.stmt hcall statement hnames hst
  | expression expression => exact step.expr hcall expression hnames hst

end Calls

end Evaluation

end ScriptLang
