import ScriptLang.Proofs.Evaluation.Rules
import ScriptLang.Proofs.Evaluation.Signals

namespace ScriptLang

/-- The program that an input spells, if it is text and follows the grammar. -/
def Input.program? (input : Input) : Option Program :=
  input.read.toOption

/-- A failure to read the input.  Nothing was evaluated. -/
def Failure.isUnread : Failure → Bool
  | .malformed _ | .notText => true
  | .fault _ => false

def Outcome.isUnread : Outcome → Bool
  | .error failure => failure.isUnread
  | .ok _ => false

/-- Evaluates statements one by one, and lists what each of them gives. -/
def Stmt.evalSingly (depth : Nat) (frame : FrameId) :
    List (Stmt Label) → Store → Run (List Value)
  | [], store => .done [] store
  | s :: ss, store =>
      match s.eval depth frame store with
      | .tooDeep => .tooDeep
      | .done value store => (Stmt.evalSingly depth frame ss store).map (value :: ·)

section Unread

variable {depth : Nat} {session after : Session} {input : Input} {program : Program}
  {outcome : Outcome}

theorem Outcome.isUnread_ofValue (value : Value) : (Outcome.ofValue value).isUnread = false := by
  cases value <;> rfl

theorem Input.isUnread_of_read {failure : Failure} (h : input.read = .error failure) :
    failure.isUnread = true := by
  have hparse {source : String}
      (h : (Program.parse source).mapError .malformed = .error failure) :
      failure.isUnread = true := by
    cases hsource : Program.parse source with
    | error diagnostics =>
        rw [hsource] at h
        cases h
        rfl
    | ok program =>
        rw [hsource] at h
        cases h
  cases input with
  | text source => exact hparse h
  | bytes content =>
      rw [Input.read] at h
      split at h
      · cases h
        rfl
      · exact hparse h

namespace Session

theorem step?_of_unread (h : input.program? = none) : ∃ outcome : Outcome,
    outcome.isUnread = true ∧
      ∀ depth (session : Session), session.step? depth input = some (outcome, session) := by
  rw [Input.program?] at h
  cases hread : input.read with
  | error failure =>
      refine ⟨.error failure, Input.isUnread_of_read hread, fun depth session => ?_⟩
      simp only [step?, hread]
  | ok program =>
      rw [hread] at h
      cases h

theorem isUnread_iff_of_step? (hstep : session.step? depth input = some (outcome, after)) :
    outcome.isUnread = true ↔ input.program? = none := by
  rw [Input.program?]
  obtain ⟨failure, hread, rfl, -⟩ | ⟨program, value, store, hread, -, rfl, -⟩ := step?_cases hstep
  · rw [hread]
    exact iff_of_true (Input.isUnread_of_read hread) rfl
  · rw [hread, Outcome.isUnread_ofValue]
    exact iff_of_false Bool.false_ne_true (Option.some_ne_none program)

theorem steps?_cons {next : Session} (hstep : session.step? depth input = some (outcome, next))
    (inputs : List Input) : session.steps? depth (input :: inputs) =
      (next.steps? depth inputs).map fun (outcomes, after) => (outcome :: outcomes, after) := by
  simp only [steps?, hstep]

/-- Inputs that cannot be read may be left out. -/
theorem steps?_filter_program (depth : Nat) (session : Session) (inputs : List Input) :
    session.steps? depth (inputs.filter fun input => input.program?.isSome) =
      (session.steps? depth inputs).map fun (outcomes, after) =>
        (outcomes.filter fun outcome => !outcome.isUnread, after) := by
  induction inputs generalizing session with
  | nil => rfl
  | cons input inputs ih =>
      cases hprogram : input.program? with
      | none =>
          obtain ⟨outcome, hunread, hstep⟩ := step?_of_unread hprogram
          rw [List.filter_cons_of_neg (by simp [hprogram]), ih, steps?_cons (hstep depth session),
            Option.map_map]
          congr 1
          funext ⟨outcomes, after⟩
          simp [hunread]
      | some program =>
          rw [List.filter_cons_of_pos (by simp [hprogram])]
          cases hstep : session.step? depth input with
          | none => simp only [steps?, hstep, Option.map_none]
          | some result =>
              obtain ⟨outcome, next⟩ := result
              have hread : outcome.isUnread = false := by
                rw [← Bool.not_eq_true, isUnread_iff_of_step? hstep, hprogram]
                simp
              rw [steps?_cons hstep, steps?_cons hstep, ih, Option.map_map, Option.map_map]
              congr 1
              funext ⟨outcomes, after⟩
              simp [hread]

end Session

end Unread

section Faults

variable {depth : Nat} {frame : FrameId} {value : Value} {store after : Store}

/-- A signal that comes out of a block comes out of one of its statements, and the statements
before it were evaluated one by one. -/
theorem Stmt.exists_of_evalBlock_signal {ss : List (Stmt Label)} {start : Value}
    (h : Stmt.evalBlock (Value.call depth) frame ss start store = .done value after)
    (hstart : start.isSignal = false) (hvalue : value.isSignal = true) :
    ∃ before s rest values mid, ss = before ++ s :: rest ∧
      Stmt.evalSingly depth frame before store = .done values mid ∧
      (∀ v ∈ values, v.isSignal = false) ∧ s.eval depth frame mid = .done value after := by
  induction ss generalizing start store with
  | nil =>
      cases h
      exact absurd (hstart.symm.trans hvalue) Bool.noConfusion
  | cons s ss ih =>
      rw [Stmt.evalBlock, ← Stmt.eval] at h
      cases hs : s.eval depth frame store with
      | tooDeep => simp [hs, Run.andThen] at h
      | done first mid =>
          rw [hs] at h
          cases hfirst : first.isSignal with
          | true =>
              rw [Run.andThen_of_signal hfirst] at h
              exact ⟨[], s, ss, [], store, rfl, rfl, by simp, hs.trans h⟩
          | false =>
              rw [Run.andThen_of_plain hfirst] at h
              obtain ⟨before, t, rest, values, last, rfl, hbefore, hvalues, ht⟩ := ih h hfirst
              refine ⟨s :: before, t, rest, first :: values, last, rfl, ?_, ?_, ht⟩
              · simp only [Stmt.evalSingly, hs, hbefore, Run.map]
              · exact List.forall_mem_cons.mpr ⟨hfirst, hvalues⟩

theorem Stmt.eval_of_failed_bind {x : String} {e : Expr Label} {message : String}
    (h : (Stmt.bind x e).eval depth frame store = .done (.error message) after) :
    e.eval depth frame store = .done (.error message) after := by
  rw [Stmt.eval, Stmt.evalWith, ← Expr.eval] at h
  cases he : e.eval depth frame store with
  | tooDeep => simp [he, Run.andThen] at h
  | done result mid =>
      rw [he] at h
      cases hresult : result.isSignal with
      | true => rwa [Run.andThen_of_signal hresult] at h
      | false =>
          rw [Run.andThen_of_plain hresult] at h
          cases h
          cases hresult

theorem Outcome.ofValue_eq_fault {message : String}
    (h : Outcome.ofValue value = .error (.fault message)) : value = .error message := by
  cases value <;> cases h
  rfl

theorem Program.evalBlock_of_fault {program : Program Label} {message : String}
    (hstore : store.Clean)
    (h : program.eval depth frame store = .done (.error message) after) :
    Stmt.evalBlock (Value.call depth) frame program .null store =
      .done (.error message) after := by
  have hclean := (Evaluation.signalFree_invariant frame).block (Evaluation.call_delivers depth)
    program (fun _ _ => trivial) (.inl (.inl .null)) hstore
  rw [Program.eval] at h
  cases hblock : Stmt.evalBlock (Value.call depth) frame program .null store with
  | tooDeep => simp [hblock, Run.map] at h
  | done result last =>
      rw [hblock] at h hclean
      simp only [Run.map, Run.done.injEq] at h
      obtain ⟨harrived, rfl⟩ := h
      cases result with
      | error text =>
          cases harrived
          rfl
      | returned inner =>
          obtain ⟨-, -, (hfree | ⟨text, heq⟩) | ⟨found, heq, hfree⟩⟩ := hclean
          · cases hfree
          · cases heq
          · cases heq
            rw [Value.arrived] at harrived
            subst harrived
            cases hfree
      | _ => cases harrived

end Faults

/-- What failures leave behind.  Whether an input can be read shows in what comes of it, and
leaving out all inputs that cannot be read changes neither the other outcomes nor the session at
the end.  An input that ends in a runtime error leaves behind what its statements leave when they
are evaluated one by one up to the first one that gives an error, and if that one is a binding,
what its expression alone leaves. -/
theorem Session.failures_leave_exactly_their_effects (depth : Nat) :
    (∀ (session : Session) (input : Input) outcome after,
      session.step? depth input = some (outcome, after) →
        (outcome.isUnread = true ↔ input.program? = none)) ∧
    (∀ (session : Session) (inputs : List Input),
      session.steps? depth (inputs.filter fun input => input.program?.isSome) =
        (session.steps? depth inputs).map fun (outcomes, after) =>
          (outcomes.filter fun outcome => !outcome.isUnread, after)) ∧
    ∀ history outcomes session, Session.start.steps? depth history = some (outcomes, session) →
      ∀ input message after, session.step? depth input = some (.error (.fault message), after) →
        ∃ program before s rest values mid, input.program? = some program ∧
          program.labelled session.fresh = before ++ s :: rest ∧
          Stmt.evalSingly depth session.frame before session.store = .done values mid ∧
          (∀ v ∈ values, v.isSignal = false) ∧
          s.eval depth session.frame mid = .done (.error message) after.store ∧
          (∀ x e, s = .bind x e →
            e.eval depth session.frame mid = .done (.error message) after.store) ∧
          after.frame = session.frame := by
  refine ⟨fun _ _ _ _ hstep => isUnread_iff_of_step? hstep, steps?_filter_program depth, ?_⟩
  intro history outcomes session hhistory input message after hstep
  have hclean := (steps?_clean start_clean hhistory).1
  obtain ⟨failure, hread, hfailure, -⟩ | ⟨program, value, store, hread, heval, houtcome, rfl⟩ :=
    step?_cases hstep
  · cases hfailure
    cases Input.isUnread_of_read hread
  · obtain rfl := Outcome.ofValue_eq_fault houtcome.symm
    have hblock := Program.evalBlock_of_fault hclean heval
    obtain ⟨before, s, rest, values, mid, hsplit, hbefore, hvalues, hs⟩ :=
      Stmt.exists_of_evalBlock_signal hblock rfl rfl
    refine ⟨program, before, s, rest, values, mid, ?_, hsplit, hbefore, hvalues, hs, ?_, rfl⟩
    · rw [Input.program?, hread]
      rfl
    · rintro x e rfl
      exact Stmt.eval_of_failed_bind hs

/-- A binding that fails within a branch, after another binding there. -/
theorem Session.failed_binding_leaves_inner_binding :
    ∃ after : Session,
      Session.start.step? 0 (.text "let a = if (true) \x7b let b = 1; c \x7d;") =
        some (.error (.fault "identifier not found: c"), after) ∧
      (after.store.getHere? after.frame "a").isNone ∧
      after.store.getHere? after.frame "b" = some (.integer 1) ∧
      ∃ program before s rest values mid,
        Input.program? (.text "let a = if (true) \x7b let b = 1; c \x7d;") = some program ∧
        program.labelled Session.start.fresh = before ++ s :: rest ∧
        Stmt.evalSingly 0 Session.start.frame before Session.start.store = .done values mid ∧
        (∀ v ∈ values, v.isSignal = false) ∧
        s.eval 0 Session.start.frame mid =
          .done (.error "identifier not found: c") after.store ∧
        (∀ x e, s = .bind x e → e.eval 0 Session.start.frame mid =
          .done (.error "identifier not found: c") after.store) ∧
        after.frame = Session.start.frame := by
  let body : Block := [.bind "b" (.int 1), .expr (.ident "c")]
  have hparse : Program.parse "let a = if (true) \x7b let b = 1; c \x7d;" =
      .ok [.bind "a" (.cond (.bool true) body none)] := by
    decide +kernel
  obtain ⟨after, hstep, ha, hb⟩ : ∃ after : Session,
      Session.start.step? 0 (.text "let a = if (true) \x7b let b = 1; c \x7d;") =
        some (.error (.fault "identifier not found: c"), after) ∧
      (after.store.getHere? after.frame "a").isNone ∧
      after.store.getHere? after.frame "b" = some (.integer 1) := by
    exact ⟨_, step?_of_fault hparse rfl, rfl, rfl⟩
  exact ⟨after, hstep, ha, hb, (Session.failures_leave_exactly_their_effects 0).2.2 [] []
    Session.start rfl _ _ after hstep⟩

end ScriptLang
