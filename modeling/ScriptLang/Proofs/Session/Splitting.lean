import ScriptLang.Proofs.Evaluation.Depth
import ScriptLang.Proofs.Evaluation.Rules
import ScriptLang.Proofs.Grammar.Extension
import ScriptLang.Proofs.Parser.Exactness
import ScriptLang.Proofs.Program.Labels
import ScriptLang.Proofs.Token.Joining

namespace ScriptLang

open Grammar

theorem Program.parse_append {a b : String} {p q : Program} (ha : Program.parse a = .ok p)
    (hcomplete : Token.Complete (Token.words a.toList)) (hb : Program.parse b = .ok q) :
    Program.parse (a ++ b) = .ok (p ++ q) := by
  rw [Program.parse_eq_ok_iff_reads] at ha hb ⊢
  obtain ⟨last, hlast, hkind⟩ := hcomplete.ended
  rw [String.toList_append, Token.words_append hlast hkind]
  have hfirst := ha.extend hcomplete.not_unended hcomplete.surplus_eq_zero (Token.words b.toList)
  exact hfirst.statements_append hb

/-- What was evaluated before counts only if there is nothing to evaluate. -/
theorem Stmt.evalBlock_of_ne_nil {call : Caller} {frame : FrameId} {ss : List (Stmt Label)}
    (h : ss ≠ []) (value value' : Value) (store : Store) :
    Stmt.evalBlock call frame ss value store = Stmt.evalBlock call frame ss value' store := by
  cases ss with
  | nil => exact absurd rfl h
  | cons s ss => rw [Stmt.evalBlock, Stmt.evalBlock]

namespace Program

variable {depth : Nat} {frame : FrameId} {p q : Program Label} {value : Value}
  {store after : Store}

/-- Two programs in a row are evaluated as one behind the other, if the first one gets to its
end. -/
theorem eval_append (h : Block.eval depth frame p store = .done value after)
    (hvalue : value.isSignal = false) (hq : q ≠ []) :
    Program.eval depth frame (p ++ q) store = Program.eval depth frame q after := by
  rw [Block.eval] at h
  rw [Program.eval, Stmt.evalBlock_append rfl, h, Run.andThen_of_plain hvalue,
    Stmt.evalBlock_of_ne_nil hq value .null, ← Program.eval]

end Program

namespace Session

theorem next_append (session : Session) (p q : Program) (store after : Store) :
    session.next (p ++ q) after = (session.next p store).next q after := by
  rw [next, next, next, Program.lambdas_append, List.length_append, ← Nat.add_assoc]

/-- A program may be split over the steps of a session.  If evaluating the first part gets to its
end, then both parts at once give what the second part gives after the first, and leave the same
session, at every allowance that is enough for the first part. -/
theorem split_program_steps (session : Session) {a b : String} {p q : Program}
    (ha : Program.parse a = .ok p) (hcomplete : Token.Complete (Token.words a.toList))
    (hb : Program.parse b = .ok q) (hq : q ≠ []) {enough : Nat} {value : Value} {after : Store}
    (heval : Block.eval enough session.frame (p.labelled session.fresh) session.store =
      .done value after)
    (hvalue : value.isSignal = false) {depth : Nat} (hdepth : enough ≤ depth) :
    session.step? depth (.text a) = some (.ok value, session.next p after) ∧
      session.step? depth (.text (a ++ b)) = (session.next p after).step? depth (.text b) := by
  have hblock := Node.eval_of_le hdepth (.block (p.labelled session.fresh)) heval
  refine ⟨step?_of_block ha hblock hvalue, ?_⟩
  have hrun := Program.eval_append hblock hvalue
    (Program.labelled_ne_nil hq (session.fresh + p.lambdas.length))
  have hboth := read_of_parse (Program.parse_append ha hcomplete hb)
  simp only [step?, hboth, read_of_parse hb, Program.labelled_append, hrun,
    session.next_append p q after]
  rfl

end Session

/-- A function that is bound in one step and called in the next. -/
theorem Session.split_closure_and_call :
    ∃ after : Session,
      Session.start.step? 1 (.text "let f = fn(x) \x7b x + y \x7d; let y = 2;") =
        some (.ok (.integer 2), after) ∧
      Session.start.step? 1 (.text ("let f = fn(x) \x7b x + y \x7d; let y = 2;" ++ "f(y)")) =
        after.step? 1 (.text "f(y)") := by
  let first : Program :=
    [.bind "f" (.fn () ["x"] [.expr (.binary (.ident "x") .add (.ident "y"))]),
      .bind "y" (.int 2)]
  have hfirst : Program.parse "let f = fn(x) \x7b x + y \x7d; let y = 2;" = .ok first := by
    decide +kernel
  have hsecond : Program.parse "f(y)" = .ok [.expr (.call (.ident "f") [.ident "y"])] := by
    decide +kernel
  have hcomplete :
      Token.Complete (Token.words "let f = fn(x) \x7b x + y \x7d; let y = 2;".toList) :=
    ⟨⟨⟨.semicolon, ";"⟩, by decide +kernel, rfl⟩, by decide +kernel⟩
  obtain ⟨after, heval⟩ : ∃ after, Block.eval 0 Session.start.frame
      (first.labelled Session.start.fresh) Session.start.store = .done (.integer 2) after :=
    ⟨_, rfl⟩
  exact ⟨_, Session.start.split_program_steps hfirst hcomplete hsecond
    (List.cons_ne_nil _ _) heval rfl
    (Nat.zero_le 1)⟩

end ScriptLang
