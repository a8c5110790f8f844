import ScriptLang.Proofs.Evaluation.Rules
import ScriptLang.Proofs.Parser.Exactness
import ScriptLang.Proofs.Text.Literals
import ScriptLang.Value.Printer

namespace ScriptLang

open ScriptLang.Text
open Grammar

section Words

theorem Token.words_numeral (m : Nat) :
    words (Decimal.ofNat m).toList = [⟨.int, Decimal.ofNat m⟩] := by
  have hdigits := words_digits (Decimal.toList_ofNat_ne_nil m)
    (fun c hc => Decimal.isDigit_of_mem_ofNat hc) break_nil
  rwa [List.append_nil, words_nil] at hdigits

theorem Token.words_negated_numeral (m : Nat) :
    words ("-" ++ Decimal.ofNat m).toList = [⟨.minus, "-"⟩, ⟨.int, Decimal.ofNat m⟩] := by
  rw [String.toList_append, ← words_numeral]
  exact words_mark rfl _

end Words

section Accepted

variable {m : Nat}

theorem Grammar.reads_numeral (h : m ≤ Decimal.largest) :
    Reads (.level .atom (.int (Int64.ofNat m))) [⟨.int, Decimal.ofNat m⟩] [] := by
  have hvalue := Decimal.value_ofNat m
  have hreads : Reads (.level .atom (.int (Int64.ofNat (Decimal.value (Decimal.ofNat m)))))
      [⟨.int, Decimal.ofNat m⟩] [] := .int (by rwa [hvalue])
  rwa [hvalue] at hreads

theorem Grammar.reads_single {e : Expr} {tokens : List Token}
    (h : Reads (.level .unary e) tokens []) : Reads (.statements [.expr e]) tokens [] := by
  have hexpression : Reads (.expression e) tokens [] := by
    refine .expression (h.loosen (by decide)) ?_
    rw [continues_iff]
    rintro ⟨continuation, hkind⟩
    exact continuation.kind_ne_eof hkind.symm
  exact .statements (.expr hexpression (.missing (by decide))) .noStatements

theorem Program.parse_numeral (h : m ≤ Decimal.largest) :
    Program.parse (Decimal.ofNat m) = .ok [.expr (.int (Int64.ofNat m))] := by
  rw [Program.parse_eq_ok_iff_reads, Token.words_numeral]
  exact reads_single ((reads_numeral h).loosen (by decide))

theorem Program.parse_negated_numeral (h : m ≤ Decimal.largest) :
    Program.parse ("-" ++ Decimal.ofNat m) =
      .ok [.expr (.unary .negate (.int (Int64.ofNat m)))] := by
  rw [Program.parse_eq_ok_iff_reads, Token.words_negated_numeral]
  exact reads_single (.unary ((reads_numeral h).loosen (by decide)))

end Accepted

section Refused

namespace Parser

variable {n : Nat} {s : State} {sign digits : String}

theorem operand_tooLarge (hs : s.current = ⟨.int, digits⟩)
    (h : Decimal.largest < Decimal.value digits) :
    operand (n + 1) s = .failed (s.record (.tooLarge digits)) := by
  have hread : Decimal.read? digits = none := if_neg (Nat.not_le_of_lt h)
  rw [operand, current_bind_apply, hs]
  dsimp only
  rw [hread]
  rfl

theorem statement_negated_tooLarge (hs : s.current = ⟨.minus, sign⟩)
    (hnext : s.forward.current = ⟨.int, digits⟩) (h : Decimal.largest < Decimal.value digits) :
    statement (n + 5) s = .failed (s.forward.record (.tooLarge digits)) := by
  have hexpression : expression (n + 2) .unary s.forward =
      .failed (s.forward.record (.tooLarge digits)) := by
    rw [expression, bind_apply, operand_tooLarge hnext h, Reply.failed_andThen]
  have hoperand : operand (n + 3) s = .failed (s.forward.record (.tooLarge digits)) := by
    rw [operand, current_bind_apply, hs]
    dsimp only
    rw [advance_bind_apply, bind_apply, hexpression, Reply.failed_andThen]
  rw [statement, current_bind_apply, hs]
  dsimp only
  rw [expression, bind_apply, bind_apply, hoperand, Reply.failed_andThen, Reply.failed_andThen]

theorem run_negated_tooLarge (sign : String)
    (h : Decimal.largest < Decimal.value digits) : ∃ state,
    run [⟨.minus, sign⟩, ⟨.int, digits⟩] = .done [] state ∧
      state.diagnostics = [.tooLarge digits] := by
  let start := State.start [⟨.minus, sign⟩, ⟨.int, digits⟩]
  let resumed := start.resumed (start.forward.record (.tooLarge digits))
  have hstatement : Yields statement start
      (.failed (start.forward.record (.tooLarge digits))) := by
    refine ⟨5, fun n hn => ?_⟩
    obtain ⟨n, rfl⟩ := Nat.exists_eq_add_of_le' hn
    exact statement_negated_tooLarge rfl rfl h
  have hmore : Yields (statements · false) resumed.forward (.done [] resumed.forward) :=
    Yields.succ ⟨0, fun n _ => rfl⟩
  refine ⟨resumed.forward, run_of_yields ?_, rfl⟩
  have hcurrent : start.current.kind = .minus := rfl
  exact Yields.statements (by simp [hcurrent]) hstatement.orPassOver_failed hmore

end Parser

theorem Program.parse_negated_tooLarge {m : Nat} (h : Decimal.largest < m) :
    Program.parse ("-" ++ Decimal.ofNat m) = .error [.tooLarge (Decimal.ofNat m)] := by
  rw [← Decimal.value_ofNat m] at h
  obtain ⟨state, hrun, hdiagnostics⟩ := Parser.run_negated_tooLarge "-" h
  rw [Program.parse, Reading.ofSource, Token.words_negated_numeral, Parser.ofTokens_of_run hrun,
    hdiagnostics]
  rfl

end Refused

namespace Session

variable {depth : Nat} {session : Session}

theorem step?_numeral {m : Nat} (h : m ≤ Decimal.largest) :
    session.step? depth (.text (Decimal.ofNat m)) =
      some (.ok (.integer (Int64.ofNat m)), session) := by
  have heval : Block.eval depth session.frame [.expr (.int (Int64.ofNat m))] session.store =
      .done (.integer (Int64.ofNat m)) session.store := by
    rw [Block.eval, Stmt.evalBlock_single, Expr.evalWith_int]
  exact step?_of_block (Program.parse_numeral h) heval rfl

theorem step?_negated_numeral {m : Nat} (h : m ≤ Decimal.largest) :
    session.step? depth (.text ("-" ++ Decimal.ofNat m)) =
      some (.ok (.integer (-Int64.ofNat m)), session) := by
  have heval : Block.eval depth session.frame [.expr (.unary .negate (.int (Int64.ofNat m)))]
      session.store = .done (.integer (-Int64.ofNat m)) session.store := by
    rw [Block.eval, Stmt.evalBlock_single, Expr.evalWith, Expr.evalWith_int]
    rfl
  exact step?_of_block (Program.parse_negated_numeral h) heval rfl

theorem step?_negated_tooLarge {m : Nat} (h : Decimal.largest < m) :
    session.step? depth (.text ("-" ++ Decimal.ofNat m)) =
      some (.error (.malformed [.tooLarge (Decimal.ofNat m)]), session) := by
  rw [step?, Input.read, Program.parse_negated_tooLarge h]
  rfl

theorem step?_render_of_ne {n : Int64} (h : n ≠ Int64.minValue) :
    session.step? depth (.text (Value.integer n).render) = some (.ok (.integer n), session) := by
  have hlow : Int64.minValue.toInt ≠ n.toInt := fun heq => h (Int64.toInt_inj.mp heq).symm
  have hrange := n.le_toInt
  have hrange' := n.toInt_lt
  rw [Int64.toInt_minValue] at hlow
  rw [Value.render, Decimal.ofInt64]
  split
  · rename_i m hm
    have hn : Int64.ofNat m = n := by
      rw [← Int64.ofInt_toInt n, hm]
      rfl
    rw [step?_numeral, hn]
    rw [hm] at hrange'
    simp only [Decimal.largest, Int.ofNat_eq_natCast] at *
    omega
  · rename_i m hm
    have hn : -Int64.ofNat (m + 1) = n := by
      rw [← Int64.ofInt_toInt n, hm, Int64.neg_ofNat]
      rfl
    rw [step?_negated_numeral, hn]
    rw [hm] at hlow hrange
    simp only [Decimal.largest, Int.negSucc_eq] at *
    omega

theorem step?_render_smallest :
    session.step? depth (.text (Value.integer Int64.minValue).render) =
      some (.error (.malformed [.tooLarge "9223372036854775808"]), session) := by
  have htext : (Value.integer Int64.minValue).render =
      "-" ++ Decimal.ofNat 9223372036854775808 := rfl
  have hdigits : Decimal.ofNat 9223372036854775808 = "9223372036854775808" := by decide
  rw [htext, step?_negated_tooLarge (by decide), hdigits]

/-- The numeral of an integer is read back as that integer, and the session is left alone.  The
numeral of the smallest integer is the only one that is malformed. -/
theorem reads_numeral_back (depth : Nat) (session : Session) (n : Int64) :
    session.step? depth (.text (Value.integer n).render) =
      some (if n = Int64.minValue then .error (.malformed [.tooLarge "9223372036854775808"])
        else .ok (.integer n), session) := by
  split
  · rename_i h
    rw [h]
    exact step?_render_smallest
  · rename_i h
    exact step?_render_of_ne h

theorem not_reads_smallest_numeral_back :
    ¬ ∀ n : Int64, ∃ depth after,
      Session.start.step? depth (.text (Value.integer n).render) =
        some (.ok (.integer n), after) := by
  intro h
  obtain ⟨depth, after, hstep⟩ := h Int64.minValue
  rw [step?_render_smallest] at hstep
  cases hstep

end Session

end ScriptLang
