import ScriptLang.Proofs.Grammar.Extension
import ScriptLang.Proofs.Parser.Exactness
import ScriptLang.Proofs.Token.Joining

namespace ScriptLang

open Grammar

namespace Parser

variable {tokens behind rest more : List Token}

/-- The end of a statement is the same with more behind it, if there is anything behind the
statement or the last token is a semicolon. -/
theorem ends_followed {R : List Token → Prop} (h : Part 0 R tokens behind)
    (hend : Ends behind rest)
    (hclosed : Token.surplus tokens = Token.surplus rest) (hopen : rest ≠ [] ∨ ¬ Unended tokens)
    (helse : kindAhead rest ≠ .elseWord) (more : List Token) :
    R more ∧ Ends (behind ++ more) (rest ++ more) ∧ kindAhead (behind ++ more) ≠ .elseWord := by
  obtain ⟨hR, hends⟩ := (Whole.of_part h hend).extend hclosed hopen more
  refine ⟨hR, hends, ?_⟩
  have hbehind : behind ≠ [] := by
    rintro rfl
    cases hend with
    | missing =>
        rw [← Int.add_zero (Token.surplus tokens)] at hclosed
        exact hopen.elim (absurd rfl) (absurd (h.unended hclosed rfl))
  rw [kindAhead_append hbehind]
  exact not_else_of_ends hend helse

/-- A statement is read in the same way with more behind it. -/
theorem statement_followed {st : Stmt} (h : Reads (.statement st) tokens rest)
    (hclosed : Token.surplus tokens = Token.surplus rest) (hopen : rest ≠ [] ∨ ¬ Unended tokens)
    (helse : kindAhead rest ≠ .elseWord) {s : State} (hahead : s.ahead = tokens ++ more) :
    Arrives statement s st (rest ++ more) := by
  cases h with
  | @bind name value text₁ text₂ tokens behind rest hvalue hend =>
      have hpart : Part 0 (fun more =>
        Reads (.expression value) (tokens ++ more) (behind ++ more))
          (⟨.letWord, text₁⟩ :: ⟨.ident, name⟩ :: ⟨.assign, text₂⟩ :: tokens) behind :=
        ((Part.cons (by decide) hvalue.spans).cons (by decide)).cons (by decide)
      obtain ⟨hreads, hends, helse'⟩ := ends_followed hpart hend hclosed hopen helse more
      exact arrives_bind (parses_of_reads hreads) hends helse' hahead
  | bareReturn hnext hend =>
      obtain ⟨hnext', hends, -⟩ := ends_followed (.bareReturn hnext) hend hclosed hopen helse more
      exact arrives_bareReturn hnext' hends hahead
  | @ret value text tokens behind rest hvalue hend =>
      have hpart : Part 0 (fun more =>
        Reads (.expression value) (tokens ++ more) (behind ++ more))
          (⟨.returnWord, text⟩ :: tokens) behind := Part.cons (by decide) hvalue.spans
      obtain ⟨hreads, hends, helse'⟩ := ends_followed hpart hend hclosed hopen helse more
      exact arrives_ret hreads.begins (parses_of_reads hreads) hends helse' hahead
  | expr hvalue hend =>
      obtain ⟨hreads, hends, helse'⟩ := ends_followed hvalue.spans hend hclosed hopen helse more
      exact arrives_expr hreads.begins (parses_of_reads hreads) hends helse' hahead

theorem kindAhead_ne_else {ss : List Stmt} (h : Reads (.statements ss) tokens []) :
    kindAhead tokens ≠ .elseWord := by
  cases h with
  | noStatements => exact Token.Kind.noConfusion
  | statements hfirst _ =>
      intro hkind
      have hbegins : kindAhead tokens ∈ .letWord :: .returnWord :: starters := hfirst.begins
      rw [hkind] at hbegins
      exact absurd hbegins (by decide)

/-- Statements that leave nothing open are read, and then whatever is read behind them. -/
theorem statements_followed {ss others : List Stmt} {s u : State}
    (h : Reads (.statements ss) tokens []) (hclosed : Token.surplus tokens = 0)
    (hended : tokens ≠ [] → ¬ Unended tokens) (hahead : s.ahead = tokens ++ more)
    (hmore : Yields (statements · false) (s.facing more) (.done others u)) :
    Yields (statements · false) s (.done (ss ++ others) u) := by
  induction ss generalizing tokens s with
  | nil =>
      cases h
      have hsame : s.facing more = s := by rw [← List.nil_append more, ← hahead]; rfl
      rwa [hsame] at hmore
  | cons st ss ih =>
      cases h with
      | @statements _ _ _ behind _ hfirst hrest =>
          have hbegins : kindAhead tokens ∈ .letWord :: .returnWord :: starters := hfirst.begins
          have hne : tokens ≠ [] := by
            rintro rfl
            exact absurd hbegins (by decide)
          have hwhole : Whole _ tokens behind := hfirst.spans
          have hwhole' : Whole _ behind [] := hrest.spans
          have hle := hwhole.surplus_le
          have hle' := hwhole'.surplus_le
          rw [Token.surplus_nil] at hle'
          have hbehind : Token.surplus behind = 0 := by omega
          obtain ⟨last, hlast, hyields⟩ := statement_followed hfirst (hclosed.trans hbehind.symm)
            (.inr (hended hne)) (kindAhead_ne_else hrest) hahead
          refine Yields.statements ?_ hyields.orPassOver_done ?_
          · rw [current_kind_eq hahead, kindAhead_append hne]
            rintro (hend | ⟨hblock, -⟩)
            · rw [hend] at hbegins
              exact absurd hbegins (by decide)
            · cases hblock
          · have hforward : (s.facing last).forward = s.facing (behind ++ more) := by
              rw [← hlast]
              rfl
            rw [hforward]
            refine ih hrest hbehind ?_ rfl hmore
            intro hne' hunended
            exact hended hne (hunended.of_suffix hwhole.suffix hne')

end Parser

open ScriptLang.Parser

theorem Reading.ofTokens_append {tokens : List Token} {program : Program}
    (h : Reads (.statements program) tokens []) (hcomplete : Token.Complete tokens)
    (more : List Token) : Reading.ofTokens (tokens ++ more) =
      ⟨program ++ (Reading.ofTokens more).program, (Reading.ofTokens more).diagnostics⟩ := by
  obtain ⟨others, u, hrun⟩ := run_eq_done more
  have hmore := yields_run more
  rw [hrun] at hmore
  have hyields := statements_followed (s := .start (tokens ++ more)) h hcomplete.surplus_eq_zero
    (fun _ => hcomplete.not_unended) rfl hmore
  rw [ofTokens_of_run (run_of_yields hyields), ofTokens_of_run hrun]

/-- Behind a complete program any text is read as if it stood alone.  The statements of both are
read, and what is wrong with the text is all that is wrong. -/
theorem Reading.ofSource_behind_complete {a : String} {p : Program} (ha : Program.parse a = .ok p)
    (hcomplete : Token.Complete (Token.words a.toList)) (b : String) :
    Reading.ofSource (a ++ b) =
      ⟨p ++ (Reading.ofSource b).program, (Reading.ofSource b).diagnostics⟩ := by
  rw [Program.parse_eq_ok_iff_reads] at ha
  obtain ⟨last, hlast, hkind⟩ := hcomplete.ended
  rw [Reading.ofSource, String.toList_append, Token.words_append hlast hkind]
  exact Reading.ofTokens_append ha hcomplete _

/-- A broken text behind a branch.  The `else` is not taken for the branch's own. -/
theorem Reading.broken_text_behind_branch :
    ∃ p, Program.parse "let y = if (x) \x7b 1 \x7d;" = .ok p ∧
      Reading.ofSource ("let y = if (x) \x7b 1 \x7d;" ++ "else \x7b 2 \x7d; 3 + ; y") =
        ⟨p ++ [.expr (.ident "y")], [.noExpression .elseWord, .noExpression .semicolon]⟩ := by
  have hreading : Reading.ofSource "let y = if (x) \x7b 1 \x7d;" =
      ⟨[.bind "y" (.cond (.ident "x") [.expr (.int 1)] none)], []⟩ := by
    decide +kernel
  have hfirst : Program.parse "let y = if (x) \x7b 1 \x7d;" =
      .ok [.bind "y" (.cond (.ident "x") [.expr (.int 1)] none)] := by
    rw [Program.parse, hreading]
    rfl
  have hcomplete : Token.Complete (Token.words "let y = if (x) \x7b 1 \x7d;".toList) :=
    ⟨⟨⟨.semicolon, ";"⟩, by decide +kernel, rfl⟩, by decide +kernel⟩
  have hsecond : Reading.ofSource "else \x7b 2 \x7d; 3 + ; y" =
      ⟨[.expr (.ident "y")], [.noExpression .elseWord, .noExpression .semicolon]⟩ := by
    decide +kernel
  refine ⟨_, hfirst, ?_⟩
  rw [Reading.ofSource_behind_complete hfirst hcomplete, hsecond]

end ScriptLang
