import ScriptLang.Proofs.Parser.Allowance
import ScriptLang.Proofs.Parser.Completeness
import ScriptLang.Proofs.Parser.Growth
import ScriptLang.Proofs.Parser.Soundness
import ScriptLang.Proofs.Token.Words

namespace ScriptLang

open Grammar

namespace Parser

theorem Yields.unique {α : Type} {rule : Nat → Parser α} {s : State} {reply reply' : Reply α}
    (h : Yields rule s reply) (h' : Yields rule s reply') : reply = reply' := by
  obtain ⟨m, hm⟩ := h
  obtain ⟨m', hm'⟩ := h'
  rw [← hm (max m m') (Nat.le_max_left m m'), hm' (max m m') (Nat.le_max_right m m')]

/-- The allowance of a run may be smaller than one that is known to be large enough, but it has
given a reply. -/
theorem yields_run (words : List Token) :
    Yields (statements · false) (.start words) (run words) := by
  obtain ⟨program, state, hrun⟩ := run_eq_done words
  refine ⟨allowance words.length, fun n hn => ?_⟩
  refine reply_of_le (fun n => (grows _ n).statements false) hn ?_
  rw [← run, hrun]
  nofun

theorem run_of_yields {words : List Token} {reply : Reply Program}
    (h : Yields (statements · false) (.start words) reply) : run words = reply :=
  (yields_run words).unique h

theorem run_of_reads {words : List Token} {program : Program}
    (h : Reads (.statements program) words []) :
    run words = .done program ((State.start words).facing []) :=
  run_of_yields (parses_of_reads h false (.start words) rfl (.inl rfl))

theorem reads_of_run {words : List Token} {program : Program} {state : State}
    (hrun : run words = .done program state) (hwords : Words words)
    (hclean : state.diagnostics = []) : Reads (.statements program) words [] := by
  obtain ⟨hreads, hend⟩ := (sound _).statements hrun hwords hclean
  have htidy := (tidy_invariant.respected (allowance words.length)).statements_respects false
  have hstate := htidy.of_done hrun
  have hstop : state.current.kind = .eof := by
    rcases hend with heof | ⟨hblock, -⟩
    · exact heof
    · cases hblock
  rwa [(hstate.2 hwords).eq_nil hstop] at hreads

end Parser

/-- A text is read as a program when its words are the statements of that program. -/
theorem Program.parse_eq_ok_iff_reads (source : String) (program : Program) :
    Program.parse source = .ok program ↔
      Reads (.statements program) (Token.words source.toList) [] := by
  have hwords : Parser.Words (Token.words source.toList) :=
    fun token htoken => Token.kind_ne_eof_of_mem_words htoken
  obtain ⟨program', state, hrun⟩ := Parser.run_eq_done (Token.words source.toList)
  have hreading : Reading.ofSource source = ⟨program', state.diagnostics⟩ :=
    Parser.ofTokens_of_run hrun
  rw [Program.parse, hreading]
  constructor
  · intro h
    dsimp only at h
    split at h
    · rename_i hclean
      cases h
      exact Parser.reads_of_run hrun hwords hclean
    · cases h
  · intro h
    rw [Parser.run_of_reads h] at hrun
    cases hrun
    rfl

/-- The parser accepts exactly its grammar, and builds the tree the grammar prescribes. -/
theorem Program.parse_eq_ok_iff_spells (source : String) (program : Program) :
    Program.parse source = .ok program ↔ Spells (Token.tokenize source) program := by
  rw [Program.parse_eq_ok_iff_reads]
  constructor
  · intro h
    exact ⟨_, rfl, h⟩
  · rintro ⟨words, htokens, h⟩
    rwa [List.append_cancel_right htokens]

end ScriptLang
