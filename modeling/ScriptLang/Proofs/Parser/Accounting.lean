import ScriptLang.Proofs.Parser.Allowance

namespace ScriptLang

namespace Parser

/-- The steps of a reader from one state to another, with the number of statements that fail on
the way.  A statement that fails counts once, on top of those that fail inside it, and no other
step counts. -/
inductive Fails : State → Nat → State → Prop
  | refl (s : State) : Fails s 0 s
  | trans {s t u : State} {j k : Nat} (hst : Fails s j t) (htu : Fails t k u) : Fails s (j + k) u
  | forward (s : State) : Fails s 0 s.forward
  | record (s : State) (d : Diagnostic) : Fails s 0 (s.record d)
  | blocks (s : State) (n : Nat) : Fails s 0 { s with blocks := n }
  | openHashes (s : State) (n : Nat) : Fails s 0 { s with openHashes := n }
  | statement {n k : Nat} {s t : State} (hfailed : statement n s = .failed t)
      (hinside : Fails s k t) : Fails s (k + 1) (s.resumed t)

theorem Fails.dropped_eq {s t : State} {k : Nat} (h : Fails s k t) :
    t.dropped = s.dropped + k := by
  induction h with
  | refl | forward | record | blocks | openHashes => rfl
  | trans _ _ ihst ihtu => rw [ihtu, ihst, Nat.add_assoc]
  | statement _ _ ih => rw [State.resumed, ih, Nat.add_assoc]

theorem fails_invariant :
    Invariant (fun s t => ∃ k, Fails s k t) fun s t => ∃ k, Fails s k t where
  refl s := ⟨0, .refl s⟩
  trans := by
    rintro s t u ⟨j, hst⟩ ⟨k, htu⟩
    exact ⟨j + k, hst.trans htu⟩
  trans_failed := by
    rintro s t u ⟨j, hst⟩ ⟨k, htu⟩
    exact ⟨j + k, hst.trans htu⟩
  forward s := ⟨0, .forward s⟩
  record s d := ⟨0, .record s d⟩
  block := by
    rintro s t ⟨k, h⟩
    exact ⟨_, ((Fails.blocks s _).trans h).trans (.blocks t _)⟩
  hash := by
    rintro s t ⟨k, h⟩
    exact ⟨_, ((Fails.openHashes s _).trans h).trans (.openHashes t _)⟩
  hash_failed := by
    rintro s t ⟨k, h⟩
    exact ⟨_, (Fails.openHashes s _).trans h⟩
  resumed := by
    rintro n s t hfailed ⟨k, h⟩
    exact ⟨k + 1, .statement hfailed h⟩

/-- The count of statements given up is the number of statements that have failed. -/
theorem run_fails {tokens : List Token} {program : Program} {state : State}
    (h : run tokens = .done program state) : Fails (.start tokens) state.dropped state := by
  have hrespects :=
    (fails_invariant.respected (allowance tokens.length)).statements_respects false
  obtain ⟨k, hfails⟩ := hrespects.of_done h
  have hk : state.dropped = k := hfails.dropped_eq.trans (Nat.zero_add k)
  rwa [hk]

/-- From `s` to `t` one diagnostic has been put on record for each statement given up. -/
def Accounted (s t : State) : Prop :=
  ∃ new, t.diagnostics = s.diagnostics ++ new ∧ t.dropped = s.dropped + new.length

/-- As `Accounted`, with one diagnostic more at the end.  It belongs to the failure under way,
which no statement has answered for yet. -/
def AccountedButLast (s t : State) : Prop :=
  ∃ new own, t.diagnostics = s.diagnostics ++ new ++ [own] ∧ t.dropped = s.dropped + new.length

theorem Accounted.refl (s : State) : Accounted s s :=
  ⟨[], by simp, rfl⟩

theorem Accounted.trans {s t u : State} (hst : Accounted s t) (htu : Accounted t u) :
    Accounted s u := by
  obtain ⟨new, hdiagnostics, hdropped⟩ := hst
  obtain ⟨new', hdiagnostics', hdropped'⟩ := htu
  refine ⟨new ++ new', ?_, ?_⟩
  · rw [hdiagnostics', hdiagnostics, List.append_assoc]
  · rw [hdropped', hdropped, List.length_append, Nat.add_assoc]

theorem Accounted.trans_butLast {s t u : State} (hst : Accounted s t)
    (htu : AccountedButLast t u) : AccountedButLast s u := by
  obtain ⟨new, hdiagnostics, hdropped⟩ := hst
  obtain ⟨new', own, hdiagnostics', hdropped'⟩ := htu
  refine ⟨new ++ new', own, ?_, ?_⟩
  · rw [hdiagnostics', hdiagnostics, List.append_assoc s.diagnostics]
  · rw [hdropped', hdropped, List.length_append, Nat.add_assoc]

/-- The statement that is given up answers for the last diagnostic. -/
theorem AccountedButLast.resumed {s t : State} (h : AccountedButLast s t) :
    Accounted s (s.resumed t) := by
  obtain ⟨new, own, hdiagnostics, hdropped⟩ := h
  refine ⟨new ++ [own], ?_, ?_⟩
  · rw [← List.append_assoc]
    exact hdiagnostics
  · rw [List.length_append, List.length_singleton, ← Nat.add_assoc, ← hdropped]
    rfl

theorem accounted_invariant : Invariant Accounted AccountedButLast where
  refl := .refl
  trans hst htu := hst.trans htu
  trans_failed hst htu := hst.trans_butLast htu
  forward s := .refl s
  record s d := ⟨[], d, by simp, rfl⟩
  block h := h
  hash h := h
  hash_failed h := h
  resumed _ h := h.resumed

theorem run_accounted {tokens : List Token} {program : Program} {state : State}
    (h : run tokens = .done program state) : state.diagnostics.length = state.dropped := by
  have hrespects :=
    (accounted_invariant.respected (allowance tokens.length)).statements_respects false
  obtain ⟨new, hdiagnostics, hdropped⟩ := hrespects.of_done h
  rw [hdiagnostics, hdropped]
  simp [State.start]

end Parser

open ScriptLang.Parser in
/-- No statement is dropped silently, and none is reported twice.  Every text is read to its end,
with as many diagnostics as statements failed and were given up anywhere in it, and it is accepted
exactly if none was.  Each statement that fails adds one diagnostic of its own behind those of the
statements inside it, and one that is read adds none. -/
theorem Program.each_dropped_statement_is_reported_once :
    (∀ source : String, ∃ program state,
      run (Token.words source.toList) = .done program state ∧
      Reading.ofSource source = ⟨program, state.diagnostics⟩ ∧
      Fails (.start (Token.words source.toList)) state.dropped state ∧
      state.diagnostics.length = state.dropped ∧
      ((∃ accepted, Program.parse source = .ok accepted) ↔ state.dropped = 0)) ∧
    ∀ n s, (statement n s).Ends
      (fun _ t => ∃ inner, t.diagnostics = s.diagnostics ++ inner ∧
        t.dropped = s.dropped + inner.length)
      fun t => ∃ inner own, t.diagnostics = s.diagnostics ++ inner ++ [own] ∧
        t.dropped = s.dropped + inner.length := by
  refine ⟨?_, fun n => (accounted_invariant.respected n).statement⟩
  intro source
  obtain ⟨program, state, hrun⟩ := run_eq_done (Token.words source.toList)
  have hreading : Reading.ofSource source = ⟨program, state.diagnostics⟩ := ofTokens_of_run hrun
  have hcount := run_accounted hrun
  refine ⟨program, state, hrun, hreading, run_fails hrun, hcount, ?_⟩
  rw [Program.parse, hreading, ← hcount, List.length_eq_zero_iff]
  by_cases hclean : state.diagnostics = []
  · simp [hclean]
  · simp [hclean]

end ScriptLang
