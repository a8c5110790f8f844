import ScriptLang.Proofs.Parser.Allowance

namespace ScriptLang.Parser

/-- Both counters stand in `t` where they stood in `s`. -/
def Restored (s t : State) : Prop :=
  t.blocks = s.blocks ∧ t.openHashes = s.openHashes

/-- Every block entered since `s` has been left, and no hash has been closed that was open
before. -/
def Unclosed (s t : State) : Prop :=
  t.blocks = s.blocks ∧ s.openHashes ≤ t.openHashes

theorem Restored.trans {s t u : State} (hst : Restored s t) (htu : Restored t u) : Restored s u :=
  ⟨htu.1.trans hst.1, htu.2.trans hst.2⟩

theorem Restored.trans_unclosed {s t u : State} (hst : Restored s t) (htu : Unclosed t u) :
    Unclosed s u :=
  ⟨htu.1.trans hst.1, hst.2 ▸ htu.2⟩

theorem counters_invariant : Invariant Restored Unclosed where
  refl _ := ⟨rfl, rfl⟩
  trans := Restored.trans
  trans_failed := Restored.trans_unclosed
  forward _ := ⟨rfl, rfl⟩
  record _ _ := ⟨rfl, Nat.le_refl _⟩
  block h := ⟨Nat.sub_eq_of_eq_add h.1, h.2⟩
  hash h := ⟨h.1, Nat.sub_eq_of_eq_add h.2⟩
  hash_failed h := ⟨h.1, Nat.le_of_succ_le h.2⟩
  resumed _ h := ⟨h.1, rfl⟩

theorem openHashes_of_pairs {n : Nat} {s t : State} {entries : List (Expr × Expr)}
    (h : (enterHash >>= fun _ => pairs n) s = .done entries t) :
    t.openHashes = s.openHashes + 1 := by
  rw [enterHash_bind_apply] at h
  exact ((counters_invariant.respected n).pairs.of_done h).2

/-- Where a block is about to be left, it is still counted. -/
theorem blocks_of_statements {n : Nat} {s t : State} {body : List Stmt}
    (h : (enterBlock >>= fun _ => advance >>= fun _ => statements n true) s = .done body t) :
    t.blocks = s.blocks + 1 := by
  rw [enterBlock_bind_apply, advance_bind_apply] at h
  exact (((counters_invariant.respected n).statements_respects true).of_done h).1

theorem exists_orPassOver {n : Nat} {s : State} (hn : allowance s.ahead.length ≤ n) :
    ∃ first t, orPassOver (statement n) s = .done first t := by
  rw [allowance] at hn
  have hwithin := (enough n).statement s (by omega)
  cases hrule : statement n s with
  | done a u => exact ⟨_, _, orPassOver_of_done hrule⟩
  | failed u => exact ⟨_, _, orPassOver_of_failed hrule⟩
  | exhausted =>
      rw [hrule] at hwithin
      exact hwithin.elim

theorem run_restored {tokens : List Token} {program : Program} {state : State}
    (h : run tokens = .done program state) : Restored (.start tokens) state :=
  ((counters_invariant.respected _).statements_respects false).of_done h

/-- The counters never fall below zero, and they always balance.  Every text is read to its end
with both at zero.  A statement that is read leaves them as they were, one that fails may have
hashes open that it began itself, and once it is passed over the counters are as they were before
it.  This goes for every state, so for every one that reading a text leads to.  Hence what
recovery takes for unclosed is never negative, and at the end of a hash or a block its own
beginning is there to be taken back. -/
theorem counters_balance :
    (∀ source : String, ∃ program state,
      run (Token.words source.toList) = .done program state ∧
      Reading.ofSource source = ⟨program, state.diagnostics⟩ ∧
      state.blocks = 0 ∧ state.openHashes = 0) ∧
    (∀ n s, allowance s.ahead.length ≤ n →
      ∃ first t, orPassOver (statement n) s = .done first t) ∧
    (∀ n s first t, orPassOver (statement n) s = .done first t →
      t.blocks = s.blocks ∧ t.openHashes = s.openHashes) ∧
    (∀ n s, (statement n s).Ends
      (fun _ t => t.blocks = s.blocks ∧ t.openHashes = s.openHashes)
      fun t => t.blocks = s.blocks ∧ s.openHashes ≤ t.openHashes) ∧
    (∀ n s entries t, (enterHash >>= fun _ => pairs n) s = .done entries t →
      t.openHashes = s.openHashes + 1) ∧
    ∀ n s body t,
      (enterBlock >>= fun _ => advance >>= fun _ => statements n true) s = .done body t →
      t.blocks = s.blocks + 1 := by
  refine ⟨?_, fun n s => exists_orPassOver, fun n s first t => counters_invariant.of_orPassOver,
    fun n => (counters_invariant.respected n).statement, fun n s entries t => openHashes_of_pairs,
    fun n s body t => blocks_of_statements⟩
  intro source
  obtain ⟨program, state, hrun⟩ := run_eq_done (Token.words source.toList)
  obtain ⟨hblocks, hhashes⟩ := run_restored hrun
  exact ⟨program, state, hrun, ofTokens_of_run hrun, hblocks, hhashes⟩

/-- A statement that breaks off inside two hashes leaves both counted, until it is passed over. -/
example :
    let s := State.start [⟨.lbrace, "\x7b"⟩, ⟨.int, "1"⟩, ⟨.colon, ":"⟩, ⟨.lbrace, "\x7b"⟩]
    (∃ t, statement 20 s = .failed t ∧ t.openHashes = 2) ∧
      ∃ t, orPassOver (statement 20) s = .done none t ∧ t.openHashes = 0 :=
  ⟨⟨_, rfl, rfl⟩, _, rfl, rfl⟩

end ScriptLang.Parser
