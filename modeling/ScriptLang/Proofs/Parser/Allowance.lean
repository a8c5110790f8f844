import ScriptLang.Program.Reading
import ScriptLang.Proofs.Parser.Cases
import ScriptLang.Proofs.Parser.Invariants

namespace ScriptLang.Parser

variable {α β : Type}

theorem State.length_pos_of_current {s : State} {kind : Token.Kind} (h : s.current.kind = kind)
    (hkind : kind ≠ .eof) : 1 ≤ s.ahead.length := by
  rw [State.ahead_eq_of_current h hkind]
  simp

theorem State.two_le_length_of_peek {s : State} {kind : Token.Kind} (h : s.peek.kind = kind)
    (hkind : kind ≠ .eof) : 2 ≤ s.ahead.length := by
  have hpos : 1 ≤ s.ahead.tail.length := State.length_pos_of_current (s := s.forward) h hkind
  rw [List.length_tail] at hpos
  omega

@[simp] theorem State.forward_length (s : State) :
    s.forward.ahead.length = s.ahead.length - 1 := by
  rw [State.forward_ahead, List.length_tail]

/-- The rule came to an end, and no more than so many tokens are left. -/
def Reply.Within (reply : Reply α) (bound : Nat) : Prop :=
  match reply with
  | .done _ t => t.ahead.length ≤ bound
  | .failed t => t.ahead.length ≤ bound
  | .exhausted => False

theorem Reply.Within.mono {reply : Reply α} {b c : Nat} (h : reply.Within b) (hbc : b ≤ c) :
    reply.Within c := by
  cases reply with
  | done a t => exact Nat.le_trans h hbc
  | failed t => exact Nat.le_trans h hbc
  | exhausted => exact h

theorem bind_within {rule : Parser α} {next : α → Parser β} {s : State} {b c : Nat}
    (hrule : (rule s).Within b) (hbc : b ≤ c)
    (hnext : ∀ a t, t.ahead.length ≤ b → (next a t).Within c) :
    ((rule >>= next) s).Within c := by
  rw [bind_apply]
  cases h : rule s with
  | done a t =>
      rw [h] at hrule
      exact hnext a t hrule
  | failed t =>
      rw [h] at hrule
      exact Nat.le_trans hrule hbc
  | exhausted =>
      rw [h] at hrule
      exact hrule.elim

theorem expect_bind_within {kind : Token.Kind} {next : Unit → Parser β} {s : State} {c : Nat}
    (hc : s.ahead.length ≤ c) (hnext : s.peek.kind = kind → (next () s.forward).Within c) :
    ((expect kind >>= next) s).Within c := by
  by_cases h : s.peek.kind = kind
  · rw [expect_bind_of_eq h]
    exact hnext h
  · rw [expect_bind_of_ne h]
    exact hc

theorem skipSemicolon_bind_pure_within {a : β} {s : State} {c : Nat} (hc : s.ahead.length ≤ c) :
    ((skipSemicolon >>= fun _ => (pure a : Parser β)) s).Within c := by
  by_cases h : s.peek.kind = .semicolon
  · rw [skipSemicolon_bind_of_eq h]
    have := State.forward_length s
    change s.forward.ahead.length ≤ c
    omega
  · rw [skipSemicolon_bind_of_ne h]
    exact hc

theorem orPassOver_within {rule : Parser α} {s : State} {b : Nat} (h : (rule s).Within b) :
    (orPassOver rule s).Within b := by
  cases hrule : rule s with
  | done a t =>
      rw [hrule] at h
      rw [orPassOver_of_done hrule]
      exact h
  | failed t =>
      rw [hrule] at h
      rw [orPassOver_of_failed hrule]
      exact Nat.le_trans (passOver_suffix _ _ _).length_le h
  | exhausted =>
      rw [hrule] at h
      exact h.elim

theorem moreParameters_within {n : Nat} {s : State} (h : 8 * s.ahead.length + 1 ≤ n) :
    (moreParameters n s).Within s.ahead.length := by
  induction n generalizing s with
  | zero => omega
  | succ n ih =>
      rw [moreParameters, peekKind_bind_apply]
      split
      · rename_i hcomma
        have hlength := State.two_le_length_of_peek hcomma (by decide)
        have hforward := State.forward_length s
        rw [advance_bind_apply]
        refine expect_bind_within (by omega) fun hname => ?_
        have hforward' := State.forward_length s.forward
        rw [current_bind_apply]
        refine bind_within (ih (by omega)) (by omega) fun names t ht => ?_
        exact Nat.le_trans ht (by omega)
      · refine expect_bind_within (Nat.le_refl _) fun hclose => ?_
        have hforward := State.forward_length s
        change s.forward.ahead.length ≤ _
        omega

theorem parameters_within {n : Nat} {s : State} (h : 8 * s.ahead.length + 1 ≤ n) :
    (parameters n s).Within s.ahead.length := by
  have hforward := State.forward_length s
  rw [parameters, peekKind_bind_apply]
  split
  · change s.forward.ahead.length ≤ _
    omega
  · refine expect_bind_within (Nat.le_refl _) fun hname => ?_
    rw [current_bind_apply]
    refine bind_within (moreParameters_within (by omega)) (by omega) fun names t ht => ?_
    exact Nat.le_trans ht (by omega)

/-- Each rule ends within an allowance of eight units for each token ahead and a few more.  A rule
that begins by leaving a token behind asks for no more than the tokens in front of it. -/
structure Enough (n : Nat) : Prop where
  expression : ∀ floor s, 8 * s.ahead.length + 2 ≤ n →
    (expression n floor s).Within s.ahead.length
  operand : ∀ s, 8 * s.ahead.length + 1 ≤ n → (operand n s).Within s.ahead.length
  continued : ∀ floor left s, 8 * s.ahead.length + 1 ≤ n →
    (continued n floor left s).Within s.ahead.length
  continuedOnce : ∀ left {joint : Joint} {s}, s.current.kind = joint.kind →
    8 * s.ahead.length + 1 ≤ n →
    (continuedOnce n left joint.continuation s).Within s.ahead.length
  items : ∀ close s, 1 ≤ s.ahead.length → 8 * s.ahead.length ≤ n →
    (items n close s).Within s.ahead.length
  moreItems : ∀ s, 8 * s.ahead.length + 1 ≤ n → (moreItems n s).Within s.ahead.length
  pairs : ∀ s, 1 ≤ s.ahead.length → 8 * s.ahead.length ≤ n → (pairs n s).Within s.ahead.length
  block : ∀ s, 1 ≤ s.ahead.length → 8 * s.ahead.length ≤ n → (block n s).Within s.ahead.length
  statements : ∀ inBlock s, 8 * s.ahead.length + 4 ≤ n →
    (statements n inBlock s).Within s.ahead.length
  statement : ∀ s, 8 * s.ahead.length + 3 ≤ n → (statement n s).Within s.ahead.length

namespace Enough

variable {n : Nat}

theorem expression_succ (ih : Enough n) (floor : Precedence) (s : State)
    (h : 8 * s.ahead.length + 2 ≤ n + 1) :
    (Parser.expression (n + 1) floor s).Within s.ahead.length := by
  rw [Parser.expression]
  refine bind_within (ih.operand s (by omega)) (Nat.le_refl _) fun left t ht => ?_
  exact (ih.continued floor left t (by omega)).mono ht

theorem otherwise_within (ih : Enough n) {s : State} (h : 8 * s.ahead.length ≤ n)
    (condition : Expr) (yes : Block) :
    (otherwise n condition yes s).Within s.ahead.length := by
  have hforward := State.forward_length s
  have hforward' := State.forward_length s.forward
  rw [otherwise, peekKind_bind_apply]
  split
  · rename_i helse
    have hlength := State.two_le_length_of_peek helse (by decide)
    rw [advance_bind_apply]
    refine expect_bind_within (by omega) fun hbrace => ?_
    have hlength' := State.two_le_length_of_peek hbrace (by decide)
    refine bind_within (ih.block _ (by omega) (by omega)) (by omega) fun no t ht => ?_
    exact Nat.le_trans ht (by omega)
  · exact Nat.le_refl _

theorem operand_succ (ih : Enough n) (s : State) (h : 8 * s.ahead.length + 1 ≤ n + 1) :
    (Parser.operand (n + 1) s).Within s.ahead.length := by
  have hforward := State.forward_length s
  have hforward' := State.forward_length s.forward
  apply operand_elim (motive := fun reply => reply.Within s.ahead.length)
  case unary =>
      intro op hkind
      have hpos := State.length_pos_of_current hkind (by cases op <;> decide)
      refine bind_within (ih.expression _ _ (by omega)) (by omega) fun right t ht => ?_
      exact Nat.le_trans ht (by omega)
  case group =>
      intro hkind
      have hpos := State.length_pos_of_current hkind (by decide)
      refine bind_within (ih.expression _ _ (by omega)) (by omega) fun inner t ht => ?_
      refine expect_bind_within (by omega) fun hclose => ?_
      have ht' := State.forward_length t
      change t.forward.ahead.length ≤ _
      omega
  case cond =>
      intro hkind
      refine expect_bind_within (Nat.le_refl _) fun hopen => ?_
      have hlength := State.two_le_length_of_peek hopen (by decide)
      rw [advance_bind_apply]
      refine bind_within (ih.expression _ _ (by omega)) (by omega) fun condition t ht => ?_
      refine expect_bind_within (by omega) fun hclose => ?_
      have ht' := State.forward_length t
      have ht'' := State.forward_length t.forward
      refine expect_bind_within (by omega) fun hbrace => ?_
      have hlength' := State.two_le_length_of_peek hbrace (by decide)
      refine bind_within (ih.block _ (by omega) (by omega)) (by omega) fun yes u hu => ?_
      exact (ih.otherwise_within (by omega) condition yes).mono (by omega)
  case fn =>
      intro hkind
      refine expect_bind_within (Nat.le_refl _) fun hopen => ?_
      have hlength := State.two_le_length_of_peek hopen (by decide)
      refine bind_within (parameters_within (by omega)) (by omega) fun params t ht => ?_
      have ht' := State.forward_length t
      refine expect_bind_within (by omega) fun hbrace => ?_
      have hlength' := State.two_le_length_of_peek hbrace (by decide)
      refine bind_within (ih.block _ (by omega) (by omega)) (by omega) fun body u hu => ?_
      exact Nat.le_trans hu (by omega)
  case array =>
      intro hkind
      have hpos := State.length_pos_of_current hkind (by decide)
      exact bind_within (ih.items _ s hpos (by omega)) (Nat.le_refl _) fun elements t ht => ht
  case hash =>
      intro hkind
      have hpos := State.length_pos_of_current hkind (by decide)
      refine bind_within (ih.pairs _ hpos ?_) (Nat.le_refl _) fun entries t ht => ht
      exact Nat.le_of_succ_le_succ h
  all_goals
    intros
    exact Nat.le_refl _

theorem continued_succ (ih : Enough n) (floor : Precedence) (left : Expr) (s : State)
    (h : 8 * s.ahead.length + 1 ≤ n + 1) :
    (Parser.continued (n + 1) floor left s).Within s.ahead.length := by
  apply continued_elim (motive := fun reply => reply.Within s.ahead.length)
  case stop => exact fun _ => Nat.le_refl _
  case goOn =>
      intro joint hnext _
      have hlength := State.two_le_length_of_peek hnext joint.kind_ne_eof
      have hforward := State.forward_length s
      refine bind_within (ih.continuedOnce _ (s := s.forward) hnext (by omega)) (by omega) ?_
      intro larger t ht
      exact (ih.continued floor larger t (by omega)).mono (by omega)

theorem continuedOnce_succ (ih : Enough n) (left : Expr) {joint : Joint} {s : State}
    (hkind : s.current.kind = joint.kind) (h : 8 * s.ahead.length + 1 ≤ n + 1) :
    (Parser.continuedOnce (n + 1) left joint.continuation s).Within s.ahead.length := by
  have hpos := State.length_pos_of_current hkind joint.kind_ne_eof
  have hforward := State.forward_length s
  apply continuedOnce_elim (motive := fun reply => reply.Within s.ahead.length) hkind
  case operator =>
      intro op _
      refine bind_within (ih.expression _ _ (by omega)) (by omega) fun right t ht => ?_
      exact Nat.le_trans ht (by omega)
  case call =>
      intro _
      exact bind_within (ih.items _ s hpos (by omega)) (Nat.le_refl _) fun args t ht => ht
  case index =>
      intro _
      refine bind_within (ih.expression _ _ (by omega)) (by omega) fun position t ht => ?_
      refine expect_bind_within (by omega) fun hclose => ?_
      have ht' := State.forward_length t
      change t.forward.ahead.length ≤ _
      omega

theorem items_succ (ih : Enough n) (close : Token.Kind) (s : State) (hpos : 1 ≤ s.ahead.length)
    (h : 8 * s.ahead.length ≤ n + 1) :
    (Parser.items (n + 1) close s).Within s.ahead.length := by
  have hforward := State.forward_length s
  rw [Parser.items, peekKind_bind_apply]
  split
  · change s.forward.ahead.length ≤ _
    omega
  · rw [advance_bind_apply]
    refine bind_within (ih.expression _ _ (by omega)) (by omega) fun first t ht => ?_
    refine bind_within (ih.moreItems t (by omega)) (by omega) fun others u hu => ?_
    refine expect_bind_within (by omega) fun hclose => ?_
    have hu' := State.forward_length u
    change u.forward.ahead.length ≤ _
    omega

theorem moreItems_succ (ih : Enough n) (s : State) (h : 8 * s.ahead.length + 1 ≤ n + 1) :
    (Parser.moreItems (n + 1) s).Within s.ahead.length := by
  have hforward := State.forward_length s
  have hforward' := State.forward_length s.forward
  rw [Parser.moreItems, peekKind_bind_apply]
  split
  · rename_i hcomma
    have hlength := State.two_le_length_of_peek hcomma (by decide)
    rw [advance_bind_apply, advance_bind_apply]
    refine bind_within (ih.expression _ _ (by omega)) (by omega) fun item t ht => ?_
    refine bind_within (ih.moreItems t (by omega)) (by omega) fun others u hu => ?_
    exact Nat.le_trans hu (by omega)
  · exact Nat.le_refl _

theorem pairs_succ (ih : Enough n) (s : State) (hpos : 1 ≤ s.ahead.length)
    (h : 8 * s.ahead.length ≤ n + 1) : (Parser.pairs (n + 1) s).Within s.ahead.length := by
  have hforward := State.forward_length s
  rw [Parser.pairs, peekKind_bind_apply]
  split
  · change s.forward.ahead.length ≤ _
    omega
  · rw [advance_bind_apply]
    refine bind_within (ih.expression _ _ (by omega)) (by omega) fun key t ht => ?_
    refine expect_bind_within (by omega) fun hcolon => ?_
    have ht' := State.forward_length t
    have ht'' := State.forward_length t.forward
    rw [advance_bind_apply]
    refine bind_within (ih.expression _ _ (by omega)) (by omega) fun value u hu => ?_
    rw [peekKind_bind_apply]
    split
    · rename_i hbrace
      have hlength := State.two_le_length_of_peek hbrace (by decide)
      refine bind_within (ih.pairs u (by omega) (by omega)) (by omega) fun others v hv => ?_
      exact Nat.le_trans hv (by omega)
    · refine expect_bind_within (by omega) fun hcomma => ?_
      have hlength := State.two_le_length_of_peek hcomma (by decide)
      have hu' := State.forward_length u
      refine bind_within (ih.pairs _ (by omega) (by omega)) (by omega) fun others v hv => ?_
      exact Nat.le_trans hv (by omega)

theorem block_succ (ih : Enough n) (s : State) (hpos : 1 ≤ s.ahead.length)
    (h : 8 * s.ahead.length ≤ n + 1) : (Parser.block (n + 1) s).Within s.ahead.length := by
  have hforward := State.forward_length { s with blocks := s.blocks + 1 }
  rw [Parser.block, enterBlock_bind_apply, advance_bind_apply]
  dsimp only at hforward
  refine bind_within (ih.statements _ _ (by omega)) (by omega) fun body t ht => ?_
  exact Nat.le_trans ht (by omega)

theorem statements_succ (ih : Enough n) (inBlock : Bool) (s : State)
    (h : 8 * s.ahead.length + 4 ≤ n + 1) :
    (Parser.statements (n + 1) inBlock s).Within s.ahead.length := by
  rw [Parser.statements, current_bind_apply]
  split
  · exact Nat.le_refl _
  · rename_i hstop
    have hpos := State.length_pos_of_current (s := s) rfl fun hend => hstop (.inl hend)
    refine bind_within (orPassOver_within (ih.statement s (by omega))) (Nat.le_refl _)
      fun first t ht => ?_
    have ht' := State.forward_length t
    rw [advance_bind_apply]
    refine bind_within (ih.statements inBlock _ (by omega)) (by omega) fun others u hu => ?_
    exact Nat.le_trans hu (by omega)

theorem statement_succ (ih : Enough n) (s : State) (h : 8 * s.ahead.length + 3 ≤ n + 1) :
    (Parser.statement (n + 1) s).Within s.ahead.length := by
  have hforward := State.forward_length s
  have hforward' := State.forward_length s.forward
  have hforward'' := State.forward_length s.forward.forward
  apply statement_elim (motive := fun reply => reply.Within s.ahead.length)
  case bind =>
      intro _
      refine expect_bind_within (Nat.le_refl _) fun hname => ?_
      rw [current_bind_apply]
      refine expect_bind_within (by omega) fun hassign => ?_
      rw [advance_bind_apply]
      refine bind_within (ih.expression _ _ (by omega)) (by omega) fun value t ht => ?_
      exact skipSemicolon_bind_pure_within (by omega)
  case bareReturn => exact fun _ _ => skipSemicolon_bind_pure_within (Nat.le_refl _)
  case ret =>
      intro _ _
      refine bind_within (ih.expression _ _ (by omega)) (by omega) fun value t ht => ?_
      exact skipSemicolon_bind_pure_within (by omega)
  case expr =>
      intro _ _
      refine bind_within (ih.expression _ _ (by omega)) (by omega) fun value t ht => ?_
      exact skipSemicolon_bind_pure_within (by omega)

end Enough

theorem enough (n : Nat) : Enough n := by
  induction n with
  | zero =>
      constructor
      all_goals
        intros
        omega
  | succ n ih =>
      exact
        { expression := ih.expression_succ
          operand := ih.operand_succ
          continued := ih.continued_succ
          continuedOnce := ih.continuedOnce_succ
          items := ih.items_succ
          moreItems := ih.moreItems_succ
          pairs := ih.pairs_succ
          block := ih.block_succ
          statements := ih.statements_succ
          statement := ih.statement_succ }

/-- Reading tokens as a program always comes to an end, with a list of statements. -/
theorem run_eq_done (tokens : List Token) :
    ∃ program state, run tokens = .done program state := by
  have hwithin : (run tokens).Within tokens.length := by
    refine (enough _).statements false (.start tokens) ?_
    simp only [State.start, allowance]
    omega
  cases hrun : run tokens with
  | done program state => exact ⟨program, state, rfl⟩
  | failed state => exact (statements_ne_failed _ _ _ _ hrun).elim
  | exhausted =>
      rw [hrun] at hwithin
      exact hwithin.elim

theorem ofTokens_of_run {tokens : List Token} {program : Program} {state : State}
    (h : run tokens = .done program state) :
    Reading.ofTokens tokens = ⟨program, state.diagnostics⟩ := by
  rw [Reading.ofTokens, h]

end ScriptLang.Parser
