import ScriptLang.Proofs.Parser.Replies

namespace ScriptLang.Parser

variable {α β : Type}

/-- The state with all that is on record in `earlier` put on record first. -/
def State.recalling (s earlier : State) : State :=
  { s with
    diagnostics := earlier.diagnostics ++ s.diagnostics
    dropped := earlier.dropped + s.dropped }

theorem State.recalling_start (s : State) (tokens : List Token) :
    s.recalling (.start tokens) = s := by
  simp [recalling, start]

theorem State.recalling_record (s earlier : State) (d : Diagnostic) :
    (s.record d).recalling earlier = (s.recalling earlier).record d := by
  simp [recalling, record]

def Reply.recalling (reply : Reply α) (earlier : State) : Reply α :=
  match reply with
  | .done a t => .done a (t.recalling earlier)
  | .failed t => .failed (t.recalling earlier)
  | .exhausted => .exhausted

theorem Reply.recalling_start (reply : Reply α) (tokens : List Token) :
    reply.recalling (.start tokens) = reply := by
  cases reply with
  | done a t => exact congrArg (Reply.done a) (t.recalling_start tokens)
  | failed t => exact congrArg Reply.failed (t.recalling_start tokens)
  | exhausted => rfl

/-- `larger` gives every reply that `rule` gives within its allowance, and gives it also when
there is more on record. -/
def Extends (earlier : State) (rule larger : Parser α) : Prop :=
  ∀ s, rule s = .exhausted ∨ larger (s.recalling earlier) = (rule s).recalling earlier

namespace Extends

variable {earlier : State}

theorem exhausted (larger : Parser α) : Extends earlier exhausted larger :=
  fun _ => .inl rfl

theorem bind {rule larger : Parser α} {next next' : α → Parser β}
    (hrule : Extends earlier rule larger) (hnext : ∀ a, Extends earlier (next a) (next' a)) :
    Extends earlier (rule >>= next) (larger >>= next') := by
  intro s
  rw [bind_apply, bind_apply]
  rcases hrule s with hs | hs
  · exact .inl (by rw [hs, Reply.exhausted_andThen])
  · rw [hs]
    cases rule s with
    | done a t => exact hnext a t
    | failed t => exact .inr rfl
    | exhausted => exact .inr rfl

theorem pure (a : α) : Extends earlier (pure a : Parser α) (pure a) :=
  fun _ => .inr rfl

theorem reject (d : Diagnostic) : Extends earlier (reject d : Parser α) (reject d) := by
  intro s
  refine .inr (congrArg Reply.failed ?_)
  exact (s.recalling_record earlier d).symm

theorem giveUp : Extends earlier (giveUp : Parser α) giveUp :=
  fun _ => .inr rfl

theorem current : Extends earlier current current :=
  fun _ => .inr rfl

theorem peekKind : Extends earlier peekKind peekKind :=
  fun _ => .inr rfl

theorem advance : Extends earlier advance advance :=
  fun _ => .inr rfl

theorem expect (kind : Token.Kind) : Extends earlier (expect kind) (expect kind) := by
  intro s
  by_cases h : s.peek.kind = kind
  · right
    rw [Parser.expect, Parser.expect, if_pos h]
    exact if_pos h
  · rw [Parser.expect, Parser.expect, if_neg h]
    have hpeek : (s.recalling earlier).peek.kind ≠ kind := h
    rw [if_neg hpeek]
    exact reject _ s

theorem skipSemicolon : Extends earlier skipSemicolon skipSemicolon := by
  intro s
  right
  by_cases h : s.peek.kind = .semicolon
  · rw [Parser.skipSemicolon, Parser.skipSemicolon, if_pos h]
    exact if_pos h
  · rw [Parser.skipSemicolon, Parser.skipSemicolon, if_neg h]
    exact if_neg h

theorem orPassOver {rule larger : Parser α} (h : Extends earlier rule larger) :
    Extends earlier (orPassOver rule) (orPassOver larger) := by
  intro s
  rcases h s with hs | hs
  · exact .inl (orPassOver_of_exhausted hs)
  · right
    cases hrule : rule s with
    | done a t =>
        rw [hrule] at hs
        rw [orPassOver_of_done hs, orPassOver_of_done hrule]
        rfl
    | failed t =>
        rw [hrule] at hs
        rw [orPassOver_of_failed hs, orPassOver_of_failed hrule]
        rfl
    | exhausted =>
        rw [hrule] at hs
        rw [orPassOver_of_exhausted hs, orPassOver_of_exhausted hrule]
        rfl

theorem moreParameters (n : Nat) :
    Extends earlier (moreParameters n) (moreParameters (n + 1)) := by
  induction n with
  | zero => exact .exhausted _
  | succ n ih =>
      refine .bind .peekKind fun next => ?_
      split
      · refine .bind .advance fun _ => .bind (.expect _) fun _ => .bind .current fun name => ?_
        exact .bind ih fun names => .pure _
      · exact .bind (.expect _) fun _ => .pure _

theorem parameters (n : Nat) : Extends earlier (parameters n) (parameters (n + 1)) := by
  refine .bind .peekKind fun next => ?_
  split
  · exact .bind .advance fun _ => .pure _
  · refine .bind (.expect _) fun _ => .bind .current fun name => ?_
    exact .bind (.moreParameters n) fun names => .pure _

end Extends

/-- One more unit of allowance and more on record change no reply of any rule. -/
structure Grows (earlier : State) (n : Nat) : Prop where
  expression : ∀ floor, Extends earlier (expression n floor) (expression (n + 1) floor)
  operand : Extends earlier (operand n) (operand (n + 1))
  continued : ∀ floor left,
    Extends earlier (continued n floor left) (continued (n + 1) floor left)
  continuedOnce : ∀ left continuation,
    Extends earlier (continuedOnce n left continuation) (continuedOnce (n + 1) left continuation)
  items : ∀ close, Extends earlier (items n close) (items (n + 1) close)
  moreItems : Extends earlier (moreItems n) (moreItems (n + 1))
  pairs : Extends earlier (pairs n) (pairs (n + 1))
  block : Extends earlier (block n) (block (n + 1))
  statements : ∀ inBlock, Extends earlier (statements n inBlock) (statements (n + 1) inBlock)
  statement : Extends earlier (statement n) (statement (n + 1))

namespace Grows

variable {earlier : State} {n : Nat}

theorem operand_succ (ih : Grows earlier n) :
    Extends earlier (Parser.operand (n + 1)) (Parser.operand (n + 2)) := by
  rw [Parser.operand, Parser.operand]
  refine .bind .current fun token => ?_
  split
  · exact .pure _
  · split
    · exact .pure _
    · exact .reject _
  · exact .pure _
  · exact .pure _
  · exact .pure _
  · exact .bind .advance fun _ => .bind (ih.expression _) fun right => .pure _
  · exact .bind .advance fun _ => .bind (ih.expression _) fun right => .pure _
  · refine .bind .advance fun _ => .bind (ih.expression _) fun inner => ?_
    exact .bind (.expect _) fun _ => .pure _
  · refine .bind (.expect _) fun _ => .bind .advance fun _ => ?_
    refine .bind (ih.expression _) fun condition => .bind (.expect _) fun _ => ?_
    refine .bind (.expect _) fun _ => .bind ih.block fun yes => .bind .peekKind fun next => ?_
    split
    · refine .bind .advance fun _ => .bind (.expect _) fun _ => ?_
      exact .bind ih.block fun no => .pure _
    · exact .pure _
  · refine .bind (.expect _) fun _ => .bind (.parameters n) fun params => ?_
    exact .bind (.expect _) fun _ => .bind ih.block fun body => .pure _
  · exact .bind (ih.items _) fun elements => .pure _
  · refine .bind (fun _ => .inr rfl) fun _ => .bind ih.pairs fun entries => ?_
    exact .bind (fun _ => .inr rfl) fun _ => .pure _
  · exact .reject _

theorem continued_succ (ih : Grows earlier n) (floor : Precedence) (left : Expr) :
    Extends earlier (Parser.continued (n + 1) floor left)
      (Parser.continued (n + 2) floor left) := by
  rw [Parser.continued, Parser.continued]
  refine .bind .peekKind fun next => ?_
  split
  · split
    · exact .pure _
    · refine .bind .advance fun _ => .bind (ih.continuedOnce _ _) fun larger => ?_
      exact ih.continued _ _
  · exact .pure _

theorem continuedOnce_succ (ih : Grows earlier n) (left : Expr) (continuation : Continuation) :
    Extends earlier (Parser.continuedOnce (n + 1) left continuation)
      (Parser.continuedOnce (n + 2) left continuation) := by
  cases continuation with
  | operator =>
      refine .bind .current fun token => ?_
      split
      · exact .giveUp
      · exact .bind .advance fun _ => .bind (ih.expression _) fun right => .pure _
  | call => exact .bind (ih.items _) fun args => .pure _
  | index =>
      refine .bind .advance fun _ => .bind (ih.expression _) fun position => ?_
      exact .bind (.expect _) fun _ => .pure _

theorem items_succ (ih : Grows earlier n) (close : Token.Kind) :
    Extends earlier (Parser.items (n + 1) close) (Parser.items (n + 2) close) := by
  refine .bind .peekKind fun next => ?_
  split
  · exact .bind .advance fun _ => .pure _
  · refine .bind .advance fun _ => .bind (ih.expression _) fun first => ?_
    exact .bind ih.moreItems fun others => .bind (.expect _) fun _ => .pure _

theorem moreItems_succ (ih : Grows earlier n) :
    Extends earlier (Parser.moreItems (n + 1)) (Parser.moreItems (n + 2)) := by
  refine .bind .peekKind fun next => ?_
  split
  · refine .bind .advance fun _ => .bind .advance fun _ => ?_
    exact .bind (ih.expression _) fun item => .bind ih.moreItems fun others => .pure _
  · exact .pure _

theorem pairs_succ (ih : Grows earlier n) :
    Extends earlier (Parser.pairs (n + 1)) (Parser.pairs (n + 2)) := by
  refine .bind .peekKind fun next => ?_
  split
  · exact .bind .advance fun _ => .pure _
  · refine .bind .advance fun _ => .bind (ih.expression _) fun key => ?_
    refine .bind (.expect _) fun _ => .bind .advance fun _ => ?_
    refine .bind (ih.expression _) fun value => .bind .peekKind fun behind => ?_
    split
    · exact .bind ih.pairs fun others => .pure _
    · exact .bind (.expect _) fun _ => .bind ih.pairs fun others => .pure _

theorem block_succ (ih : Grows earlier n) :
    Extends earlier (Parser.block (n + 1)) (Parser.block (n + 2)) := by
  refine .bind (fun _ => .inr rfl) fun _ => .bind .advance fun _ => ?_
  exact .bind (ih.statements _) fun body => .bind (fun _ => .inr rfl) fun _ => .pure _

theorem statements_succ (ih : Grows earlier n) (inBlock : Bool) :
    Extends earlier (Parser.statements (n + 1) inBlock) (Parser.statements (n + 2) inBlock) := by
  rw [Parser.statements, Parser.statements]
  refine .bind .current fun token => ?_
  split
  · exact .pure _
  · refine .bind ih.statement.orPassOver fun first => .bind .advance fun _ => ?_
    exact .bind (ih.statements _) fun others => .pure _

theorem statement_succ (ih : Grows earlier n) :
    Extends earlier (Parser.statement (n + 1)) (Parser.statement (n + 2)) := by
  rw [Parser.statement, Parser.statement]
  refine .bind .current fun token => ?_
  split
  · refine .bind (.expect _) fun _ => .bind .current fun name => .bind (.expect _) fun _ => ?_
    refine .bind .advance fun _ => .bind (ih.expression _) fun value => ?_
    exact .bind .skipSemicolon fun _ => .pure _
  · refine .bind .peekKind fun next => ?_
    split
    · exact .bind .skipSemicolon fun _ => .pure _
    · refine .bind .advance fun _ => .bind (ih.expression _) fun value => ?_
      exact .bind .skipSemicolon fun _ => .pure _
  · exact .bind (ih.expression _) fun value => .bind .skipSemicolon fun _ => .pure _

end Grows

theorem grows (earlier : State) (n : Nat) : Grows earlier n := by
  induction n with
  | zero =>
      constructor
      all_goals
        intros
        exact .exhausted _
  | succ n ih =>
      exact
        { expression := fun floor => .bind ih.operand fun left => ih.continued floor left
          operand := ih.operand_succ
          continued := ih.continued_succ
          continuedOnce := ih.continuedOnce_succ
          items := ih.items_succ
          moreItems := ih.moreItems_succ
          pairs := ih.pairs_succ
          block := ih.block_succ
          statements := ih.statements_succ
          statement := ih.statement_succ }

/-- Any larger allowance gives the reply that a smaller one has given. -/
theorem reply_of_le {rule : Nat → Parser α}
    (hgrows : ∀ n, Extends (.start []) (rule n) (rule (n + 1))) {m n : Nat} (hle : m ≤ n)
    {s : State} (hreply : rule m s ≠ .exhausted) : rule n s = rule m s := by
  induction hle with
  | refl => rfl
  | @step n _ ih =>
      rcases hgrows n s with hs | hs
      · rw [ih] at hs
        exact absurd hs hreply
      · rw [State.recalling_start, Reply.recalling_start] at hs
        exact hs.trans ih

theorem statements_recalling {n : Nat} {inBlock : Bool} {s : State} (earlier : State)
    (hreply : statements n inBlock s ≠ .exhausted) :
    statements (n + 1) inBlock (s.recalling earlier) =
      (statements n inBlock s).recalling earlier :=
  ((grows earlier n).statements inBlock s).resolve_left hreply

end ScriptLang.Parser
