import ScriptLang.Proofs.Parser.Replies

namespace ScriptLang.Parser

variable {α β : Type}

/-- Tokens that end in a semicolon, with no word among them that begins a block. -/
inductive Delimited : List Token → Prop where
  | last {token : Token} (hkind : token.kind = .semicolon) : Delimited [token]
  | cons {token : Token} {rest : List Token} (hfn : token.kind ≠ .fnWord)
      (hif : token.kind ≠ .ifWord) (hrest : Delimited rest) : Delimited (token :: rest)

theorem delimited_append {tokens : List Token} {semicolon : Token}
    (hkind : semicolon.kind = .semicolon)
    (hplain : ∀ token ∈ tokens, token.kind ≠ .fnWord ∧ token.kind ≠ .ifWord) :
    Delimited (tokens ++ [semicolon]) := by
  induction tokens with
  | nil => exact .last hkind
  | cons token rest ih =>
      have htoken := hplain token (by simp)
      refine .cons htoken.1 htoken.2 (ih ?_)
      intro other hother
      exact hplain other (by simp [hother])

theorem Delimited.ne_nil {tokens : List Token} (h : Delimited tokens) : tokens ≠ [] := by
  cases h <;> simp

theorem Delimited.tail {tokens : List Token} (h : Delimited tokens) :
    tokens.tail = [] ∨ Delimited tokens.tail := by
  cases h with
  | last _ => exact .inl rfl
  | cons _ _ hrest => exact .inr hrest

namespace State

/-- The state with more tokens behind those that are there. -/
def followed (s : State) (more : List Token) : State := { s with ahead := s.ahead ++ more }

/-- The semicolon has not been passed. -/
def UpTo (s : State) : Prop := Delimited s.ahead

/-- The semicolon has not been reached. -/
def Inside (s : State) : Prop := Delimited s.ahead ∧ Delimited s.ahead.tail

variable {s : State}

theorem UpTo.followed_current (h : s.UpTo) (more : List Token) :
    (s.followed more).current = s.current := by
  obtain ⟨ahead, _, _, _, _⟩ := s
  cases h <;> rfl

theorem UpTo.followed_forward (h : s.UpTo) (more : List Token) :
    (s.followed more).forward = s.forward.followed more := by
  obtain ⟨ahead, _, _, _, _⟩ := s
  cases h <;> rfl

theorem UpTo.no_block (h : s.UpTo) :
    s.current.kind ≠ .fnWord ∧ s.current.kind ≠ .ifWord := by
  obtain ⟨ahead, _, _, _, _⟩ := s
  cases h with
  | last hkind => simp [current, hkind]
  | cons hfn hif _ => exact ⟨hfn, hif⟩

theorem UpTo.inside (h : s.UpTo) (hkind : s.current.kind ≠ .semicolon) : s.Inside := by
  obtain ⟨ahead, _, _, _, _⟩ := s
  cases h with
  | last hlast => exact absurd hlast hkind
  | cons hfn hif hrest => exact ⟨.cons hfn hif hrest, hrest⟩

theorem Inside.followed_peek (h : s.Inside) (more : List Token) :
    (s.followed more).peek = s.peek := by
  have hforward := UpTo.followed_current (s := s.forward) h.2 more
  rw [← UpTo.followed_forward h.1] at hforward
  exact hforward

theorem Inside.pass {kind : Token.Kind} (h : s.Inside) (hpeek : s.peek.kind = kind)
    (hkind : kind ≠ .semicolon) : s.forward.Inside := by
  apply UpTo.inside (s := s.forward) h.2
  subst hpeek
  exact hkind

end State

def Reply.followed (reply : Reply α) (more : List Token) : Reply α :=
  match reply with
  | .done a t => .done a (t.followed more)
  | .failed t => .failed (t.followed more)
  | .exhausted => .exhausted

/-- A rule begun in `s` takes no notice of what stands behind the semicolon.  It does not pass it,
and where it applies it keeps to `After`. -/
def Confined (After : State → Prop) (rule : Parser α) (s : State) : Prop :=
  (∀ more, rule (s.followed more) = (rule s).followed more) ∧
    (rule s).Ends (fun _ t => After t) State.UpTo

namespace Confined

variable {After Between : State → Prop} {s : State}

theorem exhausted : Confined After (exhausted : Parser α) s :=
  ⟨fun _ => rfl, trivial⟩

theorem pure {a : α} (h : After s) : Confined After (pure a : Parser α) s :=
  ⟨fun _ => rfl, h⟩

theorem reject {d : Diagnostic} (h : s.UpTo) : Confined After (reject d : Parser α) s :=
  ⟨fun _ => rfl, h⟩

theorem giveUp (h : s.UpTo) : Confined After (giveUp : Parser α) s :=
  ⟨fun _ => rfl, h⟩

theorem bind {rule : Parser α} {next : α → Parser β} (hrule : Confined Between rule s)
    (hnext : ∀ a t, Between t → Confined After (next a) t) :
    Confined After (rule >>= next) s := by
  obtain ⟨hsame, hends⟩ := hrule
  constructor
  · intro more
    rw [bind_apply, bind_apply, hsame more]
    cases hreply : rule s with
    | done a t =>
        rw [hreply] at hends
        exact (hnext a t hends).1 more
    | failed t => rfl
    | exhausted => rfl
  · exact bind_ends hends (fun _ hfailed => hfailed) fun a t ht => (hnext a t ht).2

theorem current {next : Token → Parser β} (h : s.UpTo)
    (hnext : Confined After (next s.current) s) : Confined After (current >>= next) s := by
  refine ⟨?_, hnext.2⟩
  intro more
  rw [current_bind_apply, h.followed_current]
  exact hnext.1 more

theorem peekKind {next : Token.Kind → Parser β} (h : s.Inside)
    (hnext : Confined After (next s.peek.kind) s) : Confined After (peekKind >>= next) s := by
  refine ⟨?_, hnext.2⟩
  intro more
  rw [peekKind_bind_apply, h.followed_peek]
  exact hnext.1 more

theorem advance {next : Unit → Parser β} (h : s.Inside)
    (hnext : Confined After (next ()) s.forward) : Confined After (advance >>= next) s := by
  refine ⟨?_, hnext.2⟩
  intro more
  rw [advance_bind_apply, State.UpTo.followed_forward h.1]
  exact hnext.1 more

theorem enterHash {next : Unit → Parser β}
    (hnext : Confined After (next ()) { s with openHashes := s.openHashes + 1 }) :
    Confined After (enterHash >>= next) s := hnext

theorem leaveHash {next : Unit → Parser β}
    (hnext : Confined After (next ()) { s with openHashes := s.openHashes - 1 }) :
    Confined After (leaveHash >>= next) s := hnext

theorem expect {kind : Token.Kind} {next : Unit → Parser β} (h : s.Inside)
    (hkind : kind ≠ .semicolon) (hnext : s.forward.Inside → Confined After (next ()) s.forward) :
    Confined After (expect kind >>= next) s := by
  constructor
  · intro more
    by_cases hpeek : s.peek.kind = kind
    · rw [expect_bind_of_eq hpeek, expect_bind_of_eq (by rwa [h.followed_peek]),
        State.UpTo.followed_forward h.1]
      exact (hnext (h.pass hpeek hkind)).1 more
    · rw [expect_bind_of_ne hpeek, expect_bind_of_ne (by rwa [h.followed_peek]),
        h.followed_peek]
      rfl
  · exact expect_bind_ends (fun _ => h.1) fun hpeek => (hnext (h.pass hpeek hkind)).2

theorem ending {a : β} (h : s.Inside) :
    Confined State.UpTo (skipSemicolon >>= fun _ => (Pure.pure a : Parser β)) s := by
  constructor
  · intro more
    by_cases hpeek : s.peek.kind = .semicolon
    · rw [skipSemicolon_bind_of_eq hpeek, skipSemicolon_bind_of_eq (by rwa [h.followed_peek]),
        State.UpTo.followed_forward h.1]
      rfl
    · rw [skipSemicolon_bind_of_ne hpeek, skipSemicolon_bind_of_ne (by rwa [h.followed_peek])]
      rfl
  · exact skipSemicolon_bind_ends (fun _ => h.2) fun _ => h.1

end Confined

/-- How far each rule gets.  A rule that begins on a token of its own may meet the semicolon
there, one that begins behind such a token has it still ahead. -/
structure Confinement (n : Nat) : Prop where
  expression : ∀ {s} floor, s.UpTo → Confined State.Inside (expression n floor) s
  operand : ∀ {s}, s.UpTo → Confined State.Inside (operand n) s
  continued : ∀ {s} floor left, s.Inside → Confined State.Inside (continued n floor left) s
  continuedOnce : ∀ {s} left continuation, s.Inside →
    Confined State.Inside (continuedOnce n left continuation) s
  items : ∀ {s close}, close ≠ .semicolon → s.Inside → Confined State.Inside (items n close) s
  moreItems : ∀ {s}, s.Inside → Confined State.Inside (moreItems n) s
  pairs : ∀ {s}, s.Inside → Confined State.Inside (pairs n) s
  statement : ∀ {s}, s.UpTo → Confined State.UpTo (statement n) s

namespace Confinement

variable {n : Nat} {s : State}

theorem operand_succ (ih : Confinement n) (h : s.UpTo) :
    Confined State.Inside (Parser.operand (n + 1)) s := by
  have hinside {kind : Token.Kind} (hcurrent : s.current.kind = kind)
      (hkind : kind ≠ .semicolon) : s.Inside := by
    apply h.inside
    rwa [hcurrent]
  rw [Parser.operand]
  refine .current h ?_
  cases hkind : s.current.kind
  case ident | string | trueWord | falseWord => exact .pure (hinside hkind (by decide))
  case int =>
      dsimp only
      split
      · exact .pure (hinside hkind (by decide))
      · exact .reject h
  case bang | minus =>
      have hbegun := hinside hkind (by decide)
      exact .advance hbegun (.bind (ih.expression _ hbegun.2) fun right t ht => .pure ht)
  case lparen =>
      have hbegun := hinside hkind (by decide)
      refine .advance hbegun (.bind (ih.expression _ hbegun.2) fun inner t ht => ?_)
      exact .expect ht (by decide) fun hclosed => .pure hclosed
  case ifWord => exact absurd hkind h.no_block.2
  case fnWord => exact absurd hkind h.no_block.1
  case lbracket =>
      have hbegun := hinside hkind (by decide)
      exact .bind (ih.items (by decide) hbegun) fun elements t ht => .pure ht
  case lbrace =>
      have hbegun := hinside hkind (by decide)
      exact .enterHash (.bind (ih.pairs hbegun) fun entries t ht => .leaveHash (.pure ht))
  all_goals exact .reject h

theorem continued_succ (ih : Confinement n) (floor : Precedence) (left : Expr) (h : s.Inside) :
    Confined State.Inside (Parser.continued (n + 1) floor left) s := by
  rw [Parser.continued]
  refine .peekKind h ?_
  split
  · rename_i hbinds
    split
    · exact .pure h
    · have hpassed := h.pass rfl hbinds.1
      refine .advance h (.bind (ih.continuedOnce left _ hpassed) ?_)
      intro larger t ht
      exact ih.continued floor larger ht
  · exact .pure h

theorem continuedOnce_succ (ih : Confinement n) (left : Expr) (continuation : Continuation)
    (h : s.Inside) :
    Confined State.Inside (Parser.continuedOnce (n + 1) left continuation) s := by
  cases continuation with
  | operator =>
      refine .current h.1 ?_
      split
      · exact .giveUp h.1
      · exact .advance h (.bind (ih.expression _ h.2) fun right t ht => .pure ht)
  | call => exact .bind (ih.items (by decide) h) fun args t ht => .pure ht
  | index =>
      refine .advance h (.bind (ih.expression _ h.2) fun position t ht => ?_)
      exact .expect ht (by decide) fun hclosed => .pure hclosed

theorem items_succ (ih : Confinement n) {close : Token.Kind} (hclose : close ≠ .semicolon)
    (h : s.Inside) : Confined State.Inside (Parser.items (n + 1) close) s := by
  rw [Parser.items]
  refine .peekKind h ?_
  split
  · rename_i hpeek
    exact .advance h (.pure (h.pass hpeek hclose))
  · refine .advance h (.bind (ih.expression _ h.2) fun first t ht => ?_)
    refine .bind (ih.moreItems ht) fun others u hu => ?_
    exact .expect hu hclose fun hclosed => .pure hclosed

theorem moreItems_succ (ih : Confinement n) (h : s.Inside) :
    Confined State.Inside (Parser.moreItems (n + 1)) s := by
  rw [Parser.moreItems]
  refine .peekKind h ?_
  split
  · rename_i hcomma
    have hpassed := h.pass hcomma (by decide)
    refine .advance h (.advance hpassed (.bind (ih.expression _ hpassed.2) fun item t ht => ?_))
    exact .bind (ih.moreItems ht) fun others u hu => .pure hu
  · exact .pure h

theorem pairs_succ (ih : Confinement n) (h : s.Inside) :
    Confined State.Inside (Parser.pairs (n + 1)) s := by
  rw [Parser.pairs]
  refine .peekKind h ?_
  split
  · rename_i hpeek
    exact .advance h (.pure (h.pass hpeek (by decide)))
  · refine .advance h (.bind (ih.expression _ h.2) fun key t ht => ?_)
    refine .expect ht (by decide) fun hcolon => .advance hcolon ?_
    refine .bind (ih.expression _ hcolon.2) fun value u hu => .peekKind hu ?_
    split
    · exact .bind (ih.pairs hu) fun others v hv => .pure hv
    · refine .expect hu (by decide) fun hcomma => ?_
      exact .bind (ih.pairs hcomma) fun others v hv => .pure hv

theorem statement_succ (ih : Confinement n) (h : s.UpTo) :
    Confined State.UpTo (Parser.statement (n + 1)) s := by
  rw [Parser.statement]
  refine .current h ?_
  split
  · rename_i hkind
    have hbegun := h.inside (by rw [hkind]; decide)
    refine .expect hbegun (by decide) fun hname => .current hname.1 ?_
    refine .expect hname (by decide) fun hassign => .advance hassign ?_
    exact .bind (ih.expression _ hassign.2) fun value t ht => .ending ht
  · rename_i hkind
    have hbegun := h.inside (by rw [hkind]; decide)
    refine .peekKind hbegun ?_
    split
    · exact .ending hbegun
    · refine .advance hbegun (.bind (ih.expression _ hbegun.2) fun value t ht => ?_)
      exact .ending ht
  · exact .bind (ih.expression _ h) fun value t ht => .ending ht

end Confinement

theorem confinement (n : Nat) : Confinement n := by
  induction n with
  | zero =>
      constructor
      all_goals
        intros
        exact .exhausted
  | succ n ih =>
      refine
        { expression := ?_
          operand := ih.operand_succ
          continued := ih.continued_succ
          continuedOnce := ih.continuedOnce_succ
          items := ih.items_succ
          moreItems := ih.moreItems_succ
          pairs := ih.pairs_succ
          statement := ih.statement_succ }
      intro s floor h
      exact .bind (ih.operand h) fun left t ht => ih.continued floor left ht

end ScriptLang.Parser
