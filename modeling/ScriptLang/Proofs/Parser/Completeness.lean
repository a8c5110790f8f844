import ScriptLang.Proofs.Parser.Cases

/-!
What follows the grammar is read.

`Arrives rule s a rest` says that a rule gives `a` whenever its allowance is large enough, and
stops on the token in front of `rest` with nothing else changed.  `Parses` gives each phrase what
its rule has to do.  The induction is on the derivation.  An expression of a level is read up to
the point where the loop of continuations holds it as its left part, so that the derivation can
grow to the right while the rule is still under way.
-/

namespace ScriptLang.Parser

open Grammar

variable {α β : Type}

/-- The reply of a rule for every allowance that is large enough. -/
def Yields (rule : Nat → Parser α) (s : State) (reply : Reply α) : Prop :=
  ∃ m, ∀ n, m ≤ n → rule n s = reply

theorem Yields.succ {rule : Nat → Parser α} {s : State} {reply : Reply α}
    (h : Yields (fun n => rule (n + 1)) s reply) : Yields rule s reply := by
  obtain ⟨m, hm⟩ := h
  refine ⟨m + 1, ?_⟩
  intro n hn
  obtain ⟨k, rfl⟩ := Nat.exists_eq_add_of_le' (Nat.le_of_add_left_le hn)
  exact hm k (by omega)

theorem Yields.bind {rule : Nat → Parser α} {next : Nat → α → Parser β} {s t : State} {a : α}
    {reply : Reply β} (hrule : Yields rule s (.done a t))
    (hnext : Yields (fun n => next n a) t reply) :
    Yields (fun n => rule n >>= next n) s reply := by
  obtain ⟨m, hm⟩ := hrule
  obtain ⟨m', hm'⟩ := hnext
  refine ⟨max m m', ?_⟩
  intro n hn
  have hfirst := hm n (by omega)
  have hsecond := hm' n (by omega)
  exact (bind_of_done hfirst).trans hsecond

/-- A rule gives a result and stops on the token in front of `rest`. -/
def Arrives (rule : Nat → Parser α) (s : State) (a : α) (rest : List Token) : Prop :=
  ∃ last, last.tail = rest ∧ Yields rule s (.done a (s.facing last))

namespace Arrives

variable {rule : Nat → Parser α} {next : Nat → α → Parser β} {s : State} {a : α} {b : β}
  {mid rest : List Token}

theorem succ (h : Arrives (fun n => rule (n + 1)) s a rest) : Arrives rule s a rest := by
  obtain ⟨last, hlast, hyields⟩ := h
  exact ⟨last, hlast, hyields.succ⟩

theorem bind (h : Arrives rule s a mid)
    (hnext : ∀ t, t.ahead.tail = mid → Arrives (fun n => next n a) t b rest) :
    Arrives (fun n => rule n >>= next n) s b rest := by
  obtain ⟨last, hlast, hyields⟩ := h
  obtain ⟨last', hlast', hyields'⟩ := hnext (s.facing last) hlast
  exact ⟨last', hlast', hyields.bind hyields'⟩

theorem pure (h : s.ahead.tail = rest) : Arrives (fun _ => pure a) s a rest :=
  ⟨s.ahead, h, 0, fun _ _ => rfl⟩

theorem current {next : Nat → Token → Parser β} {token : Token} {tokens : List Token}
    (hahead : s.ahead = token :: tokens) (h : Arrives (fun n => next n token) s b rest) :
    Arrives (fun n => current >>= next n) s b rest := by
  have hcurrent : s.current = token := by rw [State.current, hahead, List.headD_cons]
  rw [← hcurrent] at h
  exact h

theorem peekKind {next : Nat → Token.Kind → Parser β} {tokens : List Token}
    (htokens : s.ahead.tail = tokens)
    (h : Arrives (fun n => next n (kindAhead tokens)) s b rest) :
    Arrives (fun n => peekKind >>= next n) s b rest := by
  rw [← htokens] at h
  exact h

theorem advance {next : Nat → Unit → Parser β}
    (h : Arrives (fun n => next n ()) s.forward b rest) :
    Arrives (fun n => advance >>= next n) s b rest := h

theorem ite_pos {p : Prop} [Decidable p] {other : Nat → Parser α} (hp : p)
    (h : Arrives rule s a rest) : Arrives (fun n => if p then rule n else other n) s a rest := by
  simpa only [if_pos hp] using h

theorem ite_neg {p : Prop} [Decidable p] {other : Nat → Parser α} (hp : ¬ p)
    (h : Arrives rule s a rest) : Arrives (fun n => if p then other n else rule n) s a rest := by
  simpa only [if_neg hp] using h

theorem expect {kind : Token.Kind} {next : Nat → Unit → Parser β} (hnext : s.peek.kind = kind)
    (h : Arrives (fun n => next n ()) s.forward b rest) :
    Arrives (fun n => expect kind >>= next n) s b rest := by
  obtain ⟨last, hlast, m, hm⟩ := h
  refine ⟨last, hlast, m, ?_⟩
  intro n hn
  exact (expect_bind_of_eq hnext _).trans (hm n hn)

theorem ending {behind : List Token} (hend : Ends behind rest) (h : s.ahead.tail = behind) :
    Arrives (fun _ => skipSemicolon >>= fun _ => Pure.pure a) s a rest := by
  cases hend with
  | semicolon =>
      refine ⟨s.ahead.tail, by rw [h, List.tail_cons], 0, ?_⟩
      intro n _
      have hpeek : s.peek.kind = .semicolon := by rw [State.peek, h]; rfl
      exact skipSemicolon_bind_of_eq hpeek _
  | missing hmissing =>
      refine ⟨s.ahead, h, 0, ?_⟩
      intro n _
      have hpeek : s.peek.kind ≠ .semicolon := by rw [State.peek, h]; exact hmissing
      exact skipSemicolon_bind_of_ne hpeek _

end Arrives

theorem peek_kind_eq {s : State} {tokens : List Token} (h : s.ahead.tail = tokens) :
    s.peek.kind = kindAhead tokens := by
  rw [← h]
  rfl

theorem current_kind_eq {s : State} {tokens : List Token} (h : s.ahead = tokens) :
    s.current.kind = kindAhead tokens := by
  rw [← h]
  rfl

/-- What may stand behind an expression of a level: nothing that binds tighter, and no `else` that
would be taken for a second branch. -/
def Follows (bound : Nat) (rest : List Token) : Prop :=
  Bounded bound (kindAhead rest) ∧ kindAhead rest ≠ .elseWord

theorem follows_joint (joint : Joint) {text : String} {rest : List Token} :
    Follows joint.level.rank (⟨joint.kind, text⟩ :: rest) := by
  constructor
  · intro other hkind
    cases Joint.eq_of_kind_eq hkind
    exact Nat.le_refl _
  · rcases joint with op | _ | _
    · cases op <;> simp [Joint.kind, BinaryOp.kind]
    · simp [Joint.kind]
    · simp [Joint.kind]

/-- What the rule of a phrase does on tokens that begin with it. -/
def Parses : Phrase → List Token → List Token → Prop
  | .level level e, tokens, rest => ∀ floor s, floor.rank ≤ 5 → floor.above.rank ≤ level.rank →
      s.ahead = tokens → Follows level.rank rest → ∃ last, last.tail = rest ∧
        ∀ reply, Yields (continued · floor e) (s.facing last) reply →
          Yields (expression · floor) s reply
  | .expression e, tokens, rest => ∀ s, s.ahead = tokens → kindAhead rest ≠ .elseWord →
      Arrives (expression · .lowest) s e rest
  | .items close es, tokens, rest => close = .rparen ∨ close = .rbracket →
      ∀ s, s.ahead.tail = tokens → Arrives (items · close) s es rest
  | .moreItems close es, tokens, rest => close = .rparen ∨ close = .rbracket →
      ∀ s, s.ahead.tail = tokens →
        ∃ text, Arrives moreItems s es (⟨close, text⟩ :: rest)
  | .params names, tokens, rest => ∀ s, s.ahead.tail = tokens → Arrives parameters s names rest
  | .moreParams names, tokens, rest =>
      ∀ s, s.ahead.tail = tokens → Arrives moreParameters s names rest
  | .pairs ps, tokens, rest => ∀ s, s.ahead.tail = tokens → Arrives pairs s ps rest
  | .morePairs ps, tokens, rest => ∀ s, s.ahead.tail = tokens →
      s.peek.kind = .rbrace ∧ Arrives pairs s ps rest ∨
        s.peek.kind = .comma ∧ Arrives pairs s.forward ps rest
  | .block body, tokens, rest => ∀ s, s.ahead = tokens → Arrives block s body rest
  | .statements ss, tokens, rest => ∀ inBlock s, s.ahead = tokens →
      kindAhead rest = .eof ∨ inBlock = true ∧ kindAhead rest = .rbrace →
      Yields (statements · inBlock) s (.done ss (s.facing rest))
  | .statement st, tokens, rest => ∀ s, s.ahead = tokens → kindAhead rest ≠ .elseWord →
      Arrives statement s st rest

section Expressions

theorem continued_stops {floor : Precedence} {e : Expr} {t : State} (hfloor : floor.rank ≤ 5)
    (hnext : Bounded floor.rank (kindAhead t.ahead.tail)) :
    Yields (continued · floor e) t (.done e t) := by
  apply Yields.succ
  refine ⟨0, ?_⟩
  intro n _
  apply continued_elim (motive := fun reply => reply = .done e t)
  case stop => exact fun _ => rfl
  case goOn =>
      intro joint hkind hbinds
      rw [Joint.lt_precedence_iff hfloor] at hbinds
      have hbound := hnext joint hkind
      omega

theorem Parses.arrives {level : Level} {e : Expr} {tokens rest : List Token}
    (h : Parses (.level level e) tokens rest) {floor : Precedence} {s : State}
    (hfloor : floor.rank ≤ 5) (hlevel : floor.above.rank ≤ level.rank) (hahead : s.ahead = tokens)
    (hfollows : Follows level.rank rest) (hbounded : Bounded floor.rank (kindAhead rest)) :
    Arrives (expression · floor) s e rest := by
  obtain ⟨last, hlast, hyields⟩ := h floor s hfloor hlevel hahead hfollows
  refine ⟨last, hlast, hyields _ (continued_stops hfloor ?_)⟩
  change Bounded floor.rank (kindAhead last.tail)
  rw [hlast]
  exact hbounded

theorem parses_operand {level : Level} {e : Expr} {tokens rest : List Token}
    (h : ∀ s, s.ahead = tokens → Follows level.rank rest → Arrives operand s e rest) :
    Parses (.level level e) tokens rest := by
  intro floor s _ _ hahead hfollows
  obtain ⟨last, hlast, hyields⟩ := h s hahead hfollows
  refine ⟨last, hlast, ?_⟩
  intro reply hreply
  exact Yields.succ (hyields.bind hreply)

theorem lt_rank_of_above_le {floor : Precedence} {joint : Joint} (hfloor : floor.rank ≤ 5)
    (h : floor.above.rank ≤ joint.level.rank) : floor.rank < joint.level.rank := by
  rcases joint with op | _ | _
  · have hop := op.level_rank_le
    cases floor <;> simp only [Precedence.above, Precedence.rank, Level.rank, Joint.level]
      at h hfloor hop ⊢ <;> omega
  · change floor.rank < 6
    omega
  · change floor.rank < 6
    omega

theorem parses_continued (joint : Joint) {left larger : Expr} {text : String}
    {tokens behind rest : List Token}
    (hleft : Parses (.level joint.level left) tokens (⟨joint.kind, text⟩ :: behind))
    (honce : ∀ s, s.ahead = ⟨joint.kind, text⟩ :: behind → Follows joint.level.rank rest →
      Arrives (continuedOnce · left joint.continuation) s larger rest) :
    Parses (.level joint.level larger) tokens rest := by
  intro floor s hfloor hlevel hahead hfollows
  obtain ⟨last, hlast, hyields⟩ := hleft floor s hfloor hlevel hahead (follows_joint joint)
  have hpeek : (s.facing last).peek.kind = joint.kind := by
    rw [peek_kind_eq (s := s.facing last) hlast, kindAhead_cons]
  obtain ⟨last', hlast', hyields'⟩ := honce (s.facing last).forward hlast hfollows
  refine ⟨last', hlast', ?_⟩
  intro reply hreply
  apply hyields
  apply Yields.succ
  have hboth : Yields (fun n => continuedOnce n left joint.continuation >>= continued n floor)
      (s.facing last).forward reply := hyields'.bind hreply
  obtain ⟨m, hm⟩ := hboth
  refine ⟨m, ?_⟩
  intro n hn
  have hbinds := (joint.lt_precedence_iff hfloor).mpr (lt_rank_of_above_le hfloor hlevel)
  change continued (n + 1) floor left (s.facing last) = reply
  rw [← hm n hn, continued, peekKind_bind_apply, hpeek, if_pos ⟨joint.kind_ne_semicolon, hbinds⟩,
    joint.ofKind?_kind]
  rfl

theorem parses_looser {level tighter : Level} {e : Expr} {tokens rest : List Token}
    (hlevel : level.next? = some tighter) (h : Parses (.level tighter e) tokens rest) :
    Parses (.level level e) tokens rest := by
  intro floor s hfloor hrank hahead hfollows
  have hnext := Level.rank_of_next? hlevel
  have hmono := hfollows.1.mono (show level.rank ≤ tighter.rank by omega)
  exact h floor s hfloor (by omega) hahead ⟨hmono, hfollows.2⟩

theorem parses_binary {left right : Expr} {op : BinaryOp} {tighter : Level} {text : String}
    {tokens behind rest : List Token} (hlevel : op.level.next? = some tighter)
    (hleft : Parses (.level op.level left) tokens (⟨op.kind, text⟩ :: behind))
    (hright : Parses (.level tighter right) behind rest) :
    Parses (.level op.level (.binary left op right)) tokens rest := by
  refine parses_continued (.operator op) hleft ?_
  intro s hahead hfollows
  have hbehind : s.forward.ahead = behind := by rw [State.forward_ahead, hahead, List.tail_cons]
  have hnext := Level.rank_of_next? hlevel
  have hrank : (Precedence.ofKind op.kind).rank = op.level.rank := op.precedence_rank
  have hbound := op.level_rank_le
  rw [op.next?_level, Option.some.injEq] at hlevel
  refine .succ (.current hahead ?_)
  simp only [Joint.kind, op.ofKind?_kind]
  refine .advance (.bind (hright.arrives ?_ ?_ hbehind ?_ ?_) ?_)
  · omega
  · exact Nat.le_of_eq (congrArg Level.rank hlevel)
  · exact ⟨hfollows.1.mono (show op.level.rank ≤ tighter.rank by omega), hfollows.2⟩
  · rw [hrank]
    exact hfollows.1
  · intro t ht
    exact .pure ht

theorem parses_unary {op : UnaryOp} {right : Expr} {text : String} {tokens rest : List Token}
    (h : Parses (.level .unary right) tokens rest) :
    Parses (.level .unary (.unary op right)) (⟨op.kind, text⟩ :: tokens) rest := by
  apply parses_operand
  intro s hahead hfollows
  refine .succ (.current hahead ?_)
  have htail : s.forward.ahead = tokens := by rw [State.forward_ahead, hahead, List.tail_cons]
  have hright : Arrives (expression · .unary) s.forward right rest :=
    h.arrives (by decide) (by decide) htail hfollows hfollows.1
  cases op with
  | not => exact .advance (hright.bind fun t ht => .pure ht)
  | negate => exact .advance (hright.bind fun t ht => .pure ht)

theorem parses_call {callee : Expr} {args : List Expr} {text : String}
    {tokens behind rest : List Token}
    (hcallee : Parses (.level .applied callee) tokens (⟨.lparen, text⟩ :: behind))
    (hargs : Parses (.items .rparen args) behind rest) :
    Parses (.level .applied (.call callee args)) tokens rest := by
  refine parses_continued .call hcallee ?_
  intro s hahead _
  have hbehind : s.ahead.tail = behind := by rw [hahead, List.tail_cons]
  refine .succ (.bind (hargs (.inl rfl) s hbehind) ?_)
  intro t ht
  exact .pure ht

theorem parses_index {collection position : Expr} {text text' : String}
    {tokens behind rest : List Token}
    (hcollection : Parses (.level .applied collection) tokens (⟨.lbracket, text⟩ :: behind))
    (hposition : Parses (.expression position) behind (⟨.rbracket, text'⟩ :: rest)) :
    Parses (.level .applied (.index collection position)) tokens rest := by
  refine parses_continued .index hcollection ?_
  intro s hahead _
  have hbehind : s.forward.ahead = behind := by rw [State.forward_ahead, hahead, List.tail_cons]
  refine .succ (.advance (.bind (hposition s.forward hbehind (by simp)) ?_))
  intro t ht
  refine .expect (peek_kind_eq ht) (.pure ?_)
  rw [State.forward_ahead, ht, List.tail_cons]

theorem parses_atom {e : Expr} {token : Token} {rest : List Token}
    (h : ∀ n s, s.current = token → operand (n + 1) s = .done e s) :
    Parses (.level .atom e) (token :: rest) rest := by
  apply parses_operand
  intro s hahead _
  refine .succ ⟨s.ahead, by rw [hahead, List.tail_cons], 0, ?_⟩
  intro n _
  exact h n s (by rw [State.current, hahead, List.headD_cons])

theorem parses_group {e : Expr} {text text' : String} {tokens rest : List Token}
    (h : Parses (.expression e) tokens (⟨.rparen, text'⟩ :: rest)) :
    Parses (.level .atom e) (⟨.lparen, text⟩ :: tokens) rest := by
  apply parses_operand
  intro s hahead _
  refine .succ (.current hahead (.advance (.bind (h s.forward ?_ (by simp)) ?_)))
  · rw [State.forward_ahead, hahead, List.tail_cons]
  · intro t ht
    refine .expect (peek_kind_eq ht) (.pure ?_)
    rw [State.forward_ahead, ht, List.tail_cons]

theorem parses_otherwise {condition : Expr} {yes : Block} {s : State} {rest : List Token}
    (hahead : s.ahead.tail = rest) (hnext : kindAhead rest ≠ .elseWord) :
    Arrives (otherwise · condition yes) s (.cond condition yes none) rest := by
  exact .peekKind hahead (.ite_neg hnext (.pure hahead))

theorem parses_otherwise_block {condition : Expr} {yes no : Block} {text : String} {s : State}
    {after rest : List Token} (hahead : s.ahead.tail = ⟨.elseWord, text⟩ :: after)
    (hbegins : kindAhead after = .lbrace) (hno : Parses (.block no) after rest) :
    Arrives (otherwise · condition yes) s (.cond condition yes (some no)) rest := by
  have htail : s.forward.ahead.tail = after := by rw [State.forward_ahead, hahead, List.tail_cons]
  refine .peekKind hahead (.ite_pos rfl (.advance ?_))
  refine .expect ?_ (.bind (hno s.forward.forward htail) ?_)
  · rw [peek_kind_eq htail, hbegins]
  · intro t ht
    exact .pure ht

/-- Both forms of a conditional, by what comes behind the first block. -/
theorem parses_cond {condition e : Expr} {yes : Block} {text₁ text₂ text₃ : String}
    {tokens behind mid rest : List Token}
    (hcondition : Parses (.expression condition) tokens (⟨.rparen, text₃⟩ :: behind))
    (hbegins : kindAhead behind = .lbrace) (hyes : Parses (.block yes) behind mid)
    (hotherwise : ∀ s, s.ahead.tail = mid → kindAhead rest ≠ .elseWord →
      Arrives (otherwise · condition yes) s e rest) :
    Parses (.level .atom e) (⟨.ifWord, text₁⟩ :: ⟨.lparen, text₂⟩ :: tokens) rest := by
  apply parses_operand
  intro s hahead hfollows
  have htail : s.ahead.tail = ⟨.lparen, text₂⟩ :: tokens := by rw [hahead, List.tail_cons]
  refine .succ (.current hahead (.expect (peek_kind_eq htail) (.advance ?_)))
  refine .bind (hcondition s.forward.forward ?_ (by simp)) ?_
  · rw [State.forward_ahead, State.forward_ahead, htail, List.tail_cons]
  · intro t ht
    have hbehind : t.forward.ahead.tail = behind := by
      rw [State.forward_ahead, ht, List.tail_cons]
    refine .expect (peek_kind_eq ht) (.expect ?_ (.bind (hyes t.forward.forward hbehind) ?_))
    · rw [peek_kind_eq hbehind, hbegins]
    · intro u hu
      exact hotherwise u hu hfollows.2

theorem parses_fn {names : List String} {body : Block} {text₁ text₂ : String}
    {tokens behind rest : List Token} (hparams : Parses (.params names) tokens behind)
    (hbegins : kindAhead behind = .lbrace) (hbody : Parses (.block body) behind rest) :
    Parses (.level .atom (.fn () names body)) (⟨.fnWord, text₁⟩ :: ⟨.lparen, text₂⟩ :: tokens)
      rest := by
  apply parses_operand
  intro s hahead _
  have htail : s.ahead.tail = ⟨.lparen, text₂⟩ :: tokens := by rw [hahead, List.tail_cons]
  refine .succ (.current hahead (.expect (peek_kind_eq htail) ?_))
  refine .bind (hparams s.forward ?_) ?_
  · rw [State.forward_ahead, htail, List.tail_cons]
  · intro t ht
    refine .expect ?_ (.bind (hbody t.forward ht) ?_)
    · rw [peek_kind_eq ht, hbegins]
    · intro u hu
      exact .pure hu

theorem parses_array {elements : List Expr} {text : String} {tokens rest : List Token}
    (h : Parses (.items .rbracket elements) tokens rest) :
    Parses (.level .atom (.array elements)) (⟨.lbracket, text⟩ :: tokens) rest := by
  apply parses_operand
  intro s hahead _
  refine .succ (.current hahead (.bind (h (.inr rfl) s ?_) ?_))
  · rw [hahead, List.tail_cons]
  · intro t ht
    exact .pure ht

/-- The count of open hashes is back to what it was when the hash is closed. -/
theorem parses_hash {entries : List (Expr × Expr)} {text : String} {tokens rest : List Token}
    (h : Parses (.pairs entries) tokens rest) :
    Parses (.level .atom (.hash entries)) (⟨.lbrace, text⟩ :: tokens) rest := by
  apply parses_operand
  intro s hahead _
  have htail : s.ahead.tail = tokens := by rw [hahead, List.tail_cons]
  obtain ⟨last, hlast, m, hm⟩ := h { s with openHashes := s.openHashes + 1 } htail
  refine .succ (.current hahead ⟨last, hlast, m, ?_⟩)
  intro n hn
  exact bind_of_done (hm n hn)

theorem parses_expression {e : Expr} {tokens rest : List Token}
    (h : Parses (.level .equality e) tokens rest) (hend : ¬ Continues (kindAhead rest)) :
    Parses (.expression e) tokens rest := by
  intro s hahead helse
  have hbounded := not_continues_iff_bounded.mp hend
  have hfollows : Follows 1 rest := ⟨hbounded.mono (by decide), helse⟩
  exact h.arrives (by decide) (by decide) hahead hfollows hbounded

end Expressions

section Lists

theorem not_starter {close : Token.Kind} (hclose : close = .rparen ∨ close = .rbracket) :
    close ∉ starters := by
  rcases hclose with rfl | rfl <;> decide

theorem not_else_of_behind {close : Token.Kind} {behind : List Token}
    (hclose : close = .rparen ∨ close = .rbracket)
    (h : kindAhead behind = close ∨ kindAhead behind = .comma) :
    kindAhead behind ≠ .elseWord := by
  rcases h with hkind | hkind
  · rcases hclose with rfl | rfl <;> simp [hkind]
  · simp [hkind]

theorem parses_noItems {close : Token.Kind} {text : String} {rest : List Token} :
    Parses (.items close []) (⟨close, text⟩ :: rest) rest := by
  intro _ s hahead
  refine .succ (.peekKind hahead (.ite_pos rfl (.advance (.pure ?_))))
  rw [State.forward_ahead, hahead, List.tail_cons]

theorem parses_items {close : Token.Kind} {e : Expr} {es : List Expr}
    {tokens behind rest : List Token} (hbegins : kindAhead tokens ∈ starters)
    (hfirst : Parses (.expression e) tokens behind)
    (hbehind : kindAhead behind = close ∨ kindAhead behind = .comma)
    (hmore : Parses (.moreItems close es) behind rest) :
    Parses (.items close (e :: es)) tokens rest := by
  intro hclose s hahead
  have hopen : kindAhead tokens ≠ close := by
    intro heq
    exact not_starter hclose (heq ▸ hbegins)
  refine .succ (.peekKind hahead (.ite_neg hopen (.advance ?_)))
  refine .bind (hfirst s.forward hahead ?_) ?_
  · exact not_else_of_behind hclose hbehind
  · intro t ht
    obtain ⟨text, hothers⟩ := hmore hclose t ht
    refine hothers.bind ?_
    intro u hu
    refine .expect (peek_kind_eq hu) (.pure ?_)
    rw [State.forward_ahead, hu, List.tail_cons]

theorem parses_noMoreItems {close : Token.Kind} {text : String} {rest : List Token} :
    Parses (.moreItems close []) (⟨close, text⟩ :: rest) rest := by
  intro hclose s hahead
  have hcomma : close ≠ .comma := by rcases hclose with rfl | rfl <;> decide
  exact ⟨text, .succ (.peekKind hahead (.ite_neg hcomma (.pure hahead)))⟩

theorem parses_moreItems {close : Token.Kind} {e : Expr} {es : List Expr} {text : String}
    {tokens behind rest : List Token} (hfirst : Parses (.expression e) tokens behind)
    (hbehind : kindAhead behind = close ∨ kindAhead behind = .comma)
    (hmore : Parses (.moreItems close es) behind rest) :
    Parses (.moreItems close (e :: es)) (⟨.comma, text⟩ :: tokens) rest := by
  intro hclose s hahead
  have htail : s.forward.ahead.tail = tokens := by
    rw [State.forward_ahead, hahead, List.tail_cons]
  have hfirst' := hfirst s.forward.forward htail (not_else_of_behind hclose hbehind)
  obtain ⟨last, hlast, hyields⟩ := hfirst'
  obtain ⟨text', hothers⟩ := hmore hclose (s.facing last) hlast
  refine ⟨text', .succ (.peekKind hahead (.ite_pos rfl (.advance (.advance ?_))))⟩
  obtain ⟨last', hlast', hyields'⟩ := hothers
  refine ⟨last', hlast', hyields.bind (hyields'.bind ?_)⟩
  exact ⟨0, fun _ _ => rfl⟩

theorem parses_noMoreParams {text : String} {rest : List Token} :
    Parses (.moreParams []) (⟨.rparen, text⟩ :: rest) rest := by
  intro s hahead
  refine .succ (.peekKind hahead (.ite_neg (by simp) (.expect (peek_kind_eq hahead) (.pure ?_))))
  rw [State.forward_ahead, hahead, List.tail_cons]

theorem parses_moreParams {name text : String} {names : List String} {tokens rest : List Token}
    (h : Parses (.moreParams names) tokens rest) :
    Parses (.moreParams (name :: names)) (⟨.comma, text⟩ :: ⟨.ident, name⟩ :: tokens) rest := by
  intro s hahead
  have hname : s.forward.forward.ahead = ⟨.ident, name⟩ :: tokens := by
    rw [State.forward_ahead, State.forward_ahead, hahead, List.tail_cons]
  refine .succ (.peekKind hahead (.ite_pos rfl (.advance (.expect ?_ (.current hname ?_)))))
  · exact current_kind_eq hname
  · refine .bind (h s.forward.forward ?_) ?_
    · rw [hname, List.tail_cons]
    · intro t ht
      exact .pure ht

theorem parses_noParams {text : String} {rest : List Token} :
    Parses (.params []) (⟨.rparen, text⟩ :: rest) rest := by
  intro s hahead
  refine .peekKind hahead (.ite_pos rfl (.advance (.pure ?_)))
  rw [State.forward_ahead, hahead, List.tail_cons]

theorem parses_params {name : String} {names : List String} {tokens rest : List Token}
    (h : Parses (.moreParams names) tokens rest) :
    Parses (.params (name :: names)) (⟨.ident, name⟩ :: tokens) rest := by
  intro s hahead
  have hname : s.forward.ahead = ⟨.ident, name⟩ :: tokens := by rw [State.forward_ahead, hahead]
  refine .peekKind hahead (.ite_neg (by simp) (.expect ?_ (.current hname ?_)))
  · exact current_kind_eq hname
  · refine .bind (h s.forward ?_) ?_
    · rw [hname, List.tail_cons]
    · intro t ht
      exact .pure ht

theorem parses_noPairs {text : String} {rest : List Token} :
    Parses (.pairs []) (⟨.rbrace, text⟩ :: rest) rest := by
  intro s hahead
  refine .succ (.peekKind hahead (.ite_pos rfl (.advance (.pure ?_))))
  rw [State.forward_ahead, hahead, List.tail_cons]

theorem parses_pairs {key value : Expr} {ps : List (Expr × Expr)} {text : String}
    {tokens behind after rest : List Token} (hbegins : kindAhead tokens ∈ starters)
    (hkey : Parses (.expression key) tokens (⟨.colon, text⟩ :: behind))
    (hvalue : Parses (.expression value) behind after)
    (hafter : kindAhead after = .rbrace ∨ kindAhead after = .comma)
    (hmore : Parses (.morePairs ps) after rest) :
    Parses (.pairs ((key, value) :: ps)) tokens rest := by
  intro s hahead
  have hopen : kindAhead tokens ≠ .rbrace := by
    intro heq
    rw [heq] at hbegins
    exact absurd hbegins (by decide)
  have helse : kindAhead after ≠ .elseWord := by
    rcases hafter with hkind | hkind <;> simp [hkind]
  refine .succ (.peekKind hahead (.ite_neg hopen (.advance ?_)))
  refine .bind (hkey s.forward hahead (by simp)) ?_
  intro t ht
  have hbehind : t.forward.forward.ahead = behind := by
    rw [State.forward_ahead, State.forward_ahead, ht, List.tail_cons]
  refine .expect (peek_kind_eq ht) (.advance (.bind (hvalue t.forward.forward hbehind helse) ?_))
  intro u hu
  rcases hmore u hu with ⟨hpeek, hothers⟩ | ⟨hpeek, hothers⟩
  · rw [peek_kind_eq hu] at hpeek
    refine .peekKind hu (.ite_pos hpeek (hothers.bind ?_))
    intro v hv
    exact .pure hv
  · refine .peekKind hu (.ite_neg ?_ (.expect hpeek (hothers.bind ?_)))
    · rw [← peek_kind_eq hu, hpeek]
      decide
    · intro v hv
      exact .pure hv

theorem parses_morePairs {ps : List (Expr × Expr)} {text : String} {tokens rest : List Token}
    (h : Parses (.pairs ps) tokens rest) :
    Parses (.morePairs ps) (⟨.comma, text⟩ :: tokens) rest := by
  intro s hahead
  refine .inr ⟨peek_kind_eq hahead, h s.forward ?_⟩
  rw [State.forward_ahead, hahead, List.tail_cons]

theorem parses_noMorePairs {text : String} {rest : List Token} :
    Parses (.morePairs []) (⟨.rbrace, text⟩ :: rest) rest :=
  fun s hahead => .inl ⟨peek_kind_eq hahead, parses_noPairs s hahead⟩

end Lists

section Statements

theorem parses_block {body : Block} {text : String} {tokens behind : List Token}
    (h : Parses (.statements body) tokens behind)
    (hend : kindAhead behind = .eof ∨ kindAhead behind = .rbrace) :
    Parses (.block body) (⟨.lbrace, text⟩ :: tokens) behind.tail := by
  intro s hahead
  have htail : s.forward.ahead = tokens := by rw [State.forward_ahead, hahead, List.tail_cons]
  obtain ⟨m, hm⟩ := h true { s.forward with blocks := s.blocks + 1 } htail
    (hend.imp id fun hbrace => ⟨rfl, hbrace⟩)
  refine .succ ⟨behind, rfl, m, ?_⟩
  intro n hn
  exact bind_of_done (hm n hn)

theorem parses_noStatements {rest : List Token} : Parses (.statements []) rest rest := by
  intro inBlock s hahead hend
  apply Yields.succ
  refine ⟨0, ?_⟩
  intro n _
  change statements (n + 1) inBlock s = _
  rw [statements, current_bind_apply, current_kind_eq hahead, if_pos hend, ← hahead]
  rfl

theorem Yields.orPassOver_done {rule : Nat → Parser α} {s t : State} {a : α}
    (h : Yields rule s (.done a t)) :
    Yields (fun n => orPassOver (rule n)) s (.done (some a) t) := by
  obtain ⟨m, hm⟩ := h
  exact ⟨m, fun n hn => orPassOver_of_done (hm n hn)⟩

theorem Yields.orPassOver_failed {rule : Nat → Parser α} {s t : State}
    (h : Yields rule s (.failed t)) :
    Yields (fun n => orPassOver (rule n)) s (.done none (s.resumed t)) := by
  obtain ⟨m, hm⟩ := h
  exact ⟨m, fun n hn => orPassOver_of_failed (hm n hn)⟩

theorem Yields.statements {inBlock : Bool} {s t u : State} {first : Option Stmt}
    {others : List Stmt}
    (hgoes : ¬ (s.current.kind = .eof ∨ inBlock = true ∧ s.current.kind = .rbrace))
    (hfirst : Yields (fun n => orPassOver (statement n)) s (.done first t))
    (hmore : Yields (statements · inBlock) t.forward (.done others u)) :
    Yields (statements · inBlock) s (.done (first.toList ++ others) u) := by
  obtain ⟨m, hm⟩ := hfirst
  obtain ⟨m', hm'⟩ := hmore
  apply Yields.succ
  refine ⟨max m m', ?_⟩
  intro n hn
  change Parser.statements (n + 1) inBlock s = _
  rw [Parser.statements, current_bind_apply, if_neg hgoes, bind_of_done (hm n (by omega)),
    advance_bind_apply, bind_of_done (hm' n (by omega)), pure_apply]

theorem parses_statements {st : Stmt} {ss : List Stmt} {tokens behind rest : List Token}
    (hbegins : kindAhead tokens ∈ .letWord :: .returnWord :: starters)
    (hfirst : Parses (.statement st) tokens behind)
    (hbehind : kindAhead behind = kindAhead rest ∨
      kindAhead behind ∈ .letWord :: .returnWord :: starters)
    (hmore : Parses (.statements ss) behind rest) :
    Parses (.statements (st :: ss)) tokens rest := by
  intro inBlock s hahead hend
  have helse : kindAhead behind ≠ .elseWord := by
    rcases hbehind with hkind | hkind
    · rcases hend with hrest | ⟨-, hrest⟩ <;> simp [hkind, hrest]
    · intro heq
      rw [heq] at hkind
      exact absurd hkind (by decide)
  obtain ⟨last, hlast, hyields⟩ := hfirst s hahead helse
  refine Yields.statements ?_ hyields.orPassOver_done ?_
  · rw [current_kind_eq hahead]
    rintro (heq | ⟨-, heq⟩)
    · rw [heq] at hbegins
      exact absurd hbegins (by decide)
    · rw [heq] at hbegins
      exact absurd hbegins (by decide)
  · have hforward : (s.facing last).forward = s.facing behind := by rw [← hlast]; rfl
    rw [hforward]
    exact hmore inBlock (s.facing behind) rfl hend

theorem not_else_of_ends {behind rest : List Token} (hend : Ends behind rest)
    (h : kindAhead rest ≠ .elseWord) : kindAhead behind ≠ .elseWord := by
  cases hend with
  | semicolon => simp
  | missing => exact h

/-- What ends a statement is looked at, and what stands behind its semicolon is not. -/
theorem arrives_bind {name text₁ text₂ : String} {value : Expr} {tokens behind rest : List Token}
    (hvalue : Parses (.expression value) tokens behind) (hend : Ends behind rest)
    (helse : kindAhead behind ≠ .elseWord) {s : State}
    (hahead : s.ahead = ⟨.letWord, text₁⟩ :: ⟨.ident, name⟩ :: ⟨.assign, text₂⟩ :: tokens) :
    Arrives statement s (.bind name value) rest := by
  have hname : s.forward.ahead = ⟨.ident, name⟩ :: ⟨.assign, text₂⟩ :: tokens := by
    rw [State.forward_ahead, hahead, List.tail_cons]
  have hassign : s.forward.ahead.tail = ⟨.assign, text₂⟩ :: tokens := by
    rw [hname, List.tail_cons]
  refine .succ (.current hahead (.expect ?_ (.current hname ?_)))
  · exact current_kind_eq hname
  · refine .expect (peek_kind_eq hassign) (.advance (.bind (hvalue _ ?_ helse) ?_))
    · rw [State.forward_ahead, State.forward_ahead, hassign, List.tail_cons]
    · intro t ht
      exact .ending hend ht

theorem parses_bind {name text₁ text₂ : String} {value : Expr} {tokens behind rest : List Token}
    (hvalue : Parses (.expression value) tokens behind) (hend : Ends behind rest) :
    Parses (.statement (.bind name value))
      (⟨.letWord, text₁⟩ :: ⟨.ident, name⟩ :: ⟨.assign, text₂⟩ :: tokens) rest := by
  intro s hahead helse
  exact arrives_bind hvalue hend (not_else_of_ends hend helse) hahead

theorem arrives_bareReturn {text : String} {tokens rest : List Token}
    (hnext : kindAhead tokens = .semicolon ∨ kindAhead tokens = .rbrace ∨ kindAhead tokens = .eof)
    (hend : Ends tokens rest) {s : State} (hahead : s.ahead = ⟨.returnWord, text⟩ :: tokens) :
    Arrives statement s (.ret none) rest := by
  have htail : s.ahead.tail = tokens := by rw [hahead, List.tail_cons]
  exact .succ (.current hahead (.peekKind htail (.ite_pos hnext (.ending hend htail))))

theorem parses_bareReturn {text : String} {tokens rest : List Token}
    (hnext : kindAhead tokens = .semicolon ∨ kindAhead tokens = .rbrace ∨ kindAhead tokens = .eof)
    (hend : Ends tokens rest) :
    Parses (.statement (.ret none)) (⟨.returnWord, text⟩ :: tokens) rest :=
  fun _ hahead _ => arrives_bareReturn hnext hend hahead

theorem arrives_ret {value : Expr} {text : String} {tokens behind rest : List Token}
    (hbegins : kindAhead tokens ∈ starters) (hvalue : Parses (.expression value) tokens behind)
    (hend : Ends behind rest) (helse : kindAhead behind ≠ .elseWord) {s : State}
    (hahead : s.ahead = ⟨.returnWord, text⟩ :: tokens) :
    Arrives statement s (.ret (some value)) rest := by
  have htail : s.ahead.tail = tokens := by rw [hahead, List.tail_cons]
  have hnext : ¬ (kindAhead tokens = .semicolon ∨ kindAhead tokens = .rbrace ∨
      kindAhead tokens = .eof) := by
    rintro (heq | heq | heq) <;> rw [heq] at hbegins <;> exact absurd hbegins (by decide)
  refine .succ (.current hahead (.peekKind htail (.ite_neg hnext (.advance ?_))))
  refine .bind (hvalue s.forward htail helse) ?_
  intro t ht
  exact .ending hend ht

theorem parses_ret {value : Expr} {text : String} {tokens behind rest : List Token}
    (hbegins : kindAhead tokens ∈ starters) (hvalue : Parses (.expression value) tokens behind)
    (hend : Ends behind rest) :
    Parses (.statement (.ret (some value))) (⟨.returnWord, text⟩ :: tokens) rest := by
  intro s hahead helse
  exact arrives_ret hbegins hvalue hend (not_else_of_ends hend helse) hahead

theorem arrives_expr {value : Expr} {tokens behind rest : List Token}
    (hbegins : kindAhead tokens ∈ starters) (hvalue : Parses (.expression value) tokens behind)
    (hend : Ends behind rest) (helse : kindAhead behind ≠ .elseWord) {s : State}
    (hahead : s.ahead = tokens) : Arrives statement s (.expr value) rest := by
  have harrives : Arrives (fun n => expression n .lowest >>= fun value =>
    skipSemicolon >>= fun _ =>
      pure (Stmt.expr value)) s (.expr value) rest := by
    refine .bind (hvalue s hahead helse) ?_
    intro t ht
    exact .ending hend ht
  obtain ⟨last, hlast, m, hm⟩ := harrives
  refine .succ ⟨last, hlast, m, ?_⟩
  intro n hn
  rw [← current_kind_eq hahead] at hbegins
  apply statement_elim (motive := fun reply => reply = .done (.expr value) (s.facing last))
  case expr => exact fun _ _ => hm n hn
  all_goals
    intro hkind
    rw [hkind] at hbegins
    exact absurd hbegins (by decide)

theorem parses_expr {value : Expr} {tokens behind rest : List Token}
    (hbegins : kindAhead tokens ∈ starters) (hvalue : Parses (.expression value) tokens behind)
    (hend : Ends behind rest) : Parses (.statement (.expr value)) tokens rest := by
  intro s hahead helse
  exact arrives_expr hbegins hvalue hend (not_else_of_ends hend helse) hahead

end Statements

/-- Whatever the grammar allows is read as the grammar says. -/
theorem parses_of_reads {phrase : Phrase} {tokens rest : List Token}
    (h : Reads phrase tokens rest) : Parses phrase tokens rest := by
  induction h with
  | looser hlevel _ ih => exact parses_looser hlevel ih
  | binary hlevel _ _ ihleft ihright => exact parses_binary hlevel ihleft ihright
  | unary _ ih => exact parses_unary ih
  | call _ _ ihcallee ihargs => exact parses_call ihcallee ihargs
  | index _ _ ihcollection ihposition => exact parses_index ihcollection ihposition
  | ident =>
      apply parses_atom
      intro n s hcurrent
      rw [operand, current_bind_apply, hcurrent]
      rfl
  | int hvalue =>
      apply parses_atom
      intro n s hcurrent
      rw [operand, current_bind_apply, hcurrent]
      simp only [Text.Decimal.read?, if_pos hvalue]
      rfl
  | string | trueWord | falseWord =>
      apply parses_atom
      intro n s hcurrent
      rw [operand, current_bind_apply, hcurrent]
      rfl
  | group _ ih => exact parses_group ih
  | cond _ hyes ihcondition ihyes =>
      exact parses_cond ihcondition hyes.begins ihyes fun s => parses_otherwise
  | condElse _ hyes hno ihcondition ihyes ihno =>
      refine parses_cond ihcondition hyes.begins ihyes ?_
      intro s hahead _
      exact parses_otherwise_block hahead hno.begins ihno
  | fn _ hbody ihparams ihbody => exact parses_fn ihparams hbody.begins ihbody
  | array _ ih => exact parses_array ih
  | hash _ ih => exact parses_hash ih
  | expression _ hend ih => exact parses_expression ih hend
  | noItems => exact parses_noItems
  | items hfirst hmore ihfirst ihmore =>
      exact parses_items hfirst.begins ihfirst hmore.begins ihmore
  | noMoreItems => exact parses_noMoreItems
  | moreItems _ hmore ihfirst ihmore => exact parses_moreItems ihfirst hmore.begins ihmore
  | noParams => exact parses_noParams
  | params _ ih => exact parses_params ih
  | noMoreParams => exact parses_noMoreParams
  | moreParams _ ih => exact parses_moreParams ih
  | noPairs => exact parses_noPairs
  | pairs hkey _ hmore ihkey ihvalue ihmore =>
      exact parses_pairs hkey.begins ihkey ihvalue hmore.begins ihmore
  | noMorePairs => exact parses_noMorePairs
  | morePairs _ ih => exact parses_morePairs ih
  | closed _ ih => exact parses_block ih (.inr rfl)
  | unclosed _ ih => exact parses_block ih (.inl rfl)
  | noStatements => exact parses_noStatements
  | statements hfirst hmore ihfirst ihmore =>
      refine parses_statements hfirst.begins ihfirst ?_ ihmore
      cases hmore with
      | noStatements => exact .inl rfl
      | statements hnext _ => exact .inr hnext.begins
  | bind _ hend ih => exact parses_bind ih hend
  | bareReturn hnext hend => exact parses_bareReturn hnext hend
  | ret hvalue hend ih => exact parses_ret hvalue.begins ih hend
  | expr hvalue hend ih => exact parses_expr hvalue.begins ih hend

end ScriptLang.Parser
