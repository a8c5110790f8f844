import ScriptLang.Proofs.Parser.Cases
import ScriptLang.Proofs.Parser.Invariants

/-!
What is read without a diagnostic follows the grammar.

The induction is on the allowance, with one statement for each rule.  The rule that continues an
expression carries the level at which its left part has been read: the next token never binds
tighter than that level, so the left part can become an operand of whatever comes next.
-/

namespace ScriptLang.Parser

open Grammar

/-- Tokens among which the end of input is not. -/
def Words (tokens : List Token) : Prop :=
  ∀ token ∈ tokens, token.kind ≠ .eof

theorem Words.suffix {tokens rest : List Token} (h : Words tokens) (hrest : rest <:+ tokens) :
    Words rest :=
  fun token htoken => h token (hrest.mem htoken)

theorem Words.tail {tokens : List Token} (h : Words tokens) : Words tokens.tail :=
  h.suffix (List.tail_suffix tokens)

theorem Words.eq_nil {tokens : List Token} (h : Words tokens) (hend : kindAhead tokens = .eof) :
    tokens = [] := by
  cases tokens with
  | nil => rfl
  | cons token rest => exact absurd hend (h token (by simp))

/-- A diagnostic stays on record, and the tokens ahead stay words. -/
def Tidy (s t : State) : Prop :=
  (t.diagnostics = [] → s.diagnostics = []) ∧ (Words s.ahead → Words t.ahead)

theorem tidy_invariant :
    Invariant Tidy fun s t => t.diagnostics ≠ [] ∧ (Words s.ahead → Words t.ahead) where
  refl _ := ⟨id, id⟩
  trans hst htu := ⟨hst.1 ∘ htu.1, htu.2 ∘ hst.2⟩
  trans_failed hst htu := ⟨htu.1, htu.2 ∘ hst.2⟩
  forward _ := ⟨id, Words.tail⟩
  record _ _ := ⟨by simp, id⟩
  block h := h
  hash h := h
  hash_failed h := h
  resumed _ h := ⟨fun hclean => (h.1 hclean).elim,
    fun hwords => (h.2 hwords).suffix (passOver_suffix _ _ _)⟩

theorem moreParameters_sound {n : Nat} {s t : State} {names : List String}
    (h : moreParameters n s = .done names t) :
    Reads (.moreParams names) s.ahead.tail t.ahead.tail := by
  induction n generalizing s t names with
  | zero => cases h
  | succ n ih =>
      rw [moreParameters, peekKind_bind_apply] at h
      split at h
      · rename_i hcomma
        rw [advance_bind_apply, expect_bind_eq_done_iff] at h
        obtain ⟨hname, h⟩ := h
        rw [current_bind_apply, bind_eq_done_iff] at h
        obtain ⟨others, u, hothers, h⟩ := h
        cases h
        rw [State.tail_eq_of_peek hcomma (by decide)]
        have hahead := State.tail_eq_of_peek hname (by decide)
        rw [State.forward_ahead] at hahead
        rw [hahead]
        exact .moreParams (ih hothers)
      · rw [expect_bind_eq_done_iff] at h
        obtain ⟨hclose, h⟩ := h
        cases h
        rw [State.tail_eq_of_peek hclose (by decide)]
        exact .noMoreParams

theorem parameters_sound {n : Nat} {s t : State} {names : List String}
    (h : parameters n s = .done names t) :
    Reads (.params names) s.ahead.tail t.ahead.tail := by
  rw [parameters, peekKind_bind_apply] at h
  split at h
  · rename_i hclose
    cases h
    rw [State.tail_eq_of_peek hclose (by decide)]
    exact .noParams
  · rw [expect_bind_eq_done_iff] at h
    obtain ⟨hname, h⟩ := h
    rw [current_bind_apply, bind_eq_done_iff] at h
    obtain ⟨others, u, hothers, h⟩ := h
    cases h
    rw [State.tail_eq_of_peek hname (by decide)]
    exact .params (moreParameters_sound hothers)

/-- An operand has been read as an atom, or behind an operator.  Nothing that comes next binds
tighter than its level. -/
def ReadsOperand (s : State) (e : Expr) (t : State) : Prop :=
  ∃ level : Level, Reads (.level level e) s.ahead t.ahead.tail ∧ 5 ≤ level.rank ∧
    Bounded level.rank (kindAhead t.ahead.tail)

theorem ReadsOperand.atom {s t : State} {e : Expr} {kind : Token.Kind}
    (hkind : s.current.kind = kind) (hne : kind ≠ .eof)
    (h : Reads (.level .atom e) (⟨kind, s.current.literal⟩ :: s.ahead.tail) t.ahead.tail) :
    ReadsOperand s e t := by
  rw [← State.ahead_eq_of_current hkind hne] at h
  exact ⟨.atom, h, by decide, (bounded_six _).mono (by decide)⟩

/-- At one allowance, every rule that applies without a diagnostic has read its phrase. -/
structure Sound (n : Nat) : Prop where
  expression : ∀ {floor s e t}, floor.rank ≤ 5 → expression n floor s = .done e t →
    Words s.ahead → t.diagnostics = [] →
    Reads (.level floor.above e) s.ahead t.ahead.tail ∧
      Bounded floor.rank (kindAhead t.ahead.tail)
  operand : ∀ {s e t}, operand n s = .done e t → Words s.ahead → t.diagnostics = [] →
    ReadsOperand s e t
  continued : ∀ {floor left s e t level tokens}, floor.rank ≤ 5 →
    continued n floor left s = .done e t → Words s.ahead → t.diagnostics = [] →
    Reads (.level level left) tokens s.ahead.tail → floor.above.rank ≤ level.rank →
    Bounded level.rank (kindAhead s.ahead.tail) →
    Reads (.level floor.above e) tokens t.ahead.tail ∧
      Bounded floor.rank (kindAhead t.ahead.tail)
  continuedOnce : ∀ {left} {joint : Joint} {s e t tokens},
    continuedOnce n left joint.continuation s = .done e t → Words s.ahead → t.diagnostics = [] →
    s.current.kind = joint.kind → Reads (.level joint.level left) tokens s.ahead →
    Reads (.level joint.level e) tokens t.ahead.tail ∧
      Bounded joint.level.rank (kindAhead t.ahead.tail)
  items : ∀ {close s es t}, close ≠ .eof → items n close s = .done es t → Words s.ahead →
    t.diagnostics = [] → Reads (.items close es) s.ahead.tail t.ahead.tail
  moreItems : ∀ {close s es t}, close ≠ .eof → moreItems n s = .done es t → Words s.ahead →
    t.diagnostics = [] → t.peek.kind = close →
    Reads (.moreItems close es) s.ahead.tail t.ahead.tail.tail
  pairs : ∀ {s ps t}, pairs n s = .done ps t → Words s.ahead → t.diagnostics = [] →
    Reads (.pairs ps) s.ahead.tail t.ahead.tail
  block : ∀ {s body t}, block n s = .done body t → s.current.kind = .lbrace → Words s.ahead →
    t.diagnostics = [] → Reads (.block body) s.ahead t.ahead.tail
  statements : ∀ {inBlock s ss t}, statements n inBlock s = .done ss t → Words s.ahead →
    t.diagnostics = [] → Reads (.statements ss) s.ahead t.ahead ∧
      (t.current.kind = .eof ∨ inBlock = true ∧ t.current.kind = .rbrace)
  statement : ∀ {s st t}, statement n s = .done st t → Words s.ahead → t.diagnostics = [] →
    Reads (.statement st) s.ahead t.ahead.tail

namespace Sound

variable {n : Nat}

theorem whole (ih : Sound n) {s t : State} {e : Expr}
    (h : Parser.expression n .lowest s = .done e t) (hwords : Words s.ahead)
    (hclean : t.diagnostics = []) : Reads (.expression e) s.ahead t.ahead.tail := by
  obtain ⟨hreads, hbounded⟩ := ih.expression (by decide) h hwords hclean
  exact .expression hreads (not_continues_iff_bounded.mpr hbounded)

theorem expression_succ (ih : Sound n) {floor : Precedence} {s t : State} {e : Expr}
    (hfloor : floor.rank ≤ 5) (h : Parser.expression (n + 1) floor s = .done e t)
    (hwords : Words s.ahead) (hclean : t.diagnostics = []) :
    Reads (.level floor.above e) s.ahead t.ahead.tail ∧
      Bounded floor.rank (kindAhead t.ahead.tail) := by
  rw [Parser.expression, bind_eq_done_iff] at h
  obtain ⟨left, u, hoperand, hcontinued⟩ := h
  have htidy := Respects.of_done (tidy_invariant.respected n).operand hoperand
  have htidy' := Respects.of_done ((tidy_invariant.respected n).continued floor left) hcontinued
  obtain ⟨level, hleft, hlevel, hnext⟩ := ih.operand hoperand hwords (htidy'.1 hclean)
  have habove : floor.above.rank ≤ level.rank := by
    have hunary : floor.above.rank ≤ 5 := by cases floor <;> first | decide | contradiction
    omega
  exact ih.continued hfloor hcontinued (htidy.2 hwords) hclean hleft habove hnext

theorem otherwise_sound (ih : Sound n) {s t : State} {e condition : Expr} {yes : Block}
    {text₁ text₂ text₃ : String} {tokens behind : List Token}
    (h : otherwise n condition yes s = .done e t) (hwords : Words s.ahead)
    (hclean : t.diagnostics = [])
    (hcondition : Reads (.expression condition) tokens (⟨.rparen, text₃⟩ :: behind))
    (hyes : Reads (.block yes) behind s.ahead.tail) :
    Reads (.level .atom e) (⟨.ifWord, text₁⟩ :: ⟨.lparen, text₂⟩ :: tokens) t.ahead.tail := by
  rw [otherwise, peekKind_bind_apply] at h
  split at h
  · rename_i helse
    rw [advance_bind_apply, expect_bind_eq_done_iff] at h
    obtain ⟨hbrace, h⟩ := h
    rw [bind_eq_done_iff] at h
    obtain ⟨no, u, hno, h⟩ := h
    cases h
    rw [State.tail_eq_of_peek helse (by decide)] at hyes
    exact .condElse hcondition hyes (ih.block hno hbrace hwords.tail.tail hclean)
  · cases h
    exact .cond hcondition hyes

theorem operand_succ (ih : Sound n) {s t : State} {e : Expr}
    (h : Parser.operand (n + 1) s = .done e t) (hwords : Words s.ahead)
    (hclean : t.diagnostics = []) : ReadsOperand s e t := by
  have tidy := tidy_invariant.respected n
  revert h
  apply operand_elim (motive := fun reply => reply = .done e t → ReadsOperand s e t)
  case ident =>
      rintro hkind ⟨⟩
      exact .atom hkind (by decide) .ident
  case int =>
      rintro hkind hvalue ⟨⟩
      exact .atom hkind (by decide) (.int hvalue)
  case tooLarge => rintro - - ⟨⟩
  case string =>
      rintro hkind ⟨⟩
      exact .atom hkind (by decide) .string
  case trueWord =>
      rintro hkind ⟨⟩
      exact .atom hkind (by decide) .trueWord
  case falseWord =>
      rintro hkind ⟨⟩
      exact .atom hkind (by decide) .falseWord
  case unary =>
      intro op hkind h
      rw [bind_eq_done_iff] at h
      obtain ⟨right, u, hright, h⟩ := h
      cases h
      obtain ⟨hreads, hbounded⟩ := ih.expression (by decide) hright hwords.tail hclean
      refine ⟨.unary, ?_, by decide, hbounded⟩
      rw [State.ahead_eq_of_current hkind (by cases op <;> decide)]
      exact .unary hreads
  case group =>
      intro hkind h
      rw [bind_eq_done_iff] at h
      obtain ⟨inner, u, hinner, h⟩ := h
      rw [expect_bind_eq_done_iff] at h
      obtain ⟨hclose, h⟩ := h
      cases h
      have hreads := ih.whole hinner hwords.tail hclean
      rw [State.tail_eq_of_peek hclose (by decide)] at hreads
      exact .atom hkind (by decide) (.group hreads)
  case cond =>
      intro hkind h
      rw [expect_bind_eq_done_iff] at h
      obtain ⟨hopen, h⟩ := h
      rw [advance_bind_apply, bind_eq_done_iff] at h
      obtain ⟨condition, u, hcondition, h⟩ := h
      rw [expect_bind_eq_done_iff] at h
      obtain ⟨hclose, h⟩ := h
      rw [expect_bind_eq_done_iff] at h
      obtain ⟨hbrace, h⟩ := h
      rw [bind_eq_done_iff] at h
      obtain ⟨yes, v, hyes, hno⟩ := h
      have hwords' := (Respects.of_done (tidy.expression _) hcondition).2 hwords.tail.tail
      have htidy := Respects.of_done tidy.block_respects hyes
      have hotherwise := tidy.otherwise_respects tidy_invariant condition yes
      have hclean' := (Respects.of_done hotherwise hno).1 hclean
      have hreads := ih.whole hcondition hwords.tail.tail (htidy.1 hclean')
      rw [State.tail_eq_of_peek hclose (by decide)] at hreads
      have hblock := ih.block hyes hbrace hwords'.tail.tail hclean'
      apply ReadsOperand.atom hkind (by decide)
      rw [State.tail_eq_of_peek hopen (by decide)]
      exact ih.otherwise_sound hno (htidy.2 hwords'.tail.tail) hclean hreads hblock
  case fn =>
      intro hkind h
      rw [expect_bind_eq_done_iff] at h
      obtain ⟨hopen, h⟩ := h
      rw [bind_eq_done_iff] at h
      obtain ⟨params, u, hparams, h⟩ := h
      rw [expect_bind_eq_done_iff] at h
      obtain ⟨hbrace, h⟩ := h
      rw [bind_eq_done_iff] at h
      obtain ⟨body, v, hbody, h⟩ := h
      cases h
      have hwords' := (Respects.of_done (tidy_invariant.parameters n) hparams).2 hwords.tail
      have hreads := parameters_sound hparams
      have hblock := ih.block hbody hbrace hwords'.tail hclean
      apply ReadsOperand.atom hkind (by decide)
      rw [State.tail_eq_of_peek hopen (by decide)]
      exact .fn hreads hblock
  case array =>
      intro hkind h
      rw [bind_eq_done_iff] at h
      obtain ⟨elements, u, helements, h⟩ := h
      cases h
      have hreads := ih.items (by decide) helements hwords hclean
      exact .atom hkind (by decide) (.array hreads)
  case hash =>
      intro hkind h
      rw [bind_eq_done_iff] at h
      obtain ⟨entries, u, hentries, h⟩ := h
      cases h
      have hreads := ih.pairs hentries hwords hclean
      exact .atom hkind (by decide) (.hash hreads)
  case other => rintro - ⟨⟩

theorem continued_succ (ih : Sound n) {floor : Precedence} {left e : Expr} {s t : State}
    {level : Level} {tokens : List Token} (hfloor : floor.rank ≤ 5)
    (h : Parser.continued (n + 1) floor left s = .done e t) (hwords : Words s.ahead)
    (hclean : t.diagnostics = []) (hleft : Reads (.level level left) tokens s.ahead.tail)
    (hlevel : floor.above.rank ≤ level.rank)
    (hnext : Bounded level.rank (kindAhead s.ahead.tail)) :
    Reads (.level floor.above e) tokens t.ahead.tail ∧
      Bounded floor.rank (kindAhead t.ahead.tail) := by
  revert h
  apply continued_elim (motive := fun reply => reply = .done e t →
    Reads (.level floor.above e) tokens t.ahead.tail ∧
      Bounded floor.rank (kindAhead t.ahead.tail))
  case stop =>
      rintro hstop ⟨⟩
      refine ⟨hleft.loosen hlevel, ?_⟩
      intro joint hkind
      have hfloor' := hstop joint hkind
      rw [Joint.lt_precedence_iff hfloor] at hfloor'
      omega
  case goOn =>
      intro joint hkind hbinds h
      rw [Joint.lt_precedence_iff hfloor] at hbinds
      rw [bind_eq_done_iff] at h
      obtain ⟨larger, u, honce, hcontinued⟩ := h
      have tidy := tidy_invariant.respected n
      have hwords' := ((tidy.continuedOnce (s := s.forward) hkind).of_done honce).2 hwords.tail
      have hclean' := (Respects.of_done (tidy.continued floor larger) hcontinued).1 hclean
      obtain ⟨hlarger, hnext'⟩ := ih.continuedOnce honce hwords.tail hclean' hkind
        (hleft.loosen (hnext joint hkind))
      exact ih.continued hfloor hcontinued hwords' hclean hlarger
        (Precedence.above_rank_le hbinds) hnext'

theorem continuedOnce_succ (ih : Sound n) {left e : Expr} {joint : Joint} {s t : State}
    {tokens : List Token}
    (h : Parser.continuedOnce (n + 1) left joint.continuation s = .done e t)
    (hwords : Words s.ahead) (hclean : t.diagnostics = []) (hkind : s.current.kind = joint.kind)
    (hleft : Reads (.level joint.level left) tokens s.ahead) :
    Reads (.level joint.level e) tokens t.ahead.tail ∧
      Bounded joint.level.rank (kindAhead t.ahead.tail) := by
  rw [State.ahead_eq_of_current hkind joint.kind_ne_eof] at hleft
  revert h
  apply continuedOnce_elim (motive := fun reply => reply = .done e t →
    Reads (.level joint.level e) tokens t.ahead.tail ∧
      Bounded joint.level.rank (kindAhead t.ahead.tail)) hkind
  case operator =>
      rintro op rfl h
      rw [bind_eq_done_iff] at h
      obtain ⟨right, u, hright, h⟩ := h
      cases h
      have hrank := op.precedence_rank
      have hfour := op.level_rank_le
      obtain ⟨hreads, hbounded⟩ := ih.expression (by omega) hright hwords.tail hclean
      rw [hrank] at hbounded
      exact ⟨.binary op.next?_level hleft hreads, hbounded⟩
  case call =>
      rintro rfl h
      rw [bind_eq_done_iff] at h
      obtain ⟨args, u, hargs, h⟩ := h
      cases h
      exact ⟨.call hleft (ih.items (by decide) hargs hwords hclean), bounded_six _⟩
  case index =>
      rintro rfl h
      rw [bind_eq_done_iff] at h
      obtain ⟨position, u, hposition, h⟩ := h
      rw [expect_bind_eq_done_iff] at h
      obtain ⟨hclose, h⟩ := h
      cases h
      have hreads := ih.whole hposition hwords.tail hclean
      rw [State.tail_eq_of_peek hclose (by decide)] at hreads
      exact ⟨.index hleft hreads, bounded_six _⟩

theorem items_succ (ih : Sound n) {close : Token.Kind} {s t : State} {es : List Expr}
    (hclose : close ≠ .eof) (h : Parser.items (n + 1) close s = .done es t)
    (hwords : Words s.ahead) (hclean : t.diagnostics = []) :
    Reads (.items close es) s.ahead.tail t.ahead.tail := by
  rw [Parser.items, peekKind_bind_apply] at h
  split at h
  · rename_i hnext
    cases h
    rw [State.tail_eq_of_peek hnext hclose]
    exact .noItems
  · rw [advance_bind_apply, bind_eq_done_iff] at h
    obtain ⟨first, u, hfirst, h⟩ := h
    rw [bind_eq_done_iff] at h
    obtain ⟨others, v, hothers, h⟩ := h
    rw [expect_bind_eq_done_iff] at h
    obtain ⟨hend, h⟩ := h
    cases h
    have tidy := tidy_invariant.respected n
    have hwords' := (Respects.of_done (tidy.expression _) hfirst).2 hwords.tail
    have hclean' := (Respects.of_done tidy.moreItems hothers).1 hclean
    exact .items (ih.whole hfirst hwords.tail hclean')
      (ih.moreItems hclose hothers hwords' hclean hend)

theorem moreItems_succ (ih : Sound n) {close : Token.Kind} {s t : State} {es : List Expr}
    (hclose : close ≠ .eof) (h : Parser.moreItems (n + 1) s = .done es t) (hwords : Words s.ahead)
    (hclean : t.diagnostics = []) (hend : t.peek.kind = close) :
    Reads (.moreItems close es) s.ahead.tail t.ahead.tail.tail := by
  rw [Parser.moreItems, peekKind_bind_apply] at h
  split at h
  · rename_i hcomma
    rw [advance_bind_apply, advance_bind_apply, bind_eq_done_iff] at h
    obtain ⟨item, u, hitem, h⟩ := h
    rw [bind_eq_done_iff] at h
    obtain ⟨others, v, hothers, h⟩ := h
    cases h
    have tidy := tidy_invariant.respected n
    have hwords' := (Respects.of_done (tidy.expression _) hitem).2 hwords.tail.tail
    have hclean' := (Respects.of_done tidy.moreItems hothers).1 hclean
    rw [State.tail_eq_of_peek hcomma (by decide)]
    exact .moreItems (ih.whole hitem hwords.tail.tail hclean')
      (ih.moreItems hclose hothers hwords' hclean hend)
  · cases h
    rw [State.tail_eq_of_peek hend hclose]
    exact .noMoreItems

theorem pairs_of_rbrace {s t : State} {ps : List (Expr × Expr)} (hnext : s.peek.kind = .rbrace)
    (h : Parser.pairs n s = .done ps t) : ps = [] ∧ t = s.forward := by
  cases n with
  | zero => cases h
  | succ n =>
      rw [Parser.pairs, peekKind_bind_apply, if_pos hnext] at h
      cases h
      exact ⟨rfl, rfl⟩

theorem pairs_succ (ih : Sound n) {s t : State} {ps : List (Expr × Expr)}
    (h : Parser.pairs (n + 1) s = .done ps t) (hwords : Words s.ahead)
    (hclean : t.diagnostics = []) : Reads (.pairs ps) s.ahead.tail t.ahead.tail := by
  rw [Parser.pairs, peekKind_bind_apply] at h
  split at h
  · rename_i hnext
    cases h
    rw [State.tail_eq_of_peek hnext (by decide)]
    exact .noPairs
  · rw [advance_bind_apply, bind_eq_done_iff] at h
    obtain ⟨key, u, hkey, h⟩ := h
    rw [expect_bind_eq_done_iff] at h
    obtain ⟨hcolon, h⟩ := h
    rw [advance_bind_apply, bind_eq_done_iff] at h
    obtain ⟨value, v, hvalue, h⟩ := h
    have tidy := tidy_invariant.respected n
    have hwords' := (Respects.of_done (tidy.expression _) hkey).2 hwords.tail
    have htidy := Respects.of_done (tidy.expression _) hvalue
    have pair {others : List (Expr × Expr)} (hclean' : v.diagnostics = [])
        (hmore : Reads (.morePairs others) v.ahead.tail t.ahead.tail) :
        Reads (.pairs ((key, value) :: others)) s.ahead.tail t.ahead.tail := by
      have hreads := ih.whole hkey hwords.tail (htidy.1 hclean')
      rw [State.tail_eq_of_peek hcolon (by decide)] at hreads
      exact .pairs hreads (ih.whole hvalue hwords'.tail.tail hclean') hmore
    rw [peekKind_bind_apply] at h
    split at h
    · rename_i hbrace
      rw [bind_eq_done_iff] at h
      obtain ⟨others, w, hothers, h⟩ := h
      cases h
      obtain ⟨rfl, rfl⟩ := pairs_of_rbrace hbrace hothers
      refine pair hclean ?_
      rw [State.tail_eq_of_peek hbrace (by decide)]
      exact .noMorePairs
    · rw [expect_bind_eq_done_iff] at h
      obtain ⟨hcomma, h⟩ := h
      rw [bind_eq_done_iff] at h
      obtain ⟨others, w, hothers, h⟩ := h
      cases h
      have hclean' := (Respects.of_done tidy.pairs hothers).1 hclean
      refine pair hclean' ?_
      rw [State.tail_eq_of_peek hcomma (by decide)]
      exact .morePairs (ih.pairs hothers (htidy.2 hwords'.tail.tail).tail hclean)

theorem block_succ (ih : Sound n) {s t : State} {body : Block}
    (h : Parser.block (n + 1) s = .done body t) (hbrace : s.current.kind = .lbrace)
    (hwords : Words s.ahead) (hclean : t.diagnostics = []) :
    Reads (.block body) s.ahead t.ahead.tail := by
  rw [Parser.block, enterBlock_bind_apply, advance_bind_apply, bind_eq_done_iff] at h
  obtain ⟨body, u, hbody, h⟩ := h
  cases h
  have hwords' := (Respects.of_done ((tidy_invariant.respected n).statements_respects _) hbody).2
    hwords.tail
  obtain ⟨hreads, hend⟩ := ih.statements hbody hwords.tail hclean
  rw [State.ahead_eq_of_current hbrace (by decide)]
  rcases hend with heof | ⟨-, hclose⟩
  · have hnil : u.ahead = [] := hwords'.eq_nil heof
    change Reads _ _ u.ahead.tail
    rw [hnil]
    rw [hnil] at hreads
    exact .unclosed hreads
  · rw [State.ahead_eq_of_current hclose (by decide)] at hreads
    exact .closed hreads

theorem statements_succ (ih : Sound n) {inBlock : Bool} {s t : State} {ss : List Stmt}
    (h : Parser.statements (n + 1) inBlock s = .done ss t) (hwords : Words s.ahead)
    (hclean : t.diagnostics = []) : Reads (.statements ss) s.ahead t.ahead ∧
      (t.current.kind = .eof ∨ inBlock = true ∧ t.current.kind = .rbrace) := by
  rw [Parser.statements, current_bind_apply] at h
  split at h
  · rename_i hstop
    cases h
    exact ⟨.noStatements, hstop⟩
  · rw [bind_eq_done_iff] at h
    obtain ⟨first, u, hfirst, h⟩ := h
    rw [advance_bind_apply, bind_eq_done_iff] at h
    obtain ⟨others, v, hothers, h⟩ := h
    cases h
    have tidy := tidy_invariant.respected n
    have hclean' := (Respects.of_done (tidy.statements_respects inBlock) hothers).1 hclean
    obtain ⟨st, rfl, hstatement⟩ | ⟨w, -, hstatement, rfl⟩ := orPassOver_cases hfirst
    · have hwords' := (Respects.of_done tidy.statement hstatement).2 hwords
      obtain ⟨hreads, hend⟩ := ih.statements hothers hwords'.tail hclean
      exact ⟨.statements (ih.statement hstatement hwords hclean') hreads, hend⟩
    · have hrecorded := tidy.statement s
      rw [hstatement] at hrecorded
      exact absurd hclean' hrecorded.1

theorem ends_of_skipSemicolon {st st' : Stmt} {u t : State}
    (h : (skipSemicolon >>= fun _ => (pure st : Parser Stmt)) u = .done st' t) :
    st' = st ∧ t.diagnostics = u.diagnostics ∧ Ends u.ahead.tail t.ahead.tail := by
  by_cases hnext : u.peek.kind = .semicolon
  · rw [skipSemicolon_bind_of_eq hnext] at h
    cases h
    refine ⟨rfl, rfl, ?_⟩
    rw [State.tail_eq_of_peek hnext (by decide)]
    exact .semicolon
  · rw [skipSemicolon_bind_of_ne hnext] at h
    cases h
    exact ⟨rfl, rfl, .missing hnext⟩

theorem statement_succ (ih : Sound n) {s t : State} {st : Stmt}
    (h : Parser.statement (n + 1) s = .done st t) (hwords : Words s.ahead)
    (hclean : t.diagnostics = []) : Reads (.statement st) s.ahead t.ahead.tail := by
  revert h
  apply statement_elim (motive := fun reply => reply = .done st t →
    Reads (.statement st) s.ahead t.ahead.tail)
  case bind =>
      intro hkind h
      rw [expect_bind_eq_done_iff] at h
      obtain ⟨hname, h⟩ := h
      rw [current_bind_apply, expect_bind_eq_done_iff] at h
      obtain ⟨hassign, h⟩ := h
      rw [advance_bind_apply, bind_eq_done_iff] at h
      obtain ⟨value, u, hvalue, h⟩ := h
      obtain ⟨rfl, hrecord, hend⟩ := ends_of_skipSemicolon h
      have hreads := ih.whole hvalue hwords.tail.tail.tail (hrecord ▸ hclean)
      have hahead := State.tail_eq_of_peek hassign (by decide)
      rw [State.forward_ahead] at hahead
      rw [State.ahead_eq_of_current hkind (by decide), State.tail_eq_of_peek hname (by decide),
        hahead]
      exact .bind hreads hend
  case bareReturn =>
      intro hkind hnext h
      obtain ⟨rfl, -, hend⟩ := ends_of_skipSemicolon h
      rw [State.ahead_eq_of_current hkind (by decide)]
      exact .bareReturn hnext hend
  case ret =>
      intro hkind _ h
      rw [bind_eq_done_iff] at h
      obtain ⟨value, u, hvalue, h⟩ := h
      obtain ⟨rfl, hrecord, hend⟩ := ends_of_skipSemicolon h
      rw [State.ahead_eq_of_current hkind (by decide)]
      exact .ret (ih.whole hvalue hwords.tail (hrecord ▸ hclean)) hend
  case expr =>
      intro _ _ h
      rw [bind_eq_done_iff] at h
      obtain ⟨value, u, hvalue, h⟩ := h
      obtain ⟨rfl, hrecord, hend⟩ := ends_of_skipSemicolon h
      exact .expr (ih.whole hvalue hwords (hrecord ▸ hclean)) hend

end Sound

theorem sound (n : Nat) : Sound n := by
  induction n with
  | zero =>
      constructor
      case expression => rintro _ _ _ _ - ⟨⟩
      case continued => rintro _ _ _ _ _ _ _ - ⟨⟩
      case items => rintro _ _ _ _ - ⟨⟩
      case moreItems => rintro _ _ _ _ - ⟨⟩
      case continuedOnce => rintro _ _ _ _ _ _ ⟨⟩
      case statements => rintro _ _ _ _ ⟨⟩
      all_goals rintro _ _ _ ⟨⟩
  | succ n ih =>
      exact
        { expression := ih.expression_succ
          operand := ih.operand_succ
          continued := ih.continued_succ
          continuedOnce := ih.continuedOnce_succ
          items := ih.items_succ
          moreItems := ih.moreItems_succ
          pairs := ih.pairs_succ
          block := ih.block_succ
          statements := ih.statements_succ
          statement := ih.statement_succ }

end ScriptLang.Parser
