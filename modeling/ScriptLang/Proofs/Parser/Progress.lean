import Mathlib.Data.Prod.Lex
import Mathlib.Logic.Relation
import ScriptLang.Proofs.Parser.Exactness

/-!
Reading makes progress.

`Calls` lists every call that one rule makes of another, and every turn of a loop, with the state
in which it is made.  Along the calls the tokens ahead never become more, and where they stay the
same the rank of the rule goes down.  A rule that comes up again has therefore left a token
behind.  At the end of input no token can be left behind, and there an expression fails at once.
-/

namespace ScriptLang.Parser

variable {α β : Type}

/-- What there is to carry out: a rule, or the search for the end of a broken statement. -/
inductive Rule where
  | expression (floor : Precedence)
  | operand
  | continued (floor : Precedence) (left : Expr)
  | continuedOnce (left : Expr) (continuation : Continuation)
  | items (close : Token.Kind)
  | moreItems
  | pairs
  | moreParameters
  | block
  | statements (inBlock : Bool)
  | statement
  | passOver (inBlock : Bool) (depth : Nat)

namespace Rule

/-- So many calls inside each other are not enough.  For the search, whose turns are not counted
by an allowance, it means that more tokens are passed over. -/
def Exceeds (n : Nat) (s : State) : Rule → Prop
  | expression floor => Parser.expression n floor s = .exhausted
  | operand => Parser.operand n s = .exhausted
  | continued floor left => Parser.continued n floor left s = .exhausted
  | continuedOnce left continuation => Parser.continuedOnce n left continuation s = .exhausted
  | items close => Parser.items n close s = .exhausted
  | moreItems => Parser.moreItems n s = .exhausted
  | pairs => Parser.pairs n s = .exhausted
  | moreParameters => Parser.moreParameters n s = .exhausted
  | block => Parser.block n s = .exhausted
  | statements inBlock => Parser.statements n inBlock s = .exhausted
  | statement => Parser.statement n s = .exhausted
  | passOver inBlock depth =>
      n + (Parser.passOver inBlock depth s.ahead).length < s.ahead.length

/-- Rules of a higher rank call those of a lower one without moving forward. -/
def rank : Rule → Nat
  | statements _ => 4
  | statement => 3
  | expression _ => 2
  | operand => 1
  | continued _ _ => 1
  | continuedOnce _ _ => 1
  | items _ => 0
  | moreItems => 0
  | pairs => 0
  | moreParameters => 0
  | block => 0
  | passOver _ _ => 0

/-- These rules pass a token before they look at it, so there has to be one. -/
def Begun (s : State) : Rule → Prop
  | continuedOnce _ _ => 0 < s.ahead.length
  | items _ => 0 < s.ahead.length
  | pairs => 0 < s.ahead.length
  | block => 0 < s.ahead.length
  | _ => True

end Rule

/-- A rule to be carried out, and the state it is carried out from. -/
abbrev Task := Rule × State

/-- The calls that a rule makes.  A call behind other calls depends on how those ended, at
whatever allowance they did. -/
inductive Calls : Task → Task → Prop
  | operand {floor : Precedence} {s : State} : Calls (.expression floor, s) (.operand, s)
  | continued {floor : Precedence} {s t : State} {n : Nat} {left : Expr} :
      operand n s = .done left t → Calls (.expression floor, s) (.continued floor left, t)
  | unary {s : State} {op : UnaryOp} :
      s.current.kind = op.kind → Calls (.operand, s) (.expression .unary, s.forward)
  | group {s : State} :
      s.current.kind = .lparen → Calls (.operand, s) (.expression .lowest, s.forward)
  | condition {s : State} :
      s.current.kind = .ifWord → s.peek.kind = .lparen →
      Calls (.operand, s) (.expression .lowest, s.forward.forward)
  | yes {s t : State} {n : Nat} {condition : Expr} :
      s.current.kind = .ifWord → s.peek.kind = .lparen →
      expression n .lowest s.forward.forward = .done condition t →
      t.peek.kind = .rparen → t.forward.peek.kind = .lbrace →
      Calls (.operand, s) (.block, t.forward.forward)
  | no {s t u : State} {n m : Nat} {condition : Expr} {yes : Block} :
      s.current.kind = .ifWord → s.peek.kind = .lparen →
      expression n .lowest s.forward.forward = .done condition t →
      t.peek.kind = .rparen → t.forward.peek.kind = .lbrace →
      block m t.forward.forward = .done yes u →
      u.peek.kind = .elseWord → u.forward.peek.kind = .lbrace →
      Calls (.operand, s) (.block, u.forward.forward)
  | moreParameters {s : State} :
      s.current.kind = .fnWord → s.peek.kind = .lparen → s.forward.peek.kind = .ident →
      Calls (.operand, s) (.moreParameters, s.forward.forward)
  | body {s t : State} {n : Nat} {params : List String} :
      s.current.kind = .fnWord → s.peek.kind = .lparen →
      parameters n s.forward = .done params t → t.peek.kind = .lbrace →
      Calls (.operand, s) (.block, t.forward)
  | elements {s : State} :
      s.current.kind = .lbracket → Calls (.operand, s) (.items .rbracket, s)
  | entries {s : State} :
      s.current.kind = .lbrace →
      Calls (.operand, s) (.pairs, { s with openHashes := s.openHashes + 1 })
  | continuedOnce {floor : Precedence} {left : Expr} {s : State} {c : Continuation} :
      floor < .ofKind s.peek.kind → Continuation.ofKind? s.peek.kind = some c →
      Calls (.continued floor left, s) (.continuedOnce left c, s.forward)
  | continuedOn {floor : Precedence} {left larger : Expr} {s t : State} {c : Continuation}
      {n : Nat} :
      floor < .ofKind s.peek.kind → Continuation.ofKind? s.peek.kind = some c →
      continuedOnce n left c s.forward = .done larger t →
      Calls (.continued floor left, s) (.continued floor larger, t)
  | right {left : Expr} {op : BinaryOp} {s : State} :
      BinaryOp.ofKind? s.current.kind = some op →
      Calls (.continuedOnce left .operator, s) (.expression (.ofKind s.current.kind), s.forward)
  | args {left : Expr} {s : State} :
      Calls (.continuedOnce left .call, s) (.items .rparen, s)
  | position {left : Expr} {s : State} :
      Calls (.continuedOnce left .index, s) (.expression .lowest, s.forward)
  | item {close : Token.Kind} {s : State} :
      s.peek.kind ≠ close → Calls (.items close, s) (.expression .lowest, s.forward)
  | moreItems {close : Token.Kind} {s t : State} {n : Nat} {item : Expr} :
      s.peek.kind ≠ close → expression n .lowest s.forward = .done item t →
      Calls (.items close, s) (.moreItems, t)
  | anotherItem {s : State} :
      s.peek.kind = .comma → Calls (.moreItems, s) (.expression .lowest, s.forward.forward)
  | itemsOn {s t : State} {n : Nat} {item : Expr} :
      s.peek.kind = .comma → expression n .lowest s.forward.forward = .done item t →
      Calls (.moreItems, s) (.moreItems, t)
  | key {s : State} :
      s.peek.kind ≠ .rbrace → Calls (.pairs, s) (.expression .lowest, s.forward)
  | value {s t : State} {n : Nat} {key : Expr} :
      s.peek.kind ≠ .rbrace → expression n .lowest s.forward = .done key t →
      t.peek.kind = .colon → Calls (.pairs, s) (.expression .lowest, t.forward.forward)
  | pairsEnd {s t u : State} {n m : Nat} {key value : Expr} :
      s.peek.kind ≠ .rbrace → expression n .lowest s.forward = .done key t →
      t.peek.kind = .colon → expression m .lowest t.forward.forward = .done value u →
      u.peek.kind = .rbrace → Calls (.pairs, s) (.pairs, u)
  | pairsOn {s t u : State} {n m : Nat} {key value : Expr} :
      s.peek.kind ≠ .rbrace → expression n .lowest s.forward = .done key t →
      t.peek.kind = .colon → expression m .lowest t.forward.forward = .done value u →
      u.peek.kind = .comma → Calls (.pairs, s) (.pairs, u.forward)
  | parametersOn {s : State} :
      s.peek.kind = .comma → s.forward.peek.kind = .ident →
      Calls (.moreParameters, s) (.moreParameters, s.forward.forward)
  | inside {s : State} :
      Calls (.block, s) (.statements true, State.forward { s with blocks := s.blocks + 1 })
  | statement {inBlock : Bool} {s : State} :
      ¬ (s.current.kind = .eof ∨ inBlock = true ∧ s.current.kind = .rbrace) →
      Calls (.statements inBlock, s) (.statement, s)
  | passOver {inBlock : Bool} {s t : State} {n : Nat} :
      ¬ (s.current.kind = .eof ∨ inBlock = true ∧ s.current.kind = .rbrace) →
      statement n s = .failed t →
      Calls (.statements inBlock, s)
        (.passOver (decide (0 < t.blocks)) (t.openHashes - s.openHashes), t)
  | statementsOn {inBlock : Bool} {s t : State} {n : Nat} {first : Option Stmt} :
      ¬ (s.current.kind = .eof ∨ inBlock = true ∧ s.current.kind = .rbrace) →
      orPassOver (Parser.statement n) s = .done first t →
      Calls (.statements inBlock, s) (.statements inBlock, t.forward)
  | bound {s : State} :
      s.current.kind = .letWord → s.peek.kind = .ident → s.forward.peek.kind = .assign →
      Calls (.statement, s) (.expression .lowest, s.forward.forward.forward)
  | returned {s : State} :
      s.current.kind = .returnWord →
      ¬ (s.peek.kind = .semicolon ∨ s.peek.kind = .rbrace ∨ s.peek.kind = .eof) →
      Calls (.statement, s) (.expression .lowest, s.forward)
  | alone {s : State} :
      s.current.kind ≠ .letWord → s.current.kind ≠ .returnWord →
      Calls (.statement, s) (.expression .lowest, s)
  | passOn {inBlock : Bool} {depth : Nat} {s : State} {token : Token} {rest : List Token} :
      s.ahead = token :: rest →
      ¬ (depth = 0 ∧ (s.current.kind = .semicolon ∨ inBlock = true ∧ s.peek.kind = .rbrace)) →
      Calls (.passOver inBlock depth, s)
        (.passOver inBlock (braceDepth depth s.peek.kind), s.forward)

section Descent

theorem length_le_of_done {rule : Parser α} {s t : State} {a : α}
    (hrule : Respects (fun s t => t.ahead <:+ s.ahead) (fun s t => t.ahead <:+ s.ahead) rule)
    (h : rule s = .done a t) : t.ahead.length ≤ s.ahead.length :=
  (hrule.of_done h).length_le

theorem expression_length_le {n : Nat} {floor : Precedence} {s t : State} {e : Expr}
    (h : expression n floor s = .done e t) : t.ahead.length ≤ s.ahead.length :=
  length_le_of_done ((suffix_invariant.respected n).expression floor) h

theorem block_length_le {n : Nat} {s t : State} {body : Block} (h : block n s = .done body t) :
    t.ahead.length ≤ s.ahead.length :=
  length_le_of_done (suffix_invariant.respected n).block_respects h

theorem statement_length_le {n : Nat} {s t : State} (h : statement n s = .failed t) :
    t.ahead.length ≤ s.ahead.length := by
  have hends := (suffix_invariant.respected n).statement s
  rw [h] at hends
  exact hends.length_le

/-- Where a task stands: the tokens ahead of it count first, then the rank of its rule. -/
def Task.standing (task : Task) : Nat ×ₗ Nat := toLex (task.2.ahead.length, task.1.rank)

/-- What a call leads to: a task that stands lower, and finds the token that it counts on. -/
structure Descends (task later : Task) : Prop where
  begun : later.1.Begun later.2
  lower : later.standing < task.standing

variable {r q : Rule} {s t : State}

theorem Rule.begun_of_pos (h : 0 < s.ahead.length) : r.Begun s := by
  cases r
  case continuedOnce => exact h
  case items => exact h
  case pairs => exact h
  case block => exact h
  all_goals trivial

namespace Descends

theorem of_passed (hbegun : q.Begun t) (h : t.ahead.length < s.ahead.length) :
    Descends (r, s) (q, t) :=
  ⟨hbegun, Prod.Lex.toLex_lt_toLex.2 (.inl h)⟩

theorem of_rank (hbegun : q.Begun t) (h : t.ahead.length ≤ s.ahead.length)
    (hrank : q.rank < r.rank) : Descends (r, s) (q, t) := by
  refine ⟨hbegun, Prod.Lex.toLex_lt_toLex.2 ?_⟩
  show t.ahead.length < s.ahead.length ∨ t.ahead.length = s.ahead.length ∧ q.rank < r.rank
  omega

theorem of_forward (hbegun : q.Begun s.forward) (h : 0 < s.ahead.length) :
    Descends (r, s) (q, s.forward) := by
  apply of_passed hbegun
  rw [State.forward_length]
  omega

end Descends

namespace Calls

variable {later : Task}

theorem expression_descends {floor : Precedence} (h : Calls (.expression floor, s) later) :
    Descends (.expression floor, s) later := by
  cases h with
  | operand => exact .of_rank trivial (Nat.le_refl _) (Nat.lt_succ_self 1)
  | continued hleft =>
      have hlength := length_le_of_done (suffix_invariant.respected _).operand hleft
      exact .of_rank trivial hlength (Nat.lt_succ_self 1)

theorem operand_descends (h : Calls (.operand, s) later) : Descends (.operand, s) later := by
  cases h with
  | @unary _ op hop =>
      exact .of_forward trivial (State.length_pos_of_current hop (by cases op <;> decide))
  | group hopen => exact .of_forward trivial (State.length_pos_of_current hopen (by decide))
  | condition hif hopen =>
      have hpos := State.two_le_length_of_peek hopen (by decide)
      refine .of_passed trivial ?_
      simp only [State.forward_length]
      omega
  | yes hif hopen hcondition hclose hbrace =>
      have hpos := State.two_le_length_of_peek hopen (by decide)
      have hlength := expression_length_le hcondition
      have hblock := State.two_le_length_of_peek hbrace (by decide)
      simp only [State.forward_length] at hlength hblock
      refine .of_passed (Rule.begun_of_pos ?_) ?_
      all_goals
        simp only [State.forward_length]
        omega
  | no hif hopen hcondition hclose hbrace hyes helse hbrace' =>
      have hpos := State.two_le_length_of_peek hopen (by decide)
      have hlength := expression_length_le hcondition
      have hlength' := block_length_le hyes
      have hblock := State.two_le_length_of_peek hbrace' (by decide)
      simp only [State.forward_length] at hlength hlength' hblock
      refine .of_passed (Rule.begun_of_pos ?_) ?_
      all_goals
        simp only [State.forward_length]
        omega
  | moreParameters hfn hopen hname =>
      have hpos := State.two_le_length_of_peek hopen (by decide)
      refine .of_passed trivial ?_
      simp only [State.forward_length]
      omega
  | body hfn hopen hparams hbrace =>
      have hpos := State.two_le_length_of_peek hopen (by decide)
      have hlength := length_le_of_done (suffix_invariant.parameters _) hparams
      have hblock := State.two_le_length_of_peek hbrace (by decide)
      simp only [State.forward_length] at hlength
      refine .of_passed (Rule.begun_of_pos ?_) ?_
      all_goals
        simp only [State.forward_length]
        omega
  | elements hopen =>
      exact .of_rank (State.length_pos_of_current hopen (by decide))
        (Nat.le_refl _) Nat.zero_lt_one
  | entries hopen =>
      exact .of_rank (State.length_pos_of_current hopen (by decide))
        (Nat.le_refl _) Nat.zero_lt_one

theorem continued_descends {floor : Precedence} {left : Expr}
    (h : Calls (.continued floor left, s) later) : Descends (.continued floor left, s) later := by
  cases h with
  | continuedOnce hfloor hnext =>
      obtain ⟨joint, hkind, -⟩ := Joint.exists_of_ofKind? hnext
      have hpos := State.two_le_length_of_peek hkind.symm joint.kind_ne_eof
      refine .of_forward (Rule.begun_of_pos ?_) (by omega)
      rw [State.forward_length]
      omega
  | continuedOn hfloor hnext honce =>
      obtain ⟨joint, hkind, rfl⟩ := Joint.exists_of_ofKind? hnext
      have hpos := State.two_le_length_of_peek hkind.symm joint.kind_ne_eof
      have hcurrent : s.forward.current.kind = joint.kind := hkind.symm
      have hsuffix := ((suffix_invariant.respected _).continuedOnce hcurrent).of_done honce
      have hlength := hsuffix.length_le
      rw [State.forward_length] at hlength
      exact .of_passed trivial (by omega)

theorem continuedOnce_descends {left : Expr} {c : Continuation}
    (h : Calls (.continuedOnce left c, s) later) (hpos : 0 < s.ahead.length) :
    Descends (.continuedOnce left c, s) later := by
  cases h with
  | right hop => exact .of_forward trivial hpos
  | args => exact .of_rank hpos (Nat.le_refl _) Nat.zero_lt_one
  | position => exact .of_forward trivial hpos

theorem items_descends {close : Token.Kind} (h : Calls (.items close, s) later)
    (hpos : 0 < s.ahead.length) : Descends (.items close, s) later := by
  cases h with
  | item hnext => exact .of_forward trivial hpos
  | moreItems hnext hitem =>
      have hlength := expression_length_le hitem
      rw [State.forward_length] at hlength
      exact .of_passed trivial (by omega)

theorem moreItems_descends (h : Calls (.moreItems, s) later) :
    Descends (.moreItems, s) later := by
  cases h with
  | anotherItem hcomma =>
      have hpos := State.two_le_length_of_peek hcomma (by decide)
      refine .of_passed trivial ?_
      simp only [State.forward_length]
      omega
  | itemsOn hcomma hitem =>
      have hpos := State.two_le_length_of_peek hcomma (by decide)
      have hlength := expression_length_le hitem
      simp only [State.forward_length] at hlength
      exact .of_passed trivial (by omega)

theorem pairs_descends (h : Calls (.pairs, s) later) (hpos : 0 < s.ahead.length) :
    Descends (.pairs, s) later := by
  cases h with
  | key hnext => exact .of_forward trivial hpos
  | value hnext hkey hcolon =>
      have hlength := expression_length_le hkey
      refine .of_passed trivial ?_
      simp only [State.forward_length] at hlength ⊢
      omega
  | pairsEnd hnext hkey hcolon hvalue hclose =>
      have hlength := expression_length_le hkey
      have hlength' := expression_length_le hvalue
      have hleft := State.two_le_length_of_peek hclose (by decide)
      simp only [State.forward_length] at hlength hlength'
      exact .of_passed (Rule.begun_of_pos (by omega)) (by omega)
  | pairsOn hnext hkey hcolon hvalue hcomma =>
      have hlength := expression_length_le hkey
      have hlength' := expression_length_le hvalue
      have hleft := State.two_le_length_of_peek hcomma (by decide)
      simp only [State.forward_length] at hlength hlength'
      refine .of_passed (Rule.begun_of_pos ?_) ?_
      all_goals
        rw [State.forward_length]
        omega

theorem moreParameters_descends (h : Calls (.moreParameters, s) later) :
    Descends (.moreParameters, s) later := by
  cases h with
  | parametersOn hcomma hname =>
      have hpos := State.two_le_length_of_peek hcomma (by decide)
      refine .of_passed trivial ?_
      simp only [State.forward_length]
      omega

theorem block_descends (h : Calls (.block, s) later) (hpos : 0 < s.ahead.length) :
    Descends (.block, s) later := by
  cases h with
  | inside =>
      refine .of_passed trivial ?_
      rw [State.forward_length]
      exact Nat.sub_lt hpos Nat.zero_lt_one

theorem statements_descends {inBlock : Bool} (h : Calls (.statements inBlock, s) later) :
    Descends (.statements inBlock, s) later := by
  cases h with
  | statement hgoes => exact .of_rank trivial (Nat.le_refl _) (Nat.lt_succ_self 3)
  | passOver hgoes hfailed =>
      exact .of_rank trivial (statement_length_le hfailed) (Nat.zero_lt_succ 3)
  | statementsOn hgoes hfirst =>
      have hpos : 1 ≤ s.ahead.length :=
        State.length_pos_of_current rfl fun heof => hgoes (.inl heof)
      have hlength := (suffix_invariant.of_orPassOver hfirst).length_le
      refine .of_passed trivial ?_
      rw [State.forward_length]
      omega

theorem statement_descends (h : Calls (.statement, s) later) :
    Descends (.statement, s) later := by
  cases h with
  | bound hlet hname hassign =>
      have hpos := State.two_le_length_of_peek hname (by decide)
      refine .of_passed trivial ?_
      simp only [State.forward_length]
      omega
  | returned hreturn hnext =>
      exact .of_forward trivial (State.length_pos_of_current hreturn (by decide))
  | alone hlet hreturn => exact .of_rank trivial (Nat.le_refl _) (Nat.lt_succ_self 2)

theorem passOver_descends {inBlock : Bool} {depth : Nat}
    (h : Calls (.passOver inBlock depth, s) later) :
    Descends (.passOver inBlock depth, s) later := by
  cases h with
  | passOn hahead hgoes =>
      refine .of_forward trivial ?_
      rw [hahead]
      exact Nat.succ_pos _

theorem descends {task later : Task} (h : Calls task later) (hbegun : task.1.Begun task.2) :
    Descends task later := by
  obtain ⟨r, s⟩ := task
  cases r with
  | expression floor => exact h.expression_descends
  | operand => exact h.operand_descends
  | continued floor left => exact h.continued_descends
  | continuedOnce left c => exact h.continuedOnce_descends hbegun
  | items close => exact h.items_descends hbegun
  | moreItems => exact h.moreItems_descends
  | pairs => exact h.pairs_descends hbegun
  | moreParameters => exact h.moreParameters_descends
  | block => exact h.block_descends hbegun
  | statements inBlock => exact h.statements_descends
  | statement => exact h.statement_descends
  | passOver inBlock depth => exact h.passOver_descends

end Calls

end Descent

section Exhaustion

variable {n : Nat} {s : State}

theorem bind_eq_exhausted_iff {rule : Parser α} {next : α → Parser β} :
    (rule >>= next) s = .exhausted ↔
      rule s = .exhausted ∨ ∃ a u, rule s = .done a u ∧ next a u = .exhausted := by
  rw [bind_apply]
  cases hrule : rule s with
  | done a u =>
      constructor
      · exact fun h => .inr ⟨a, u, rfl, h⟩
      · rintro (h | ⟨b, v, h, hnext⟩)
        · cases h
        · cases h
          exact hnext
  | failed u => simp
  | exhausted => simp

theorem expect_bind_eq_exhausted_iff {kind : Token.Kind} {next : Unit → Parser β} :
    (expect kind >>= next) s = .exhausted ↔
      s.peek.kind = kind ∧ next () s.forward = .exhausted := by
  by_cases h : s.peek.kind = kind
  · simp [expect_bind_of_eq h, h]
  · simp [expect_bind_of_ne h, h]

theorem pure_ne_exhausted (a : α) (s : State) : (pure a : Parser α) s ≠ .exhausted := by
  intro h
  cases h

theorem skipSemicolon_bind_pure_ne_exhausted (a : α) (s : State) :
    (skipSemicolon >>= fun _ => (pure a : Parser α)) s ≠ .exhausted := by
  by_cases h : s.peek.kind = .semicolon
  · rw [skipSemicolon_bind_of_eq h]
    exact pure_ne_exhausted a _
  · rw [skipSemicolon_bind_of_ne h]
    exact pure_ne_exhausted a _

theorem orPassOver_eq_exhausted_iff {rule : Parser α} :
    orPassOver rule s = .exhausted ↔ rule s = .exhausted := by
  cases h : rule s with
  | done a t => simp [orPassOver_of_done h]
  | failed t => simp [orPassOver_of_failed h]
  | exhausted => simp [orPassOver_of_exhausted h]

/-- A rule that is followed by no other has used up its allowance itself. -/
theorem eq_exhausted_of_bind {rule : Parser α} {next : α → Parser β}
    (h : (rule >>= next) s = .exhausted) (hnext : ∀ a u, next a u ≠ .exhausted) :
    rule s = .exhausted := by
  rcases bind_eq_exhausted_iff.1 h with hrule | ⟨a, u, -, hlast⟩
  · exact hrule
  · exact absurd hlast (hnext a u)

/-- One of the calls of a rule needs more than the allowance. -/
def CallsBeyond (n : Nat) (r : Rule) (s : State) : Prop :=
  ∃ later : Task, Calls (r, s) later ∧ later.1.Exceeds n later.2

theorem expression_callsBeyond {floor : Precedence}
    (h : expression (n + 1) floor s = .exhausted) :
    CallsBeyond n (.expression floor) s := by
  rw [expression, bind_eq_exhausted_iff] at h
  rcases h with hleft | ⟨left, t, hleft, hmore⟩
  · exact ⟨_, .operand, hleft⟩
  · exact ⟨_, .continued hleft, hmore⟩

theorem parameters_eq_exhausted (h : parameters n s = .exhausted) :
    s.peek.kind = .ident ∧ moreParameters n s.forward = .exhausted := by
  rw [parameters, peekKind_bind_apply] at h
  split at h
  · cases h
  · rw [expect_bind_eq_exhausted_iff, current_bind_apply] at h
    exact ⟨h.1, eq_exhausted_of_bind h.2 fun names => pure_ne_exhausted _⟩

theorem cond_callsBeyond (hif : s.current.kind = .ifWord)
    (h : (expect .lparen >>= fun _ => advance >>= fun _ => expression n .lowest >>=
      fun condition => expect .rparen >>= fun _ => expect .lbrace >>= fun _ => block n >>=
      fun yes => otherwise n condition yes) s = .exhausted) : CallsBeyond n .operand s := by
  rw [expect_bind_eq_exhausted_iff, advance_bind_apply, bind_eq_exhausted_iff] at h
  obtain ⟨hopen, hcondition | ⟨condition, t, hcondition, h⟩⟩ := h
  · exact ⟨_, .condition hif hopen, hcondition⟩
  rw [expect_bind_eq_exhausted_iff, expect_bind_eq_exhausted_iff, bind_eq_exhausted_iff] at h
  obtain ⟨hclose, hbrace, hyes | ⟨yes, u, hyes, h⟩⟩ := h
  · exact ⟨_, .yes hif hopen hcondition hclose hbrace, hyes⟩
  rw [otherwise, peekKind_bind_apply] at h
  split at h
  · rename_i helse
    rw [advance_bind_apply, expect_bind_eq_exhausted_iff] at h
    refine ⟨_, .no hif hopen hcondition hclose hbrace hyes helse h.1, ?_⟩
    exact eq_exhausted_of_bind h.2 fun no => pure_ne_exhausted _
  · cases h

theorem fn_callsBeyond (hfn : s.current.kind = .fnWord)
    (h : (expect .lparen >>= fun _ => parameters n >>= fun params => expect .lbrace >>=
      fun _ => block n >>= fun body => pure (.fn () params body : Expr)) s = .exhausted) :
    CallsBeyond n .operand s := by
  rw [expect_bind_eq_exhausted_iff, bind_eq_exhausted_iff] at h
  obtain ⟨hopen, hparams | ⟨params, t, hparams, h⟩⟩ := h
  · obtain ⟨hname, hmore⟩ := parameters_eq_exhausted hparams
    exact ⟨_, .moreParameters hfn hopen hname, hmore⟩
  · rw [expect_bind_eq_exhausted_iff] at h
    refine ⟨_, .body hfn hopen hparams h.1, ?_⟩
    exact eq_exhausted_of_bind h.2 fun body => pure_ne_exhausted _

theorem operand_callsBeyond (h : operand (n + 1) s = .exhausted) : CallsBeyond n .operand s := by
  revert h
  apply operand_elim (motive := fun reply => reply = .exhausted → CallsBeyond n .operand s)
  case unary =>
      intro op hop h
      exact ⟨_, .unary hop, eq_exhausted_of_bind h fun right => pure_ne_exhausted _⟩
  case group =>
      intro hopen h
      refine ⟨_, .group hopen, eq_exhausted_of_bind h fun inner t hclose => ?_⟩
      rw [expect_bind_eq_exhausted_iff] at hclose
      cases hclose.2
  case cond => exact cond_callsBeyond
  case fn => exact fn_callsBeyond
  case array =>
      intro hopen h
      exact ⟨_, .elements hopen, eq_exhausted_of_bind h fun elements => pure_ne_exhausted _⟩
  case hash =>
      intro hopen h
      refine ⟨_, .entries hopen, eq_exhausted_of_bind h fun entries t => ?_⟩
      rw [leaveHash_bind_apply]
      exact pure_ne_exhausted _ _
  all_goals
    intros
    contradiction

theorem continued_callsBeyond {floor : Precedence} {left : Expr}
    (h : continued (n + 1) floor left s = .exhausted) :
    CallsBeyond n (.continued floor left) s := by
  revert h
  apply continued_elim
    (motive := fun reply => reply = .exhausted → CallsBeyond n (.continued floor left) s)
  case stop => exact fun _ h => by cases h
  case goOn =>
      intro joint hkind hfloor h
      have hnext := joint.ofKind?_kind
      rw [Joint.precedence, ← hkind] at hfloor
      rw [← hkind] at hnext
      rcases bind_eq_exhausted_iff.1 h with honce | ⟨larger, t, honce, hmore⟩
      · exact ⟨_, .continuedOnce hfloor hnext, honce⟩
      · exact ⟨_, .continuedOn hfloor hnext honce, hmore⟩

theorem continuedOnce_callsBeyond {left : Expr} {c : Continuation}
    (h : continuedOnce (n + 1) left c s = .exhausted) :
    CallsBeyond n (.continuedOnce left c) s := by
  cases c with
  | operator =>
      rw [continuedOnce, current_bind_apply] at h
      cases hop : BinaryOp.ofKind? s.current.kind with
      | none =>
          rw [hop] at h
          cases h
      | some op =>
          rw [hop] at h
          exact ⟨_, .right hop, eq_exhausted_of_bind h fun right => pure_ne_exhausted _⟩
  | call =>
      rw [continuedOnce] at h
      exact ⟨_, .args, eq_exhausted_of_bind h fun args => pure_ne_exhausted _⟩
  | index =>
      rw [continuedOnce, advance_bind_apply] at h
      refine ⟨_, .position, eq_exhausted_of_bind h fun position t hclose => ?_⟩
      rw [expect_bind_eq_exhausted_iff] at hclose
      cases hclose.2

theorem items_callsBeyond {close : Token.Kind} (h : items (n + 1) close s = .exhausted) :
    CallsBeyond n (.items close) s := by
  rw [items, peekKind_bind_apply] at h
  split at h
  · cases h
  · rename_i hnext
    rw [advance_bind_apply, bind_eq_exhausted_iff] at h
    rcases h with hitem | ⟨item, t, hitem, h⟩
    · exact ⟨_, .item hnext, hitem⟩
    · refine ⟨_, .moreItems hnext hitem, eq_exhausted_of_bind h fun others u hclose => ?_⟩
      rw [expect_bind_eq_exhausted_iff] at hclose
      cases hclose.2

theorem moreItems_callsBeyond (h : moreItems (n + 1) s = .exhausted) :
    CallsBeyond n .moreItems s := by
  rw [moreItems, peekKind_bind_apply] at h
  split at h
  · rename_i hcomma
    rw [advance_bind_apply, advance_bind_apply, bind_eq_exhausted_iff] at h
    rcases h with hitem | ⟨item, t, hitem, h⟩
    · exact ⟨_, .anotherItem hcomma, hitem⟩
    · exact ⟨_, .itemsOn hcomma hitem, eq_exhausted_of_bind h fun others => pure_ne_exhausted _⟩
  · cases h

theorem pairs_callsBeyond (h : pairs (n + 1) s = .exhausted) : CallsBeyond n .pairs s := by
  rw [pairs, peekKind_bind_apply] at h
  split at h
  · cases h
  rename_i hnext
  rw [advance_bind_apply, bind_eq_exhausted_iff] at h
  rcases h with hkey | ⟨key, t, hkey, h⟩
  · exact ⟨_, .key hnext, hkey⟩
  rw [expect_bind_eq_exhausted_iff, advance_bind_apply, bind_eq_exhausted_iff] at h
  obtain ⟨hcolon, hvalue | ⟨value, u, hvalue, h⟩⟩ := h
  · exact ⟨_, .value hnext hkey hcolon, hvalue⟩
  rw [peekKind_bind_apply] at h
  split at h
  · rename_i hclose
    refine ⟨_, .pairsEnd hnext hkey hcolon hvalue hclose, ?_⟩
    exact eq_exhausted_of_bind h fun others => pure_ne_exhausted _
  · rw [expect_bind_eq_exhausted_iff] at h
    refine ⟨_, .pairsOn hnext hkey hcolon hvalue h.1, ?_⟩
    exact eq_exhausted_of_bind h.2 fun others => pure_ne_exhausted _

theorem moreParameters_callsBeyond (h : moreParameters (n + 1) s = .exhausted) :
    CallsBeyond n .moreParameters s := by
  rw [moreParameters, peekKind_bind_apply] at h
  split at h
  · rename_i hcomma
    rw [advance_bind_apply, expect_bind_eq_exhausted_iff, current_bind_apply] at h
    exact ⟨_, .parametersOn hcomma h.1, eq_exhausted_of_bind h.2 fun names => pure_ne_exhausted _⟩
  · rw [expect_bind_eq_exhausted_iff] at h
    cases h.2

theorem block_callsBeyond (h : block (n + 1) s = .exhausted) : CallsBeyond n .block s := by
  rw [block, enterBlock_bind_apply, advance_bind_apply] at h
  refine ⟨_, .inside, eq_exhausted_of_bind h fun body t => ?_⟩
  rw [leaveBlock_bind_apply]
  exact pure_ne_exhausted _ _

theorem statements_callsBeyond {inBlock : Bool} (h : statements (n + 1) inBlock s = .exhausted) :
    CallsBeyond n (.statements inBlock) s := by
  rw [statements, current_bind_apply] at h
  split at h
  · cases h
  · rename_i hgoes
    rcases bind_eq_exhausted_iff.1 h with hfirst | ⟨first, t, hfirst, h⟩
    · exact ⟨_, .statement hgoes, orPassOver_eq_exhausted_iff.1 hfirst⟩
    · rw [advance_bind_apply] at h
      refine ⟨_, .statementsOn hgoes hfirst, ?_⟩
      exact eq_exhausted_of_bind h fun others => pure_ne_exhausted _

theorem statement_callsBeyond (h : statement (n + 1) s = .exhausted) :
    CallsBeyond n .statement s := by
  revert h
  apply statement_elim (motive := fun reply => reply = .exhausted → CallsBeyond n .statement s)
  case bind =>
      intro hlet h
      rw [expect_bind_eq_exhausted_iff, current_bind_apply, expect_bind_eq_exhausted_iff,
        advance_bind_apply] at h
      obtain ⟨hname, hassign, h⟩ := h
      refine ⟨_, .bound hlet hname hassign, ?_⟩
      exact eq_exhausted_of_bind h fun value => skipSemicolon_bind_pure_ne_exhausted _
  case bareReturn => exact fun _ _ h => absurd h (skipSemicolon_bind_pure_ne_exhausted _ _)
  case ret =>
      intro hreturn hnext h
      refine ⟨_, .returned hreturn hnext, ?_⟩
      exact eq_exhausted_of_bind h fun value => skipSemicolon_bind_pure_ne_exhausted _
  case expr =>
      intro hlet hreturn h
      refine ⟨_, .alone hlet hreturn, ?_⟩
      exact eq_exhausted_of_bind h fun value => skipSemicolon_bind_pure_ne_exhausted _

theorem passOver_callsBeyond {inBlock : Bool} {depth : Nat}
    (h : (Rule.passOver inBlock depth).Exceeds (n + 1) s) :
    CallsBeyond n (.passOver inBlock depth) s := by
  rw [Rule.Exceeds] at h
  rcases hahead : s.ahead with _ | ⟨token, rest⟩
  · rw [hahead] at h
    exact absurd h (Nat.not_lt_zero _)
  · have hcurrent : s.current = token := by rw [State.current, hahead]; rfl
    have hpeek : s.peek = rest.headD Token.endOfInput := by rw [State.peek, hahead]; rfl
    rw [hahead, passOver, ← hcurrent, ← hpeek] at h
    split at h
    · omega
    · rename_i hgoes
      refine ⟨_, .passOn hahead hgoes, ?_⟩
      rw [Rule.Exceeds, State.forward_ahead, hahead]
      exact Nat.lt_of_succ_lt_succ (by simpa [Nat.add_right_comm] using h)

/-- No call is missing from the list: a rule uses up its allowance only where one of its calls
does. -/
theorem Rule.Exceeds.calls {r : Rule} (h : r.Exceeds (n + 1) s) : CallsBeyond n r s := by
  cases r with
  | expression floor => exact expression_callsBeyond h
  | operand => exact operand_callsBeyond h
  | continued floor left => exact continued_callsBeyond h
  | continuedOnce left c => exact continuedOnce_callsBeyond h
  | items close => exact items_callsBeyond h
  | moreItems => exact moreItems_callsBeyond h
  | pairs => exact pairs_callsBeyond h
  | moreParameters => exact moreParameters_callsBeyond h
  | block => exact block_callsBeyond h
  | statements inBlock => exact statements_callsBeyond h
  | statement => exact statement_callsBeyond h
  | passOver inBlock depth => exact passOver_callsBeyond h

end Exhaustion

section Runs

open Relation

theorem descends_of_transGen {task later : Task} (h : TransGen Calls task later)
    (hbegun : task.1.Begun task.2) : Descends task later := by
  induction h with
  | single hcall => exact hcall.descends hbegun
  | tail _ hcall ih =>
      have hlast := hcall.descends ih.begun
      exact ⟨hlast.begun, hlast.lower.trans ih.lower⟩

theorem begun_of_reached {tokens : List Token} {task : Task}
    (h : ReflTransGen Calls (.statements false, .start tokens) task) : task.1.Begun task.2 := by
  induction h with
  | refl => trivial
  | tail _ hcall ih => exact (hcall.descends ih).begun

theorem acc_of_begun {task : Task} (hbegun : task.1.Begun task.2) :
    Acc (fun later earlier => Calls earlier later) task := by
  induction hstanding : task.standing using WellFoundedLT.induction generalizing task with
  | ind standing ih =>
    subst hstanding
    refine ⟨_, fun later hcall => ?_⟩
    have hlater := hcall.descends hbegun
    exact ih _ hlater.lower hlater.begun rfl

theorem statements_stop {n : Nat} {inBlock : Bool} {s t : State} {body : List Stmt}
    (h : statements n inBlock s = .done body t) :
    t.current.kind = .eof ∨ inBlock = true ∧ t.current.kind = .rbrace := by
  induction n generalizing s body with
  | zero => cases h
  | succ n ih =>
      rw [statements, current_bind_apply] at h
      split at h
      · rename_i hstop
        cases h
        exact hstop
      · obtain ⟨first, u, -, h⟩ := bind_eq_done_iff.1 h
        rw [advance_bind_apply] at h
        obtain ⟨others, v, hothers, h⟩ := bind_eq_done_iff.1 h
        cases h
        exact ih hothers

/-- A run ends at the end of input and nowhere else. -/
theorem run_ahead_eq_nil {tokens : List Token} {program : Program} {state : State}
    (hwords : Words tokens) (h : run tokens = .done program state) : state.ahead = [] := by
  have hsuffix := (suffix_invariant.respected (allowance tokens.length)).statements_respects false
  have hstop : state.current.kind = .eof := by
    rcases statements_stop h with heof | ⟨hblock, -⟩
    · exact heof
    · cases hblock
  exact (hwords.suffix (hsuffix.of_done h)).eq_nil hstop

theorem expression_fails_at_end (n : Nat) (floor : Precedence) {s : State} (h : s.ahead = []) :
    expression (n + 2) floor s = .failed (s.record (.noExpression .eof)) := by
  have hcurrent : s.current = Token.endOfInput := by rw [State.current, h]; rfl
  rw [expression, bind_apply, operand, current_bind_apply, hcurrent]
  rfl

/-- Reading any text comes to an end at the end of input, with every token left behind.  On the
way there is no endless chain of calls: a call finds no more tokens than its caller, and fewer if
its rule has the rank of the caller or a higher one, as it has whenever a rule or a loop comes
round again.  The calls are all there, since a rule needs a larger allowance only for one of them.
Where no token can be left behind, an expression fails. -/
theorem reading_progresses_to_end (source : String) :
    (∃ program state, run (Token.words source.toList) = .done program state ∧
      Reading.ofSource source = ⟨program, state.diagnostics⟩ ∧
      state.ahead = [] ∧ Token.tokenize source = Token.words source.toList ++ [state.current]) ∧
    (∀ task, ReflTransGen Calls (.statements false, .start (Token.words source.toList)) task →
      Acc (fun later earlier => Calls earlier later) task ∧
      ∀ later, TransGen Calls task later →
        later.2.ahead.length ≤ task.2.ahead.length ∧
        (task.1.rank ≤ later.1.rank → later.2.ahead.length < task.2.ahead.length)) ∧
    (∀ n r s, Rule.Exceeds (n + 1) s r →
      ∃ later : Task, Calls (r, s) later ∧ later.1.Exceeds n later.2) ∧
    ∀ n floor s, s.ahead = [] →
      expression (n + 2) floor s = .failed (s.record (.noExpression .eof)) := by
  have hwords : Words (Token.words source.toList) :=
    fun token htoken => Token.kind_ne_eof_of_mem_words htoken
  refine ⟨?_, ?_, fun n r s h => h.calls, fun n floor s => expression_fails_at_end n floor⟩
  · obtain ⟨program, state, hrun⟩ := run_eq_done (Token.words source.toList)
    have hend := run_ahead_eq_nil hwords hrun
    refine ⟨program, state, hrun, ofTokens_of_run hrun, hend, ?_⟩
    rw [State.current, hend]
    rfl
  · intro task hreached
    have hbegun := begun_of_reached hreached
    refine ⟨acc_of_begun hbegun, fun later hcalls => ?_⟩
    have hlower := (descends_of_transGen hcalls hbegun).lower
    rcases Prod.Lex.toLex_lt_toLex.1 hlower with hless | ⟨hsame, hrank⟩
    · exact ⟨hless.le, fun _ => hless⟩
    · exact ⟨hsame.le, fun hle => absurd hrank (Nat.not_lt.2 hle)⟩

end Runs

end ScriptLang.Parser
