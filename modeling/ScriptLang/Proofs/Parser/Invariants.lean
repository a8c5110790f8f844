import ScriptLang.Proofs.Parser.Cases

/-!
Invariants of reading.

An invariant relates the state at the start of a rule to the state at its end, with one relation
for rules that apply and one for rules that fail.  It is enough to check it on the steps from
which rules are made: the induction over all rules is done here once.
-/

namespace ScriptLang.Parser

variable {α β : Type}

/-- Two relations that every step keeps.  `R` is for rules that apply, `F` for rules that fail. -/
structure Invariant (R F : State → State → Prop) : Prop where
  refl : ∀ s, R s s
  trans : ∀ {s t u}, R s t → R t u → R s u
  trans_failed : ∀ {s t u}, R s t → F t u → F s u
  forward : ∀ s, R s s.forward
  record : ∀ s d, F s (s.record d)
  block : ∀ {s t}, R { s with blocks := s.blocks + 1 } t → R s { t with blocks := t.blocks - 1 }
  hash : ∀ {s t}, R { s with openHashes := s.openHashes + 1 } t →
    R s { t with openHashes := t.openHashes - 1 }
  hash_failed : ∀ {s t}, F { s with openHashes := s.openHashes + 1 } t → F s t
  resumed : ∀ {n s t}, statement n s = .failed t → F s t → R s (s.resumed t)

/-- A rule that keeps an invariant from any state. -/
def Respects (R F : State → State → Prop) (rule : Parser α) : Prop :=
  ∀ s, (rule s).Ends (fun _ t => R s t) (F s)

theorem Respects.of_done {R F : State → State → Prop} {rule : Parser α} {s t : State} {a : α}
    (h : Respects R F rule) (hdone : rule s = .done a t) : R s t :=
  (h s).of_done hdone

namespace Invariant

variable {R F : State → State → Prop} (inv : Invariant R F)
include inv

theorem trans_ends {reply : Reply α} {s t : State} (hst : R s t)
    (h : reply.Ends (fun _ u => R t u) (F t)) : reply.Ends (fun _ u => R s u) (F s) :=
  h.mono (fun _ _ htu => inv.trans hst htu) fun _ htu => inv.trans_failed hst htu

theorem bind {rule : Parser α} {next : α → Parser β} (hrule : Respects R F rule)
    (hnext : ∀ a, Respects R F (next a)) : Respects R F (rule >>= next) := by
  intro s
  refine bind_ends (hrule s) (fun t ht => ht) ?_
  intro a t hst
  exact inv.trans_ends hst (hnext a t)

theorem pure (a : α) : Respects R F (pure a : Parser α) :=
  fun s => inv.refl s

theorem reject (d : Diagnostic) : Respects R F (reject d : Parser α) :=
  fun s => inv.record s d

theorem current : Respects R F current :=
  fun s => inv.refl s

theorem peekKind : Respects R F peekKind :=
  fun s => inv.refl s

theorem advance : Respects R F advance :=
  fun s => inv.forward s

theorem expect (kind : Token.Kind) : Respects R F (expect kind) := by
  intro s
  unfold Parser.expect
  split
  · exact inv.forward s
  · exact inv.record s _

theorem skipSemicolon : Respects R F skipSemicolon := by
  intro s
  unfold Parser.skipSemicolon
  split
  · exact inv.forward s
  · exact inv.refl s

theorem moreParameters (n : Nat) : Respects R F (moreParameters n) := by
  induction n with
  | zero => exact fun s => trivial
  | succ n ih =>
      refine inv.bind inv.peekKind fun next => ?_
      split
      · refine inv.bind inv.advance fun _ => inv.bind (inv.expect _) fun _ => ?_
        exact inv.bind inv.current fun name => inv.bind ih fun names => inv.pure _
      · exact inv.bind (inv.expect _) fun _ => inv.pure _

theorem parameters (n : Nat) : Respects R F (parameters n) := by
  refine inv.bind inv.peekKind fun next => ?_
  split
  · exact inv.bind inv.advance fun _ => inv.pure _
  · refine inv.bind (inv.expect _) fun _ => inv.bind inv.current fun name => ?_
    exact inv.bind (inv.moreParameters n) fun names => inv.pure _

end Invariant

/-- All rules keep an invariant at one allowance.  Blocks and lists of statements never fail. -/
structure Respected (R F : State → State → Prop) (n : Nat) : Prop where
  expression : ∀ floor, Respects R F (expression n floor)
  operand : Respects R F (operand n)
  continued : ∀ floor left, Respects R F (continued n floor left)
  continuedOnce : ∀ {left joint s}, s.current.kind = Joint.kind joint →
    (continuedOnce n left joint.continuation s).Ends (fun _ t => R s t) (F s)
  items : ∀ close, Respects R F (items n close)
  moreItems : Respects R F (moreItems n)
  pairs : Respects R F (pairs n)
  block : ∀ s, (block n s).Ends (fun _ t => R s t) fun _ => False
  statements : ∀ inBlock s, (statements n inBlock s).Ends (fun _ t => R s t) fun _ => False
  statement : Respects R F (statement n)

namespace Respected

variable {R F : State → State → Prop} {n : Nat}

theorem block_respects (ih : Respected R F n) : Respects R F (Parser.block n) :=
  fun s => (ih.block s).mono (fun _ _ h => h) fun _ h => h.elim

theorem statements_respects (ih : Respected R F n) (inBlock : Bool) :
    Respects R F (Parser.statements n inBlock) :=
  fun s => (ih.statements inBlock s).mono (fun _ _ h => h) fun _ h => h.elim

theorem otherwise_respects (inv : Invariant R F) (ih : Respected R F n) (condition : Expr)
    (yes : Block) : Respects R F (otherwise n condition yes) := by
  refine inv.bind inv.peekKind fun next => ?_
  split
  · refine inv.bind inv.advance fun _ => inv.bind (inv.expect _) fun _ => ?_
    exact inv.bind ih.block_respects fun no => inv.pure _
  · exact inv.pure _

theorem operand_succ (inv : Invariant R F) (ih : Respected R F n) :
    Respects R F (Parser.operand (n + 1)) := by
  have hblock := ih.block_respects
  rw [Parser.operand]
  refine inv.bind inv.current fun token => ?_
  split
  · exact inv.pure _
  · split
    · exact inv.pure _
    · exact inv.reject _
  · exact inv.pure _
  · exact inv.pure _
  · exact inv.pure _
  · exact inv.bind inv.advance fun _ => inv.bind (ih.expression _) fun right => inv.pure _
  · exact inv.bind inv.advance fun _ => inv.bind (ih.expression _) fun right => inv.pure _
  · refine inv.bind inv.advance fun _ => inv.bind (ih.expression _) fun inner => ?_
    exact inv.bind (inv.expect _) fun _ => inv.pure _
  · refine inv.bind (inv.expect _) fun _ => inv.bind inv.advance fun _ => ?_
    refine inv.bind (ih.expression _) fun condition => inv.bind (inv.expect _) fun _ => ?_
    exact inv.bind (inv.expect _) fun _ =>
      inv.bind hblock fun yes => ih.otherwise_respects inv _ yes
  · refine inv.bind (inv.expect _) fun _ => inv.bind (inv.parameters n) fun params => ?_
    exact inv.bind (inv.expect _) fun _ => inv.bind hblock fun body => inv.pure _
  · exact inv.bind (ih.items _) fun elements => inv.pure _
  · intro s
    simp only [enterHash_bind_apply]
    refine bind_ends (ih.pairs _) (fun t ht => inv.hash_failed ht) ?_
    intro entries t hst
    simp only [leaveHash_bind_apply, pure_apply]
    exact inv.hash hst
  · exact inv.reject _

theorem continued_succ (inv : Invariant R F) (ih : Respected R F n) (floor : Precedence)
    (left : Expr) : Respects R F (Parser.continued (n + 1) floor left) := by
  intro s
  apply continued_elim (motive := fun reply => reply.Ends (fun _ t => R s t) (F s))
  case stop => exact fun _ => inv.refl s
  case goOn =>
      intro joint hkind _
      apply inv.trans_ends (inv.forward s)
      refine bind_ends (ih.continuedOnce hkind) (fun _ ht => ht) ?_
      intro larger t hst
      exact inv.trans_ends hst (ih.continued floor larger t)

theorem continuedOnce_succ (inv : Invariant R F) (ih : Respected R F n) {left : Expr}
    {joint : Joint} {s : State} (hkind : s.current.kind = joint.kind) :
    (Parser.continuedOnce (n + 1) left joint.continuation s).Ends (fun _ t => R s t) (F s) := by
  apply continuedOnce_elim (motive := fun reply => reply.Ends (fun _ t => R s t) (F s)) hkind
  case operator =>
      intro op _
      apply inv.trans_ends (inv.forward s)
      exact inv.bind (ih.expression _) (fun right => inv.pure _) s.forward
  case call => exact fun _ => inv.bind (ih.items _) (fun args => inv.pure _) s
  case index =>
      intro _
      apply inv.trans_ends (inv.forward s)
      refine inv.bind (ih.expression _) (fun position => ?_) s.forward
      exact inv.bind (inv.expect _) fun _ => inv.pure _

theorem items_succ (inv : Invariant R F) (ih : Respected R F n) (close : Token.Kind) :
    Respects R F (Parser.items (n + 1) close) := by
  refine inv.bind inv.peekKind fun next => ?_
  split
  · exact inv.bind inv.advance fun _ => inv.pure _
  · refine inv.bind inv.advance fun _ => inv.bind (ih.expression _) fun first => ?_
    exact inv.bind ih.moreItems fun others => inv.bind (inv.expect _) fun _ => inv.pure _

theorem moreItems_succ (inv : Invariant R F) (ih : Respected R F n) :
    Respects R F (Parser.moreItems (n + 1)) := by
  refine inv.bind inv.peekKind fun next => ?_
  split
  · refine inv.bind inv.advance fun _ => inv.bind inv.advance fun _ => ?_
    exact inv.bind (ih.expression _) fun item => inv.bind ih.moreItems fun others => inv.pure _
  · exact inv.pure _

theorem pairs_succ (inv : Invariant R F) (ih : Respected R F n) :
    Respects R F (Parser.pairs (n + 1)) := by
  refine inv.bind inv.peekKind fun next => ?_
  split
  · exact inv.bind inv.advance fun _ => inv.pure _
  · refine inv.bind inv.advance fun _ => inv.bind (ih.expression _) fun key => ?_
    refine inv.bind (inv.expect _) fun _ => inv.bind inv.advance fun _ => ?_
    refine inv.bind (ih.expression _) fun value => inv.bind inv.peekKind fun behind => ?_
    split
    · exact inv.bind ih.pairs fun others => inv.pure _
    · exact inv.bind (inv.expect _) fun _ => inv.bind ih.pairs fun others => inv.pure _

theorem block_succ (inv : Invariant R F) (ih : Respected R F n) (s : State) :
    (Parser.block (n + 1) s).Ends (fun _ t => R s t) fun _ => False := by
  rw [Parser.block]
  simp only [enterBlock_bind_apply, advance_bind_apply]
  refine bind_ends (ih.statements _ _) (fun _ h => h) ?_
  intro body t hst
  simp only [leaveBlock_bind_apply, pure_apply, Reply.done_ends]
  exact inv.block (inv.trans (inv.forward _) hst)

/-- A statement that fails is passed over, so the list of statements goes on. -/
theorem statements_succ (inv : Invariant R F) (ih : Respected R F n)
    (inBlock : Bool) (s : State) :
    (Parser.statements (n + 1) inBlock s).Ends (fun _ t => R s t) fun _ => False := by
  have goOn (first : Option Stmt) {t : State} (hst : R s t) :
      ((Parser.advance >>= fun _ => Parser.statements n inBlock >>= fun others =>
        (Pure.pure (first.toList ++ others) : Parser (List Stmt))) t).Ends (fun _ u => R s u)
        fun _ => False := by
    rw [advance_bind_apply]
    refine bind_ends (ih.statements _ _) (fun _ h => h) ?_
    intro others u htu
    exact inv.trans (inv.trans hst (inv.forward _)) htu
  rw [Parser.statements, current_bind_apply]
  split
  · exact inv.refl s
  · exact orPassOver_bind_ends (ih.statement s) (fun a t hst => goOn (some a) hst)
      fun t hfailed hst => goOn none (inv.resumed hfailed hst)

theorem statement_succ (inv : Invariant R F) (ih : Respected R F n) :
    Respects R F (Parser.statement (n + 1)) := by
  rw [Parser.statement]
  refine inv.bind inv.current fun token => ?_
  split
  · refine inv.bind (inv.expect _) fun _ => inv.bind inv.current fun name => ?_
    refine inv.bind (inv.expect _) fun _ => inv.bind inv.advance fun _ => ?_
    exact inv.bind (ih.expression _) fun value => inv.bind inv.skipSemicolon fun _ => inv.pure _
  · refine inv.bind inv.peekKind fun next => ?_
    split
    · exact inv.bind inv.skipSemicolon fun _ => inv.pure _
    · refine inv.bind inv.advance fun _ => ?_
      exact inv.bind (ih.expression _) fun value => inv.bind inv.skipSemicolon fun _ => inv.pure _
  · exact inv.bind (ih.expression _) fun value => inv.bind inv.skipSemicolon fun _ => inv.pure _

end Respected

/-- Every rule keeps every invariant, whatever the allowance. -/
theorem Invariant.respected {R F : State → State → Prop} (inv : Invariant R F) (n : Nat) :
    Respected R F n := by
  induction n with
  | zero =>
      exact ⟨fun _ _ => trivial, fun _ => trivial, fun _ _ _ => trivial, fun _ => trivial,
        fun _ _ => trivial, fun _ => trivial, fun _ => trivial, fun _ => trivial,
        fun _ _ => trivial, fun _ => trivial⟩
  | succ n ih =>
      exact
        { expression := fun floor => inv.bind ih.operand fun left => ih.continued floor left
          operand := ih.operand_succ inv
          continued := ih.continued_succ inv
          continuedOnce := ih.continuedOnce_succ inv
          items := ih.items_succ inv
          moreItems := ih.moreItems_succ inv
          pairs := ih.pairs_succ inv
          block := ih.block_succ inv
          statements := ih.statements_succ inv
          statement := ih.statement_succ inv }

theorem Invariant.of_orPassOver {R F : State → State → Prop} (inv : Invariant R F) {n : Nat}
    {s t : State} {first : Option Stmt} (h : orPassOver (statement n) s = .done first t) :
    R s t := by
  have hstatement := (inv.respected n).statement s
  obtain ⟨st, -, hrule⟩ | ⟨u, -, hrule, rfl⟩ := orPassOver_cases h
  · exact hstatement.of_done hrule
  · rw [hrule] at hstatement
    exact inv.resumed hrule hstatement

/-- Reading moves forward only: what is left at the end was there at the start. -/
theorem suffix_invariant :
    Invariant (fun s t => t.ahead <:+ s.ahead) fun s t => t.ahead <:+ s.ahead where
  refl _ := List.suffix_refl _
  trans hst htu := htu.trans hst
  trans_failed hst htu := htu.trans hst
  forward s := List.tail_suffix s.ahead
  record _ _ := List.suffix_refl _
  block h := h
  hash h := h
  hash_failed h := h
  resumed _ h := (passOver_suffix _ _ _).trans h

theorem statements_ne_failed (n : Nat) (inBlock : Bool) (s t : State) :
    statements n inBlock s ≠ .failed t := by
  intro h
  have hkeeps := (suffix_invariant.respected n).statements inBlock s
  rw [h] at hkeeps
  exact hkeeps

end ScriptLang.Parser
