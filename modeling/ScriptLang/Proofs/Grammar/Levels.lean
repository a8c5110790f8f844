import ScriptLang.Program.Precedence
import ScriptLang.Proofs.Grammar.Basic

namespace ScriptLang

theorem BinaryOp.ofKind?_kind (op : BinaryOp) : BinaryOp.ofKind? op.kind = some op := by
  cases op <;> rfl

/-- A continuation together with the operator, if it is one. -/
inductive Joint where
  | operator (op : BinaryOp)
  | call
  | index

namespace Joint

def continuation : Joint → Continuation
  | operator _ => .operator
  | call => .call
  | index => .index

/-- The token that announces a continuation. -/
def kind : Joint → Token.Kind
  | operator op => op.kind
  | call => .lparen
  | index => .lbracket

/-- The level of the expression that a continuation completes. -/
def level : Joint → Grammar.Level
  | operator op => op.level
  | call => .applied
  | index => .applied

def precedence (joint : Joint) : Precedence :=
  .ofKind joint.kind

theorem ofKind?_kind (joint : Joint) :
    Continuation.ofKind? joint.kind = some joint.continuation := by
  rcases joint with op | _ | _
  · cases op <;> rfl
  · rfl
  · rfl

/-- Whatever announces an operator stands for one, so a reader never gives up there. -/
theorem exists_of_ofKind? {kind : Token.Kind} {continuation : Continuation}
    (h : Continuation.ofKind? kind = some continuation) :
    ∃ joint : Joint, joint.kind = kind ∧ joint.continuation = continuation := by
  rw [Continuation.ofKind?.eq_def] at h
  split at h <;> cases h
  · exact ⟨.operator .add, rfl, rfl⟩
  · exact ⟨.operator .sub, rfl, rfl⟩
  · exact ⟨.operator .mul, rfl, rfl⟩
  · exact ⟨.operator .div, rfl, rfl⟩
  · exact ⟨.operator .lt, rfl, rfl⟩
  · exact ⟨.operator .gt, rfl, rfl⟩
  · exact ⟨.operator .eq, rfl, rfl⟩
  · exact ⟨.operator .notEq, rfl, rfl⟩
  · exact ⟨.call, rfl, rfl⟩
  · exact ⟨.index, rfl, rfl⟩

theorem eq_of_kind_eq {joint other : Joint} (h : joint.kind = other.kind) : joint = other := by
  have hsame : some joint.continuation = some other.continuation := by
    rw [← joint.ofKind?_kind, ← other.ofKind?_kind, h]
  rcases joint with op | _ | _ <;> rcases other with op' | _ | _ <;> cases hsame
  · have hop : some op = some op' := by
      rw [← op.ofKind?_kind, ← op'.ofKind?_kind]
      exact congrArg _ h
    cases hop
    rfl
  · rfl
  · rfl

theorem kind_ne_eof (joint : Joint) : joint.kind ≠ .eof := by
  rcases joint with op | _ | _
  · cases op <;> decide
  · decide
  · decide

theorem kind_ne_semicolon (joint : Joint) : joint.kind ≠ .semicolon := by
  rcases joint with op | _ | _
  · cases op <;> decide
  · decide
  · decide

end Joint

/-- The level at which an operator continues an expression. -/
def BinaryOp.precedence (op : BinaryOp) : Precedence :=
  .ofKind op.kind

theorem BinaryOp.precedence_rank (op : BinaryOp) : op.precedence.rank = op.level.rank := by
  cases op <;> rfl

theorem BinaryOp.level_rank_le (op : BinaryOp) : op.level.rank ≤ 4 := by
  cases op <;> decide

/-- The floors that rules are called with leave calls and indices above them, so only the levels
of operators decide whether an expression goes on. -/
theorem Joint.lt_precedence_iff {floor : Precedence} (hfloor : floor.rank ≤ 5) (joint : Joint) :
    floor < joint.precedence ↔ floor.rank < joint.level.rank := by
  rcases joint with op | _ | _
  · change floor.rank < op.precedence.rank ↔ _
    rw [op.precedence_rank]
    rfl
  · rfl
  · change floor.rank < 7 ↔ floor.rank < 6
    omega

/-- The level of what is read above a floor. -/
def Precedence.above : Precedence → Grammar.Level
  | lowest => .equality
  | equality => .comparison
  | comparison => .sum
  | sum => .product
  | product => .unary
  | unary => .unary
  | call => .applied
  | index => .atom

theorem Precedence.above_rank_le {floor : Precedence} {rank : Nat} (h : floor.rank < rank) :
    floor.above.rank ≤ rank := by
  cases floor <;> simp only [Precedence.rank, Precedence.above,
    Grammar.Level.rank] at h ⊢ <;> omega

theorem BinaryOp.next?_level (op : BinaryOp) : op.level.next? = some op.precedence.above := by
  cases op <;> rfl

namespace Grammar

@[simp] theorem kindAhead_nil : kindAhead [] = .eof := rfl

@[simp] theorem kindAhead_cons (token : Token) (rest : List Token) :
    kindAhead (token :: rest) = token.kind := rfl

theorem continues_iff {kind : Token.Kind} :
    Continues kind ↔ ∃ joint : Joint, kind = joint.kind := by
  constructor
  · rintro (⟨op, rfl⟩ | rfl | rfl)
    · exact ⟨.operator op, rfl⟩
    · exact ⟨.call, rfl⟩
    · exact ⟨.index, rfl⟩
  · rintro ⟨op | _ | _, rfl⟩
    · exact .inl ⟨op, rfl⟩
    · exact .inr (.inl rfl)
    · exact .inr (.inr rfl)

/-- A token that continues no expression of a level above `bound`. -/
def Bounded (bound : Nat) (kind : Token.Kind) : Prop :=
  ∀ joint : Joint, kind = joint.kind → joint.level.rank ≤ bound

theorem Bounded.mono {b c : Nat} {kind : Token.Kind} (h : Bounded b kind) (hbc : b ≤ c) :
    Bounded c kind :=
  fun joint hkind => Nat.le_trans (h joint hkind) hbc

theorem bounded_six (kind : Token.Kind) : Bounded 6 kind := by
  rintro (op | _ | _) -
  · exact Nat.le_trans op.level_rank_le (by decide)
  · decide
  · decide

theorem not_continues_iff_bounded {kind : Token.Kind} : ¬ Continues kind ↔ Bounded 0 kind := by
  rw [continues_iff]
  constructor
  · intro h joint hkind
    exact (h ⟨joint, hkind⟩).elim
  · rintro h ⟨joint, hkind⟩
    have hrank := h joint hkind
    rcases joint with op | _ | _
    · cases op <;> contradiction
    · contradiction
    · contradiction

theorem Level.rank_of_next? {level tighter : Level} (h : level.next? = some tighter) :
    tighter.rank = level.rank + 1 := by
  cases level <;> cases h <;> rfl

theorem Level.eq_of_rank {level level' : Level} (h : level.rank = level'.rank) :
    level = level' := by
  cases level <;> cases level' <;> first | rfl | cases h

theorem Level.exists_next? (level : Level) (h : level.rank < 7) :
    ∃ tighter, level.next? = some tighter := by
  cases level <;> first | exact ⟨_, rfl⟩ | exact absurd h (by decide)

/-- What can be read at a level can be read at every looser one. -/
theorem Reads.loosen {level looser : Level} {e : Expr} {tokens rest : List Token}
    (h : Reads (.level level e) tokens rest) (hrank : looser.rank ≤ level.rank) :
    Reads (.level looser e) tokens rest := by
  obtain ⟨gap, hgap⟩ := Nat.exists_eq_add_of_le hrank
  induction gap generalizing looser with
  | zero =>
      have hsame : level = looser := Level.eq_of_rank hgap
      rwa [← hsame]
  | succ gap ih =>
      have hlevel : level.rank ≤ 7 := by cases level <;> decide
      obtain ⟨tighter, htighter⟩ := Level.exists_next? looser (by omega)
      have hnext := Level.rank_of_next? htighter
      exact .looser htighter (ih (by omega) (by omega))

/-- The tokens that can begin an expression. -/
def starters : List Token.Kind :=
  [.ident, .int, .string, .trueWord, .falseWord, .bang, .minus, .lparen, .ifWord, .fnWord,
    .lbracket, .lbrace]

/-- What is known of the first token of a phrase. -/
def BeginsWell : Phrase → List Token → Prop
  | .level _ _, tokens => kindAhead tokens ∈ starters
  | .expression _, tokens => kindAhead tokens ∈ starters
  | .statement _, tokens => kindAhead tokens ∈ .letWord :: .returnWord :: starters
  | .moreItems close _, tokens => kindAhead tokens = close ∨ kindAhead tokens = .comma
  | .morePairs _, tokens => kindAhead tokens = .rbrace ∨ kindAhead tokens = .comma
  | .block _, tokens => kindAhead tokens = .lbrace
  | _, _ => True

theorem Reads.begins {phrase : Phrase} {tokens rest : List Token} (h : Reads phrase tokens rest) :
    BeginsWell phrase tokens := by
  induction h with
  | looser _ _ ih => exact ih
  | binary _ _ _ ih _ => exact ih
  | @unary op => cases op <;> simp [BeginsWell, starters, UnaryOp.kind]
  | call _ _ ih _ => exact ih
  | index _ _ ih _ => exact ih
  | expression _ _ ih => exact ih
  | expr _ _ ih => exact List.mem_cons_of_mem _ (List.mem_cons_of_mem _ ih)
  | bind | ret | bareReturn | noMoreItems | moreItems | noMorePairs | morePairs | closed
    | unclosed =>
      simp [BeginsWell]
  | ident | int | string | trueWord | falseWord | group | cond | condElse | fn | array | hash =>
      simp [BeginsWell, starters]
  | _ => trivial

end Grammar

end ScriptLang
