import ScriptLang.Proofs.Grammar.Levels
import ScriptLang.Proofs.Parser.Replies

namespace ScriptLang.Parser

open ScriptLang.Text

section

variable {n : Nat} {s : State} {motive : Reply Expr → Prop}

/-- The second branch of a conditional, behind the first. -/
def otherwise (n : Nat) (condition : Expr) (yes : Block) : Parser Expr := do
  let next ← peekKind
  if next = .elseWord then do
    advance
    expect .lbrace
    let no ← block n
    pure (.cond condition yes (some no))
  else
    pure (.cond condition yes none)

theorem operand_elim
    (ident : s.current.kind = .ident → motive (.done (.ident s.current.literal) s))
    (int : s.current.kind = .int → Decimal.value s.current.literal ≤ Decimal.largest →
      motive (.done (.int (Int64.ofNat (Decimal.value s.current.literal))) s))
    (tooLarge : s.current.kind = .int → Decimal.largest < Decimal.value s.current.literal →
      motive (.failed (s.record (.tooLarge s.current.literal))))
    (string : s.current.kind = .string → motive (.done (.string s.current.literal) s))
    (trueWord : s.current.kind = .trueWord → motive (.done (.bool true) s))
    (falseWord : s.current.kind = .falseWord → motive (.done (.bool false) s))
    (unary : ∀ op : UnaryOp, s.current.kind = op.kind →
      motive ((expression n .unary >>= fun right => pure (.unary op right)) s.forward))
    (group : s.current.kind = .lparen →
      motive ((expression n .lowest >>= fun inner => expect .rparen >>= fun _ => pure inner)
        s.forward))
    (cond : s.current.kind = .ifWord →
      motive ((expect .lparen >>= fun _ => advance >>= fun _ => expression n .lowest >>=
        fun condition => expect .rparen >>= fun _ => expect .lbrace >>= fun _ => block n >>=
        fun yes => otherwise n condition yes) s))
    (fn : s.current.kind = .fnWord →
      motive ((expect .lparen >>= fun _ => parameters n >>= fun params => expect .lbrace >>=
        fun _ => block n >>= fun body => pure (.fn () params body)) s))
    (array : s.current.kind = .lbracket →
      motive ((items n .rbracket >>= fun elements => pure (.array elements)) s))
    (hash : s.current.kind = .lbrace →
      motive ((pairs n >>= fun entries => leaveHash >>= fun _ => pure (.hash entries))
        { s with openHashes := s.openHashes + 1 }))
    (other : s.current.kind ∉ Grammar.starters →
      motive (.failed (s.record (.noExpression s.current.kind)))) :
    motive (operand (n + 1) s) := by
  rw [operand, current_bind_apply]
  cases hkind : s.current.kind
  case ident => exact ident hkind
  case int =>
      dsimp only
      rw [Decimal.read?]
      by_cases hvalue : Decimal.value s.current.literal ≤ Decimal.largest
      · rw [if_pos hvalue]
        exact int hkind hvalue
      · rw [if_neg hvalue]
        exact tooLarge hkind (Nat.lt_of_not_le hvalue)
  case string => exact string hkind
  case trueWord => exact trueWord hkind
  case falseWord => exact falseWord hkind
  case bang => exact unary .not hkind
  case minus => exact unary .negate hkind
  case lparen => exact group hkind
  case ifWord => exact cond hkind
  case fnWord => exact fn hkind
  case lbracket => exact array hkind
  case lbrace => exact hash hkind
  all_goals
    rw [hkind] at other
    exact other (by decide)

theorem continued_elim {floor : Precedence} {left : Expr}
    (stop : (∀ joint : Joint, s.peek.kind = joint.kind → ¬ floor < joint.precedence) →
      motive (.done left s))
    (goOn : ∀ joint : Joint, s.peek.kind = joint.kind → floor < joint.precedence →
      motive ((continuedOnce n left joint.continuation >>= fun larger =>
        continued n floor larger) s.forward)) :
    motive (continued (n + 1) floor left s) := by
  rw [continued, peekKind_bind_apply]
  split
  · rename_i hbinds
    cases hnext : Continuation.ofKind? s.peek.kind with
    | none =>
        refine stop fun joint hkind => ?_
        rw [hkind, joint.ofKind?_kind] at hnext
        cases hnext
    | some continuation =>
        obtain ⟨joint, hkind, rfl⟩ := Joint.exists_of_ofKind? hnext
        refine goOn joint hkind.symm ?_
        rw [Joint.precedence, hkind]
        exact hbinds.2
  · rename_i hends
    refine stop fun joint hkind hlt => hends ?_
    rw [hkind]
    exact ⟨joint.kind_ne_semicolon, hlt⟩

theorem continuedOnce_elim {left : Expr} {joint : Joint} (hkind : s.current.kind = joint.kind)
    (operator : ∀ op, joint = .operator op →
      motive ((expression n op.precedence >>= fun right =>
        pure (.binary left op right)) s.forward))
    (call : joint = .call → motive ((items n .rparen >>= fun args => pure (.call left args)) s))
    (index : joint = .index →
      motive ((expression n .lowest >>= fun position => expect .rbracket >>= fun _ =>
        pure (.index left position)) s.forward)) :
    motive (continuedOnce (n + 1) left joint.continuation s) := by
  cases joint with
  | operator op =>
      rw [Joint.continuation, continuedOnce, current_bind_apply, hkind, Joint.kind,
        op.ofKind?_kind]
      exact operator op rfl
  | call => exact call rfl
  | index => exact index rfl

end

theorem statement_elim {n : Nat} {s : State} {motive : Reply Stmt → Prop}
    (bind : s.current.kind = .letWord →
      motive ((expect .ident >>= fun _ => current >>= fun name => expect .assign >>= fun _ =>
        advance >>= fun _ => expression n .lowest >>= fun value => skipSemicolon >>= fun _ =>
        pure (.bind name.literal value)) s))
    (bareReturn : s.current.kind = .returnWord →
      s.peek.kind = .semicolon ∨ s.peek.kind = .rbrace ∨ s.peek.kind = .eof →
      motive ((skipSemicolon >>= fun _ => pure (.ret none)) s))
    (ret : s.current.kind = .returnWord →
      ¬ (s.peek.kind = .semicolon ∨ s.peek.kind = .rbrace ∨ s.peek.kind = .eof) →
      motive ((expression n .lowest >>= fun value => skipSemicolon >>= fun _ =>
        pure (.ret (some value))) s.forward))
    (expr : s.current.kind ≠ .letWord → s.current.kind ≠ .returnWord →
      motive ((expression n .lowest >>= fun value => skipSemicolon >>= fun _ =>
        pure (.expr value)) s)) :
    motive (statement (n + 1) s) := by
  rw [statement, current_bind_apply]
  cases hkind : s.current.kind
  case letWord => exact bind hkind
  case returnWord =>
      dsimp only
      rw [peekKind_bind_apply]
      split
      · rename_i hnext
        exact bareReturn hkind hnext
      · rename_i hnext
        exact ret hkind hnext
  all_goals
    rw [hkind] at expr
    exact expr (by decide) (by decide)

end ScriptLang.Parser
