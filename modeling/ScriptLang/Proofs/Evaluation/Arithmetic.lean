import Mathlib.Data.Int.ModEq
import ScriptLang.Proofs.Evaluation.Rules

namespace ScriptLang

open ScriptLang.Text

/-- The integer that a tree of literals, negations, sums, differences and products stands for. -/
inductive Expr.Denotes : Expr Label → Int → Prop where
  | int (n : Int64) : Denotes (.int n) n.toInt
  | negate {e x} (h : Denotes e x) : Denotes (.unary .negate e) (-x)
  | add {l r x y} (hl : Denotes l x) (hr : Denotes r y) : Denotes (.binary l .add r) (x + y)
  | sub {l r x y} (hl : Denotes l x) (hr : Denotes r y) : Denotes (.binary l .sub r) (x - y)
  | mul {l r x y} (hl : Denotes l x) (hr : Denotes r y) : Denotes (.binary l .mul r) (x * y)

theorem toInt_ofInt_modEq (x : Int) : (Int64.ofInt x).toInt ≡ x [ZMOD 2 ^ 64] := by
  rw [Int64.toInt_ofInt]
  exact Int.bmod_emod

theorem toInt_quotient (m n : Int64) : (m / n).toInt =
    if m = Int64.minValue ∧ n = -1 then Int64.minValue.toInt else m.toInt.tdiv n.toInt := by
  split
  · rename_i h
    rw [h.1, h.2, Int64.minValue_div_neg_one]
  · rename_i h
    rcases not_and_or.mp h with hm | hn
    · exact Int64.toInt_div_of_ne_left m n hm
    · exact Int64.toInt_div_of_ne_right m n hn

section Evaluation

variable {call : Caller} {frame : FrameId} {store : Store}
  {e l r : Expr Label} {m n : Int64} {x : Int}

theorem Expr.evalWith_negate_integer
    (h : e.evalWith call frame store = .done (.integer n) store) :
    (Expr.unary .negate e).evalWith call frame store = .done (.integer (-n)) store := by
  rw [Expr.evalWith, h, Run.andThen_of_plain rfl]
  rfl

theorem Expr.evalWith_binary_integers (op : BinaryOp)
    (hl : l.evalWith call frame store = .done (.integer m) store)
    (hr : r.evalWith call frame store = .done (.integer n) store) :
    (Expr.binary l op r).evalWith call frame store = .done (op.onIntegers m n) store := by
  rw [Expr.evalWith_binary_of_done op hl rfl hr rfl]
  rfl

/-- A tree evaluates to the word of the integer that it stands for, and leaves the store alone. -/
theorem Expr.Denotes.evalWith_eq (h : e.Denotes x) :
    e.evalWith call frame store = .done (.integer (Int64.ofInt x)) store := by
  induction h with
  | int n => rw [Int64.ofInt_toInt, Expr.evalWith_int]
  | negate _ ih => rw [Int64.ofInt_neg, Expr.evalWith_negate_integer ih]
  | add _ _ ihl ihr =>
      rw [Int64.ofInt_add, Expr.evalWith_binary_integers .add ihl ihr]
      rfl
  | sub _ _ ihl ihr =>
      rw [Int64.ofInt_sub, Expr.evalWith_binary_integers .sub ihl ihr]
      rfl
  | mul _ _ ihl ihr =>
      rw [Int64.ofInt_mul, Expr.evalWith_binary_integers .mul ihl ihr]
      rfl

theorem BinaryOp.onIntegers_div_of_ne (h : n ≠ 0) :
    BinaryOp.div.onIntegers m n = .integer (m / n) := by
  rw [BinaryOp.onIntegers, if_neg h]

theorem BinaryOp.onIntegers_div_eq_fault_iff :
    BinaryOp.div.onIntegers m n = (Fault.divisionByZero m).signal ↔ n = 0 := by
  constructor
  · intro h
    by_contra hn
    rw [onIntegers_div_of_ne hn] at h
    cases h
  · rintro rfl
    rfl

end Evaluation

/-- Arithmetic is exact modulo `2 ^ 64`.  Every tree of literals, negations, sums, differences and
products evaluates to a word that is congruent to its true value, in any frame and with the store
left alone.  The quotient of two such trees is an error exactly if the second is zero.  Otherwise
it is the quotient of the two words without its fraction, save that the smallest integer divided
by minus one is the smallest integer again. -/
theorem arithmetic_is_exact_modulo_word (depth : Nat) (frame : FrameId) (store : Store) :
    (∀ (e : Expr Label) (x : Int), e.Denotes x → ∃ n : Int64,
      e.eval depth frame store = .done (.integer n) store ∧
      -2 ^ 63 ≤ n.toInt ∧ n.toInt < 2 ^ 63 ∧ n.toInt ≡ x [ZMOD 2 ^ 64]) ∧
    ∀ (l r : Expr Label) (x y : Int), l.Denotes x → r.Denotes y → ∃ m n : Int64,
      l.eval depth frame store = .done (.integer m) store ∧
      r.eval depth frame store = .done (.integer n) store ∧
      ((Expr.binary l .div r).eval depth frame store =
        .done (.error ("division by zero: " ++ Decimal.ofInt64 m ++ " / 0")) store ↔ n = 0) ∧
      (n ≠ 0 → ∃ q : Int64, (Expr.binary l .div r).eval depth frame store =
        .done (.integer q) store ∧
        q.toInt = if m = Int64.minValue ∧ n = -1 then Int64.minValue.toInt
          else m.toInt.tdiv n.toInt) := by
  constructor
  · intro e x h
    exact ⟨_, h.evalWith_eq, Int64.le_toInt _, Int64.toInt_lt _, toInt_ofInt_modEq x⟩
  · intro l r x y hl hr
    refine ⟨_, _, hl.evalWith_eq, hr.evalWith_eq, ?_⟩
    have hdiv : (Expr.binary l .div r).eval depth frame store =
        .done (BinaryOp.div.onIntegers (Int64.ofInt x) (Int64.ofInt y)) store :=
      Expr.evalWith_binary_integers .div hl.evalWith_eq hr.evalWith_eq
    rw [hdiv]
    constructor
    · rw [Run.done.injEq, and_iff_left rfl]
      exact BinaryOp.onIntegers_div_eq_fault_iff
    · intro hy
      rw [BinaryOp.onIntegers_div_of_ne hy]
      exact ⟨_, rfl, toInt_quotient _ _⟩

/-- The negation of the smallest integer wraps around, and so does the square of the largest.
Divided by minus one, the smallest integer stays what it is. -/
theorem arithmetic_is_exact_past_extremes :
    let smallest : Expr Label := .int Int64.minValue
    let square : Expr Label := .binary (.int Int64.maxValue) .mul (.int Int64.maxValue)
    let e : Expr Label := .binary square .sub (.unary .negate smallest)
    e.Denotes ((2 ^ 63 - 1) * (2 ^ 63 - 1) - -(-2 ^ 63)) ∧
    (∃ n : Int64,
      e.eval 0 Session.start.frame Session.start.store = .done (.integer n) Session.start.store ∧
      -2 ^ 63 ≤ n.toInt ∧ n.toInt < 2 ^ 63 ∧
      n.toInt ≡ (2 ^ 63 - 1) * (2 ^ 63 - 1) - -(-2 ^ 63) [ZMOD 2 ^ 64]) ∧
    ∃ q : Int64, (Expr.binary smallest .div (.unary .negate (.int 1))).eval 0 Session.start.frame
      Session.start.store = .done (.integer q) Session.start.store ∧ q = Int64.minValue := by
  intro smallest square e
  have hsmallest : smallest.Denotes (-2 ^ 63) := .int Int64.minValue
  have hlargest : (Expr.int Int64.maxValue).Denotes (2 ^ 63 - 1) := .int Int64.maxValue
  have hone : (Expr.int 1).Denotes 1 := .int 1
  have he : e.Denotes ((2 ^ 63 - 1) * (2 ^ 63 - 1) - -(-2 ^ 63)) :=
    .sub (.mul hlargest hlargest) (.negate hsmallest)
  obtain ⟨hexact, hdiv⟩ :=
    arithmetic_is_exact_modulo_word 0 Session.start.frame Session.start.store
  refine ⟨he, hexact e _ he, ?_⟩
  obtain ⟨m, n, hm, hn, -, hquotient⟩ := hdiv smallest _ _ _ hsmallest (.negate hone)
  cases hm
  cases hn
  obtain ⟨q, hq, hvalue⟩ := hquotient (by decide)
  rw [if_pos (by decide)] at hvalue
  exact ⟨q, hq, Int64.toInt_inj.mp hvalue⟩

end ScriptLang
