import ScriptLang.Proofs.Parser.Cases
import ScriptLang.Proofs.Parser.Soundness

/-!
Braces, and how far a rule gets among them.

`nesting` counts how many braces are open behind some tokens.  A rule that moves from `here` to
`there` passes over tokens in which every brace has its partner, up to two exceptions that its
states account for.  A rule that failed may have opened hashes.  And a rule that found a closing
brace where an expression was due has that brace behind it, without ever having met the opening
one.
-/

namespace ScriptLang

/-- The number of open braces behind a token, if there was one to close. -/
def Token.nest : Nat → Token.Kind → Option Nat
  | 0, .rbrace => none
  | depth + 1, .rbrace => some depth
  | depth, .lbrace => some (depth + 1)
  | depth, _ => some depth

/-- The number of open braces behind a list of tokens.  There is none if a closing brace has no
partner. -/
def Token.nesting (depth : Nat) : List Token → Option Nat
  | [] => some depth
  | token :: rest => (Token.nest depth token.kind).bind fun depth => Token.nesting depth rest

/-- Every brace has its partner. -/
def Token.Balanced (tokens : List Token) : Prop :=
  Token.nesting 0 tokens = some 0

namespace Token

def Kind.Plain (kind : Kind) : Prop :=
  kind ≠ .lbrace ∧ kind ≠ .rbrace

instance (kind : Kind) : Decidable kind.Plain :=
  inferInstanceAs (Decidable (kind ≠ .lbrace ∧ kind ≠ .rbrace))

theorem nest_plain {kind : Kind} (h : kind.Plain) (depth : Nat) :
    nest depth kind = some depth := by
  obtain ⟨hopen, hclose⟩ := h
  cases depth <;> cases kind <;> first | rfl | contradiction

@[simp] theorem nest_lbrace (depth : Nat) : nest depth .lbrace = some (depth + 1) := by
  cases depth <;> rfl

@[simp] theorem nest_rbrace_zero : nest 0 .rbrace = none := rfl

@[simp] theorem nest_rbrace_succ (depth : Nat) : nest (depth + 1) .rbrace = some depth := rfl

theorem nest_add {depth after : Nat} {kind : Kind}
    (h : nest depth kind = some after) (more : Nat) :
    nest (depth + more) kind = some (after + more) := by
  by_cases hopen : kind = .lbrace
  · subst hopen
    rw [nest_lbrace, Option.some.injEq] at h
    rw [nest_lbrace, ← h, Nat.add_right_comm]
  · by_cases hclose : kind = .rbrace
    · subst hclose
      cases depth with
      | zero => cases h
      | succ depth =>
          rw [nest_rbrace_succ, Option.some.injEq] at h
          rw [Nat.add_right_comm, nest_rbrace_succ, h]
    · rw [nest_plain ⟨hopen, hclose⟩, Option.some.injEq] at h
      rw [nest_plain ⟨hopen, hclose⟩, h]

theorem nesting_cons (depth : Nat) (token : Token) (rest : List Token) :
    nesting depth (token :: rest) =
      (nest depth token.kind).bind fun depth => nesting depth rest := rfl

theorem nesting_append (depth : Nat) (xs ys : List Token) :
    nesting depth (xs ++ ys) = (nesting depth xs).bind fun depth => nesting depth ys := by
  induction xs generalizing depth with
  | nil => rfl
  | cons token xs ih =>
      rw [List.cons_append, nesting_cons, nesting_cons]
      cases nest depth token.kind with
      | none => rfl
      | some after => exact ih after

theorem nesting_add {depth after : Nat} {tokens : List Token}
    (h : nesting depth tokens = some after) (more : Nat) :
    nesting (depth + more) tokens = some (after + more) := by
  induction tokens generalizing depth with
  | nil =>
      cases h
      rfl
  | cons token rest ih =>
      rw [nesting_cons] at h ⊢
      obtain ⟨next, hnext, hrest⟩ := Option.bind_eq_some_iff.mp h
      rw [nest_add hnext]
      exact ih hrest

/-- Where more braces are closed than are open, there is a first one too many. -/
theorem exists_partner {j depth after : Nat} {tokens : List Token}
    (h : nesting (j + (depth + 1)) tokens = some after) (hafter : after ≤ depth) :
    ∃ inside close behind, tokens = inside ++ close :: behind ∧ nesting j inside = some 0 ∧
      close.kind = .rbrace := by
  induction tokens generalizing j with
  | nil =>
      cases h
      omega
  | cons token rest ih =>
      rw [nesting_cons] at h
      by_cases hopen : token.kind = .lbrace
      · rw [hopen, nest_lbrace, Option.bind_some, Nat.add_right_comm] at h
        obtain ⟨inside, close, behind, rfl, hinside, hclose⟩ := ih h
        refine ⟨token :: inside, close, behind, rfl, ?_, hclose⟩
        rw [nesting_cons, hopen, nest_lbrace]
        exact hinside
      · by_cases hclose : token.kind = .rbrace
        · cases j with
          | zero => exact ⟨[], token, rest, rfl, rfl, hclose⟩
          | succ j =>
              rw [hclose, Nat.add_right_comm, nest_rbrace_succ, Option.bind_some] at h
              obtain ⟨inside, close, behind, rfl, hinside, hlast⟩ := ih h
              refine ⟨token :: inside, close, behind, rfl, ?_, hlast⟩
              rw [nesting_cons, hclose, nest_rbrace_succ]
              exact hinside
        · rw [nest_plain ⟨hopen, hclose⟩, Option.bind_some] at h
          obtain ⟨inside, close, behind, rfl, hinside, hlast⟩ := ih h
          refine ⟨token :: inside, close, behind, rfl, ?_, hlast⟩
          rw [nesting_cons, nest_plain ⟨hopen, hclose⟩]
          exact hinside

end Token

theorem Joint.kind_plain (joint : Joint) : joint.kind.Plain := by
  rcases joint with op | _ | _
  · cases op <;> decide
  · decide
  · decide

namespace Parser

open Grammar
open Token (nest nesting nesting_append nesting_add nesting_cons)

/-- Tokens are passed over that leave `k` braces open, if `b` of those that are closed there were
opened before.  At the end of input more may be open. -/
def Passed (b k : Nat) (here there : List Token) : Prop :=
  ∃ passed after, here = passed ++ there ∧ nesting b passed = some after ∧ k ≤ after ∧
    (after = k ∨ there = [])

namespace Passed

theorem refl (tokens : List Token) : Passed 0 0 tokens tokens :=
  ⟨[], 0, rfl, rfl, Nat.le_refl _, .inl rfl⟩

theorem suffix {b k : Nat} {here there : List Token} (h : Passed b k here there) :
    there <:+ here := by
  obtain ⟨passed, _, rfl, _⟩ := h
  exact List.suffix_append passed there

theorem trans {b b' k k' : Nat} {here mid there : List Token} (h : Passed b k here mid)
    (h' : Passed b' k' mid there) : Passed (b + b') (k + k') here there := by
  obtain ⟨xs, m, rfl, hxs, hk, hm⟩ := h
  obtain ⟨ys, m', rfl, hys, hk', hm'⟩ := h'
  refine ⟨xs ++ ys, m' + m, by rw [List.append_assoc], ?_, by omega, ?_⟩
  · rw [nesting_append, nesting_add hxs, Option.bind_some, Nat.add_comm m b']
    exact nesting_add hys m
  · rcases hm' with rfl | hend
    · rcases hm with rfl | hmid
      · exact .inl (Nat.add_comm _ _)
      · exact .inr (List.append_eq_nil_iff.mp hmid).2
    · exact .inr hend

theorem plain {tokens : List Token} (h : (kindAhead tokens).Plain) :
    Passed 0 0 tokens tokens.tail := by
  cases tokens with
  | nil => exact refl []
  | cons token rest =>
      rw [kindAhead_cons] at h
      refine ⟨[token], 0, rfl, ?_, Nat.le_refl _, .inl rfl⟩
      rw [nesting_cons, Token.nest_plain h]
      rfl

theorem stray {token : Token} (h : token.kind = .rbrace) (rest : List Token) :
    Passed 1 0 (token :: rest) rest := by
  refine ⟨[token], 0, rfl, ?_, Nat.le_refl _, .inl rfl⟩
  rw [nesting_cons, h]
  rfl

theorem opened {token : Token} (h : token.kind = .lbrace) (rest : List Token) :
    Passed 0 1 (token :: rest) rest := by
  refine ⟨[token], 1, rfl, ?_, Nat.le_refl _, .inl rfl⟩
  rw [nesting_cons, h]
  rfl

/-- A pair of braces around what is passed.  At the end of input the second one may be missing. -/
theorem enclosed {b : Nat} {token : Token} {here there : List Token} (h : Passed b 0 here there)
    (hopen : token.kind = .lbrace) (hclose : there = [] ∨ kindAhead there = .rbrace) :
    Passed b 0 (token :: here) there.tail := by
  obtain ⟨xs, m, rfl, hxs, -, hm⟩ := h
  have hopened : nesting b (token :: xs) = some (m + 1) := by
    rw [nesting_cons, hopen, Token.nest_lbrace]
    exact nesting_add hxs 1
  cases there with
  | nil => exact ⟨token :: xs, m + 1, rfl, hopened, Nat.zero_le _, .inr rfl⟩
  | cons close behind =>
      have hkind : close.kind = .rbrace := hclose.resolve_left (List.cons_ne_nil _ _)
      have hzero : m = 0 := hm.resolve_right (List.cons_ne_nil _ _)
      subst hzero
      refine ⟨token :: xs ++ [close], 0, by simp, ?_, Nat.le_refl _, .inl rfl⟩
      rw [nesting_append, hopened, Option.bind_some, nesting_cons, hkind]
      rfl

end Passed

section Recovery

theorem nest_braceDepth {depth : Nat} {kind : Token.Kind} (h : depth = 0 → kind ≠ .rbrace) :
    nest depth kind = some (braceDepth depth kind) := by
  by_cases hclose : kind = .rbrace
  · subst hclose
    cases depth with
    | zero => exact absurd rfl (h rfl)
    | succ depth => rfl
  · by_cases hopen : kind = .lbrace
    · subst hopen
      exact Token.nest_lbrace depth
    · rw [Token.nest_plain ⟨hopen, hclose⟩]
      cases kind <;> first | rfl | contradiction

/-- In a block the search for the end of a statement passes over whole pairs of braces and closes
those that were open.  The current token has been passed before. -/
theorem passOver_passed (depth : Nat) (tokens : List Token) : ∃ passed after,
    tokens.tail = passed ++ (passOver true depth tokens).tail ∧
      nesting depth passed = some after ∧
        (after = 0 ∨ (passOver true depth tokens).tail = []) := by
  induction tokens generalizing depth with
  | nil => exact ⟨[], depth, rfl, rfl, .inr rfl⟩
  | cons token rest ih =>
      rw [passOver]
      split
      · rename_i hstop
        exact ⟨[], depth, rfl, rfl, .inl hstop.1⟩
      · rename_i hgoes
        cases rest with
        | nil => exact ⟨[], depth, rfl, rfl, .inr rfl⟩
        | cons next behind =>
            obtain ⟨passed, after, hpassed, hnesting, hend⟩ := ih (braceDepth depth next.kind)
            refine ⟨next :: passed, after, ?_, ?_, hend⟩
            · rw [List.tail_cons, List.cons_append]
              exact congrArg (next :: ·) hpassed
            · rw [nesting_cons, nest_braceDepth]
              · exact hnesting
              · intro hdepth hclose
                exact hgoes ⟨hdepth, .inr ⟨rfl, hclose⟩⟩

/-- When what is left of a broken statement has been passed over, all that it opened is closed. -/
theorem Passed.resumed {b k : Nat} {here tokens : List Token} (h : Passed b k here tokens.tail) :
    Passed b 0 here (passOver true k tokens).tail := by
  obtain ⟨xs, m, hhere, hxs, hk, hm⟩ := h
  obtain ⟨ys, m', htail, hys, hm'⟩ := passOver_passed k tokens
  rw [htail, ← List.append_assoc] at hhere
  refine ⟨xs ++ ys, m' + (m - k), hhere, ?_, Nat.zero_le _, ?_⟩
  · have hmore := nesting_add hys (m - k)
    rw [Nat.add_sub_cancel' hk] at hmore
    rw [nesting_append, hxs, Option.bind_some, hmore]
  · rcases hm with rfl | hend
    · rcases hm' with rfl | hend
      · exact .inl (by omega)
      · exact .inr hend
    · rw [htail] at hend
      exact .inr (List.append_eq_nil_iff.mp hend).2

end Recovery

/-- How often a closing brace stood where an expression was due. -/
def State.strays (s : State) : Nat :=
  s.diagnostics.count (.noExpression .rbrace)

theorem State.strays_record {s : State} {d : Diagnostic} (h : d ≠ .noExpression .rbrace) :
    (s.record d).strays = s.strays := by
  rw [strays, record_diagnostics, List.count_append, List.count_singleton]
  simp [strays, h]

theorem State.strays_record_stray (s : State) :
    (s.record (.noExpression .rbrace)).strays = s.strays + 1 := by
  rw [strays, record_diagnostics, List.count_append, List.count_singleton_self]
  rfl

/-- What is known of a rule that has moved from `here` to `there` and left `k` hashes open. -/
def Reached (k : Nat) (s t : State) (here there : List Token) : Prop :=
  t.openHashes = s.openHashes + k ∧ t.blocks = s.blocks ∧
    (Words here → ∃ b, t.strays = s.strays + b ∧ Passed b k here there)

namespace Reached

variable {s t u : State} {here mid there : List Token}

theorem refl (s : State) (tokens : List Token) : Reached 0 s s tokens tokens :=
  ⟨rfl, rfl, fun _ => ⟨0, rfl, .refl tokens⟩⟩

theorem trans {k k' : Nat} (h : Reached k s t here mid) (h' : Reached k' t u mid there) :
    Reached (k + k') s u here there := by
  obtain ⟨hhashes, hblocks, hpassed⟩ := h
  obtain ⟨hhashes', hblocks', hpassed'⟩ := h'
  refine ⟨by omega, by omega, ?_⟩
  intro hwords
  obtain ⟨b, hstrays, hhere⟩ := hpassed hwords
  obtain ⟨b', hstrays', hmid⟩ := hpassed' (hwords.suffix hhere.suffix)
  exact ⟨b + b', by omega, hhere.trans hmid⟩

theorem plain (s : State) {tokens : List Token} (h : (kindAhead tokens).Plain) :
    Reached 0 s s tokens tokens.tail :=
  ⟨rfl, rfl, fun _ => ⟨0, rfl, .plain h⟩⟩

theorem record {k : Nat} {d : Diagnostic} (h : Reached k s t here there)
    (hd : d ≠ .noExpression .rbrace) : Reached k s (t.record d) here there := by
  obtain ⟨hhashes, hblocks, hpassed⟩ := h
  refine ⟨hhashes, hblocks, ?_⟩
  rw [State.strays_record hd]
  exact hpassed

end Reached

end Parser

end ScriptLang
