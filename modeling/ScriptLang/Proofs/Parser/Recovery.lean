import ScriptLang.Proofs.Parser.Allowance
import ScriptLang.Proofs.Parser.Braces
import ScriptLang.Proofs.Token.Words

namespace ScriptLang.Parser

open Grammar

variable {α β : Type}

/-- A rule begun in `s` in front of `here` has passed whole pairs of braces when it ends.  Only
when it failed there may be hashes open. -/
def Reply.Braced (reply : Reply α) (s : State) (here : List Token) : Prop :=
  reply.Ends (fun _ t => Reached 0 s t here t.ahead.tail)
    fun t => ∃ k, Reached k s t here t.ahead.tail

section Sequences

variable {s t u : State} {here mid : List Token}

theorem Reached.pass {kind : Token.Kind} (h : Reached 0 s t here t.ahead.tail)
    (hkind : t.peek.kind = kind) (hplain : kind.Plain) :
    Reached 0 s t.forward here t.forward.ahead.tail := by
  subst hkind
  exact h.trans (.plain t hplain)

theorem Reached.begin {kind : Token.Kind} (hkind : s.current.kind = kind) (hplain : kind.Plain) :
    Reached 0 s s s.ahead s.ahead.tail := by
  subst hkind
  exact .plain s hplain

theorem Reply.Braced.after {reply : Reply α} (h : reply.Braced t mid)
    (hst : Reached 0 s t here mid) :
    reply.Braced s here := by
  apply Reply.Ends.mono h
  · intro a u hu
    exact hst.trans hu
  · rintro u ⟨k, hu⟩
    exact ⟨0 + k, hst.trans hu⟩

theorem bind_braced {rule : Parser α} {next : α → Parser β} (hrule : (rule t).Braced s here)
    (hnext : ∀ a u, Reached 0 s u here u.ahead.tail → (next a u).Braced s here) :
    ((rule >>= next) t).Braced s here := by
  refine bind_ends hrule ?_ hnext
  intro u hu
  exact hu

theorem expect_bind_braced {kind : Token.Kind} {next : Unit → Parser β}
    (h : Reached 0 s t here t.ahead.tail)
    (hnext : t.peek.kind = kind → (next () t.forward).Braced s here) :
    ((expect kind >>= next) t).Braced s here := by
  refine expect_bind_ends ?_ hnext
  intro _
  exact ⟨0, h.record Diagnostic.noConfusion⟩

theorem skipSemicolon_bind_braced {a : β} (h : Reached 0 s t here t.ahead.tail) :
    ((skipSemicolon >>= fun _ => (pure a : Parser β)) t).Braced s here := by
  apply skipSemicolon_bind_ends
  · intro hkind
    exact h.pass hkind (by decide)
  · intro _
    exact h

end Sequences

/-- A broken statement in a block leaves nothing open once it is passed over. -/
theorem Reached.resumed {s t : State} {k : Nat} (h : Reached k s t s.ahead t.ahead.tail)
    (hblocks : 0 < s.blocks) : Reached 0 s (s.resumed t) s.ahead (s.resumed t).ahead.tail := by
  obtain ⟨hhashes, hsame, hpassed⟩ := h
  refine ⟨rfl, hsame, ?_⟩
  intro hwords
  obtain ⟨b, hstrays, hhere⟩ := hpassed hwords
  have hahead : (s.resumed t).ahead = passOver true k t.ahead := by
    rw [State.resumed, hsame, hhashes, Nat.add_sub_cancel_left, decide_eq_true hblocks]
  refine ⟨b, hstrays, ?_⟩
  rw [hahead]
  exact hhere.resumed

theorem moreParameters_braced (n : Nat) (s : State) :
    (moreParameters n s).Braced s s.ahead.tail := by
  induction n generalizing s with
  | zero => trivial
  | succ n ih =>
      have hstart := Reached.refl s s.ahead.tail
      rw [moreParameters, peekKind_bind_apply]
      split
      · rename_i hcomma
        rw [advance_bind_apply]
        have hbehind := hstart.pass hcomma (by decide)
        refine expect_bind_braced hbehind ?_
        intro hname
        rw [current_bind_apply]
        refine bind_braced ((ih s.forward.forward).after (hbehind.pass hname (by decide))) ?_
        intro names t ht
        exact ht
      · refine expect_bind_braced hstart ?_
        intro hclose
        exact hstart.pass hclose (by decide)

theorem parameters_braced (n : Nat) (s : State) : (parameters n s).Braced s s.ahead.tail := by
  have hstart := Reached.refl s s.ahead.tail
  rw [parameters, peekKind_bind_apply]
  split
  · rename_i hclose
    exact hstart.pass hclose (by decide)
  · refine expect_bind_braced hstart ?_
    intro hname
    rw [current_bind_apply]
    have hfirst := hstart.pass hname (by decide)
    refine bind_braced ((moreParameters_braced n s.forward).after hfirst) ?_
    intro names t ht
    exact ht

/-- What each rule passes over.  Rules begin in front of the current token or behind it. -/
structure Braces (n : Nat) : Prop where
  expression : ∀ floor s, (expression n floor s).Braced s s.ahead
  operand : ∀ s, (operand n s).Braced s s.ahead
  continued : ∀ floor left s, (continued n floor left s).Braced s s.ahead.tail
  continuedOnce : ∀ left {joint : Joint} {s}, s.current.kind = joint.kind →
    (continuedOnce n left joint.continuation s).Braced s s.ahead.tail
  items : ∀ close s, close.Plain → (items n close s).Braced s s.ahead.tail
  moreItems : ∀ s, (moreItems n s).Braced s s.ahead.tail
  pairs : ∀ s, (pairs n s).Ends
    (fun _ t => t.current.kind = .rbrace ∧ Reached 0 s t s.ahead.tail t.ahead)
    fun t => ∃ k, Reached k s t s.ahead.tail t.ahead.tail
  block : ∀ s, s.current.kind = .lbrace → (block n s).Braced s s.ahead
  statements : ∀ s, 0 < s.blocks → (statements n true s).Ends
    (fun _ t => Reached 0 s t s.ahead t.ahead ∧
      (t.current.kind = .eof ∨ t.current.kind = .rbrace)) fun _ => False
  statement : ∀ s, (statement n s).Braced s s.ahead

namespace Braces

variable {n : Nat}

theorem otherwise_braced (ih : Braces n) {s t : State} {here : List Token}
    (h : Reached 0 s t here t.ahead.tail) (condition : Expr) (yes : Block) :
    (otherwise n condition yes t).Braced s here := by
  rw [otherwise, peekKind_bind_apply]
  split
  · rename_i helse
    rw [advance_bind_apply]
    have hbehind := h.pass helse (by decide)
    refine expect_bind_braced hbehind ?_
    intro hbrace
    refine bind_braced ((ih.block t.forward.forward hbrace).after hbehind) ?_
    intro no u hu
    exact hu
  · exact h

theorem reject_braced (s : State) (hcurrent : s.current.kind ∉ starters) :
    ∃ k, Reached k s (s.record (.noExpression s.current.kind)) s.ahead s.ahead.tail := by
  by_cases hclose : s.current.kind = .rbrace
  · refine ⟨0, rfl, rfl, fun _ => ⟨1, ?_, ?_⟩⟩
    · rw [hclose]
      exact s.strays_record_stray
    · rw [State.ahead_eq_of_current hclose (by decide)]
      exact .stray rfl _
  · have hopen : s.current.kind ≠ .lbrace := by
      intro heq
      rw [heq] at hcurrent
      exact hcurrent (by decide)
    refine ⟨0, (Reached.plain s ⟨hopen, hclose⟩).record ?_⟩
    intro heq
    exact hclose (Diagnostic.noExpression.inj heq)

/-- A hash that is read to its end has both its braces behind it.  One that is not is still
open. -/
theorem hash_braced (ih : Braces n) {s : State} (hopen : s.current.kind = .lbrace) :
    ((Parser.pairs n >>= fun entries => leaveHash >>= fun _ =>
      (pure (.hash entries) : Parser Expr))
      { s with openHashes := s.openHashes + 1 }).Braced s s.ahead := by
  have hahead := State.ahead_eq_of_current hopen (by decide)
  refine bind_ends (ih.pairs _) ?_ ?_
  · rintro t ⟨k, hhashes, hblocks, hpassed⟩
    refine ⟨1 + k, hhashes.trans (Nat.add_assoc _ _ _), hblocks, ?_⟩
    intro hwords
    obtain ⟨b, hstrays, hinside⟩ := hpassed hwords.tail
    rw [← Nat.zero_add b] at hstrays
    refine ⟨0 + b, hstrays, ?_⟩
    rw [hahead]
    exact (Passed.opened rfl _).trans hinside
  · rintro entries t ⟨hclose, hhashes, hblocks, hpassed⟩
    have hclosed : t.openHashes - 1 = s.openHashes := by rw [hhashes]; rfl
    refine ⟨hclosed, hblocks, ?_⟩
    intro hwords
    obtain ⟨b, hstrays, hinside⟩ := hpassed hwords.tail
    refine ⟨b, hstrays, ?_⟩
    rw [hahead]
    exact hinside.enclosed rfl (.inr hclose)

theorem operand_succ (ih : Braces n) (s : State) :
    (Parser.operand (n + 1) s).Braced s s.ahead := by
  apply operand_elim (motive := fun reply => reply.Braced s s.ahead)
  case ident => exact fun hkind => Reached.begin hkind (by decide)
  case int => exact fun hkind _ => Reached.begin hkind (by decide)
  case tooLarge =>
      intro hkind _
      exact ⟨0, (Reached.begin hkind (by decide)).record Diagnostic.noConfusion⟩
  case string => exact fun hkind => Reached.begin hkind (by decide)
  case trueWord => exact fun hkind => Reached.begin hkind (by decide)
  case falseWord => exact fun hkind => Reached.begin hkind (by decide)
  case unary =>
      intro op hkind
      have hbegin := Reached.begin hkind (by cases op <;> decide)
      refine bind_braced ((ih.expression _ s.forward).after hbegin) ?_
      intro right t ht
      exact ht
  case group =>
      intro hkind
      have hbegin := Reached.begin hkind (by decide)
      refine bind_braced ((ih.expression _ s.forward).after hbegin) ?_
      intro inner t ht
      refine expect_bind_braced ht ?_
      intro hclose
      exact ht.pass hclose (by decide)
  case cond =>
      intro hkind
      have hbegin := Reached.begin hkind (by decide)
      refine expect_bind_braced hbegin ?_
      intro hopen
      rw [advance_bind_apply]
      have hbehind := hbegin.pass hopen (by decide)
      refine bind_braced ((ih.expression _ s.forward.forward).after hbehind) ?_
      intro condition t ht
      refine expect_bind_braced ht ?_
      intro hclose
      have hclosed := ht.pass hclose (by decide)
      refine expect_bind_braced hclosed ?_
      intro hbrace
      refine bind_braced ((ih.block t.forward.forward hbrace).after hclosed) ?_
      intro yes u hu
      exact ih.otherwise_braced hu condition yes
  case fn =>
      intro hkind
      have hbegin := Reached.begin hkind (by decide)
      refine expect_bind_braced hbegin ?_
      intro hopen
      have hbehind := hbegin.pass hopen (by decide)
      refine bind_braced ((parameters_braced n s.forward).after hbehind) ?_
      intro params t ht
      refine expect_bind_braced ht ?_
      intro hbrace
      refine bind_braced ((ih.block t.forward hbrace).after ht) ?_
      intro body u hu
      exact hu
  case array =>
      intro hkind
      have hbegin := Reached.begin hkind (by decide)
      refine bind_braced ((ih.items _ s (by decide)).after hbegin) ?_
      intro elements t ht
      exact ht
  case hash => exact fun hkind => ih.hash_braced hkind
  case other => exact fun hkind => reject_braced s hkind

theorem continued_succ (ih : Braces n) (floor : Precedence) (left : Expr) (s : State) :
    (Parser.continued (n + 1) floor left s).Braced s s.ahead.tail := by
  apply continued_elim (motive := fun reply => reply.Braced s s.ahead.tail)
  case stop => exact fun _ => Reached.refl s s.ahead.tail
  case goOn =>
      intro joint hnext _
      have hbehind := (Reached.refl s s.ahead.tail).pass hnext joint.kind_plain
      refine bind_braced ((ih.continuedOnce left (s := s.forward) hnext).after hbehind) ?_
      intro larger t ht
      exact (ih.continued floor larger t).after ht

theorem continuedOnce_succ (ih : Braces n) (left : Expr) {joint : Joint} {s : State}
    (hkind : s.current.kind = joint.kind) :
    (Parser.continuedOnce (n + 1) left joint.continuation s).Braced s s.ahead.tail := by
  have hstart := Reached.refl s s.ahead.tail
  apply continuedOnce_elim (motive := fun reply => reply.Braced s s.ahead.tail) hkind
  case operator =>
      intro op _
      refine bind_braced ((ih.expression _ s.forward).after hstart) ?_
      intro right t ht
      exact ht
  case call =>
      intro _
      refine bind_braced (ih.items .rparen s (by decide)) ?_
      intro args t ht
      exact ht
  case index =>
      intro _
      refine bind_braced ((ih.expression _ s.forward).after hstart) ?_
      intro position t ht
      refine expect_bind_braced ht ?_
      intro hclose
      exact ht.pass hclose (by decide)

theorem items_succ (ih : Braces n) (close : Token.Kind) (s : State) (hplain : close.Plain) :
    (Parser.items (n + 1) close s).Braced s s.ahead.tail := by
  have hstart := Reached.refl s s.ahead.tail
  rw [Parser.items, peekKind_bind_apply]
  split
  · rename_i hclose
    exact hstart.pass hclose hplain
  · rw [advance_bind_apply]
    refine bind_braced ((ih.expression _ s.forward).after hstart) ?_
    intro first t ht
    refine bind_braced ((ih.moreItems t).after ht) ?_
    intro others u hu
    refine expect_bind_braced hu ?_
    intro hclose
    exact hu.pass hclose hplain

theorem moreItems_succ (ih : Braces n) (s : State) :
    (Parser.moreItems (n + 1) s).Braced s s.ahead.tail := by
  have hstart := Reached.refl s s.ahead.tail
  rw [Parser.moreItems, peekKind_bind_apply]
  split
  · rename_i hcomma
    rw [advance_bind_apply, advance_bind_apply]
    have hbehind := hstart.pass hcomma (by decide)
    refine bind_braced ((ih.expression _ s.forward.forward).after hbehind) ?_
    intro item t ht
    refine bind_braced ((ih.moreItems t).after ht) ?_
    intro others u hu
    exact hu
  · exact hstart

theorem pairs_more (ih : Braces n) {s t : State} {here : List Token} {pair : Expr × Expr}
    (h : Reached 0 s t here t.ahead.tail) :
    ((Parser.pairs n >>= fun others => (pure (pair :: others) : Parser _)) t).Ends
      (fun _ u => u.current.kind = .rbrace ∧ Reached 0 s u here u.ahead)
      fun u => ∃ k, Reached k s u here u.ahead.tail := by
  refine bind_ends (ih.pairs t) ?_ ?_
  · rintro u ⟨k, hu⟩
    exact ⟨0 + k, h.trans hu⟩
  · rintro others u ⟨hclose, hu⟩
    exact ⟨hclose, h.trans hu⟩

theorem pairs_succ (ih : Braces n) (s : State) : (Parser.pairs (n + 1) s).Ends
    (fun _ t => t.current.kind = .rbrace ∧ Reached 0 s t s.ahead.tail t.ahead)
    fun t => ∃ k, Reached k s t s.ahead.tail t.ahead.tail := by
  have hstart := Reached.refl s s.ahead.tail
  rw [Parser.pairs, peekKind_bind_apply]
  split
  · rename_i hclose
    exact ⟨hclose, hstart⟩
  · rw [advance_bind_apply]
    refine bind_ends ((ih.expression _ s.forward).after hstart) (fun _ hfailed => hfailed) ?_
    intro key t ht
    refine expect_bind_ends (fun _ => ⟨0, ht.record Diagnostic.noConfusion⟩) ?_
    intro hcolon
    rw [advance_bind_apply]
    have hbehind := ht.pass hcolon (by decide)
    refine bind_ends ((ih.expression _ t.forward.forward).after hbehind)
      (fun _ hfailed => hfailed) ?_
    intro value u hu
    rw [peekKind_bind_apply]
    split
    · exact ih.pairs_more hu
    · refine expect_bind_ends (fun _ => ⟨0, hu.record Diagnostic.noConfusion⟩) ?_
      intro hcomma
      exact ih.pairs_more (hu.pass hcomma (by decide))

theorem block_succ (ih : Braces n) (s : State) (hopen : s.current.kind = .lbrace) :
    (Parser.block (n + 1) s).Braced s s.ahead := by
  have hahead := State.ahead_eq_of_current hopen (by decide)
  rw [Parser.block, enterBlock_bind_apply, advance_bind_apply]
  refine bind_ends (ih.statements _ (Nat.succ_pos s.blocks)) (fun _ hfailed => hfailed.elim) ?_
  rintro body t ⟨⟨hhashes, hblocks, hpassed⟩, hend⟩
  have hleft : t.blocks - 1 = s.blocks := by rw [hblocks]; rfl
  refine ⟨hhashes, hleft, ?_⟩
  intro hwords
  obtain ⟨b, hstrays, hinside⟩ := hpassed hwords.tail
  refine ⟨b, hstrays, ?_⟩
  rw [hahead]
  exact hinside.enclosed rfl (hend.imp (hwords.tail.suffix hinside.suffix).eq_nil id)

theorem statements_more (ih : Braces n) {s t : State} {first : Option Stmt}
    (hblocks : 0 < s.blocks)
    (h : Reached 0 s t s.ahead t.ahead.tail) :
    ((advance >>= fun _ => Parser.statements n true >>= fun others =>
      (pure (first.toList ++ others) : Parser _)) t).Ends
      (fun _ u => Reached 0 s u s.ahead u.ahead ∧
        (u.current.kind = .eof ∨ u.current.kind = .rbrace)) fun _ => False := by
  rw [advance_bind_apply]
  refine bind_ends (ih.statements t.forward (h.2.1 ▸ hblocks)) (fun _ hfailed => hfailed) ?_
  rintro others u ⟨hu, hend⟩
  exact ⟨h.trans hu, hend⟩

theorem statements_succ (ih : Braces n) (s : State) (hblocks : 0 < s.blocks) :
    (Parser.statements (n + 1) true s).Ends
      (fun _ t => Reached 0 s t s.ahead t.ahead ∧
        (t.current.kind = .eof ∨ t.current.kind = .rbrace)) fun _ => False := by
  rw [Parser.statements, current_bind_apply]
  split
  · rename_i hend
    exact ⟨Reached.refl s s.ahead, hend.imp id And.right⟩
  · refine orPassOver_bind_ends (ih.statement s) ?_ ?_
    · intro st t ht
      exact ih.statements_more hblocks ht
    · rintro t - ⟨k, ht⟩
      exact ih.statements_more hblocks (ht.resumed hblocks)

theorem statement_succ (ih : Braces n) (s : State) :
    (Parser.statement (n + 1) s).Braced s s.ahead := by
  apply statement_elim (motive := fun reply => reply.Braced s s.ahead)
  case bind =>
      intro hkind
      have hbegin := Reached.begin hkind (by decide)
      refine expect_bind_braced hbegin ?_
      intro hname
      rw [current_bind_apply]
      have hnamed := hbegin.pass hname (by decide)
      refine expect_bind_braced hnamed ?_
      intro hassign
      rw [advance_bind_apply]
      have hbehind := hnamed.pass hassign (by decide)
      refine bind_braced ((ih.expression _ s.forward.forward.forward).after hbehind) ?_
      intro value t ht
      exact skipSemicolon_bind_braced ht
  case bareReturn =>
      intro hkind _
      exact skipSemicolon_bind_braced (Reached.begin hkind (by decide))
  case ret =>
      intro hkind _
      have hbegin := Reached.begin hkind (by decide)
      refine bind_braced ((ih.expression _ s.forward).after hbegin) ?_
      intro value t ht
      exact skipSemicolon_bind_braced ht
  case expr =>
      intro _ _
      refine bind_braced (ih.expression _ s) ?_
      intro value t ht
      exact skipSemicolon_bind_braced ht

end Braces

theorem braces (n : Nat) : Braces n := by
  induction n with
  | zero =>
      constructor
      all_goals
        intros
        trivial
  | succ n ih =>
      refine
        { expression := ?_
          operand := ih.operand_succ
          continued := ih.continued_succ
          continuedOnce := ih.continuedOnce_succ
          items := ih.items_succ
          moreItems := ih.moreItems_succ
          pairs := ih.pairs_succ
          block := ih.block_succ
          statements := ih.statements_succ
          statement := ih.statement_succ }
      intro floor s
      refine bind_braced (ih.operand s) ?_
      intro left t ht
      exact (ih.continued floor left t).after ht

/-- What is passed between the braces of a block ends at the second one exactly if no brace had
its partner outside. -/
theorem Passed.eq_partner_iff {b : Nat} {inside behind there : List Token} {close : Token}
    (h : Passed b 0 (inside ++ close :: behind) there) (hinside : Token.Balanced inside)
    (hclose : close.kind = .rbrace) (hend : there = [] ∨ kindAhead there = .rbrace) :
    there = close :: behind ↔ b = 0 := by
  obtain ⟨passed, after, heq, hnesting, -, hafter⟩ := h
  constructor
  · rintro rfl
    rw [← List.append_cancel_right heq] at hnesting
    have hsame := Token.nesting_add hinside b
    rw [Nat.zero_add, hnesting, Option.some.injEq] at hsame
    have hzero := hafter.resolve_right (List.cons_ne_nil _ _)
    omega
  · rintro rfl
    rcases List.append_eq_append_iff.mp heq with ⟨more, rfl, hthere⟩ | ⟨more, rfl, rfl⟩
    · cases more with
      | nil => exact hthere.symm
      | cons first more =>
          rw [List.cons_append, List.cons.injEq] at hthere
          rw [Token.nesting_append, hinside, Option.bind_some, Token.nesting_cons, ← hthere.1,
            hclose]
            at hnesting
          cases hnesting
    · cases more with
      | nil => rfl
      | cons first more =>
          have hzero : after = 0 := hafter.resolve_right (List.cons_ne_nil _ _)
          have hfirst : first.kind = .rbrace := hend.resolve_left (List.cons_ne_nil _ _)
          rw [Token.Balanced, Token.nesting_append, hnesting, hzero, Option.bind_some,
            Token.nesting_cons, hfirst] at hinside
          cases hinside

/-- A block is always read to its end, or what is taken for it. -/
theorem block_passed {n : Nat} {s : State} (hn : 8 * s.ahead.length ≤ n)
    (hopen : s.current.kind = .lbrace) (hwords : Words s.ahead) :
    ∃ body t b, block n s = .done body t ∧ t.strays = s.strays + b ∧
      Passed b 0 s.ahead.tail t.ahead ∧ (t.ahead = [] ∨ kindAhead t.ahead = .rbrace) := by
  have hpos := State.length_pos_of_current hopen (by decide)
  have hforward := State.forward_length s
  obtain ⟨n, rfl⟩ := Nat.exists_eq_add_of_le' (show 1 ≤ n by omega)
  have hends := (braces n).statements { s.forward with blocks := s.blocks + 1 } (Nat.succ_pos _)
  have hwithin := (enough n).statements true { s.forward with blocks := s.blocks + 1 }
    (by dsimp only; omega)
  cases hinner : statements n true { s.forward with blocks := s.blocks + 1 } with
  | done body t =>
      rw [hinner] at hends
      obtain ⟨⟨-, -, hpassed⟩, hend⟩ := hends
      obtain ⟨b, hstrays, hinside⟩ := hpassed hwords.tail
      have hleft := hwords.tail.suffix hinside.suffix
      refine ⟨body, { t with blocks := t.blocks - 1 }, b, ?_, hstrays, hinside, ?_⟩
      · exact bind_of_done hinner
      · exact hend.imp hleft.eq_nil id
  | failed t =>
      rw [hinner] at hends
      exact hends.elim
  | exhausted =>
      rw [hinner] at hwithin
      exact hwithin.elim

theorem exists_partner_of_suffix {tokens : List Token} (hbalanced : Token.Balanced tokens)
    {s : State} (hs : s.ahead <:+ tokens) (hopen : s.current.kind = .lbrace) :
    ∃ inside close behind, s.ahead.tail = inside ++ close :: behind ∧ Token.Balanced inside ∧
      close.kind = .rbrace := by
  obtain ⟨before, rfl⟩ := hs
  rw [Token.Balanced, Token.nesting_append] at hbalanced
  obtain ⟨depth, -, hdepth⟩ := Option.bind_eq_some_iff.mp hbalanced
  rw [State.ahead_eq_of_current hopen (by decide), Token.nesting_cons, Token.nest_lbrace,
    Option.bind_some, ← Nat.zero_add (depth + 1)] at hdepth
  exact Token.exists_partner hdepth (Nat.zero_le _)

/-- In a text whose braces are balanced, a block that begins at a brace is always read, and
reading stops at the partner of that brace exactly if, on the way, no closing brace stood where an
expression was due. -/
theorem block_stops_at_partner_iff {source : String}
    (hbalanced : Token.Balanced (Token.words source.toList)) {s : State}
    (hs : s.ahead <:+ Token.words source.toList) (hopen : s.current.kind = .lbrace) {n : Nat}
    (hn : 8 * s.ahead.length ≤ n) :
    ∃ inside close behind body t, s.ahead.tail = inside ++ close :: behind ∧
      Token.Balanced inside ∧ close.kind = .rbrace ∧ block n s = .done body t ∧
      (t.ahead = close :: behind ↔
        t.diagnostics.count (.noExpression .rbrace) =
          s.diagnostics.count (.noExpression .rbrace)) := by
  have hwords : Words s.ahead :=
    Words.suffix (fun token htoken => Token.kind_ne_eof_of_mem_words htoken) hs
  obtain ⟨inside, close, behind, htail, hinside, hclose⟩ :=
    exists_partner_of_suffix hbalanced hs hopen
  obtain ⟨body, t, b, hblock, hstrays, hpassed, hend⟩ := block_passed hn hopen hwords
  rw [htail] at hpassed
  refine ⟨inside, close, behind, body, t, htail, hinside, hclose, hblock, ?_⟩
  rw [hpassed.eq_partner_iff hinside hclose hend]
  change b = 0 ↔ t.strays = s.strays
  omega

theorem words_of_broken_binding : Token.words "fn() \x7b let 1; 2 \x7d".toList =
    [⟨.fnWord, "fn"⟩, ⟨.lparen, "("⟩, ⟨.rparen, ")"⟩, ⟨.lbrace, "\x7b"⟩, ⟨.letWord, "let"⟩,
      ⟨.int, "1"⟩, ⟨.semicolon, ";"⟩, ⟨.int, "2"⟩, ⟨.rbrace, "\x7d"⟩] := by
  decide +kernel

/-- A block with a broken binding ends where it should. -/
theorem block_stops_behind_broken_binding :
    ∃ inside close behind body t,
      Token.words "fn() \x7b let 1; 2 \x7d".toList =
        [⟨.fnWord, "fn"⟩, ⟨.lparen, "("⟩, ⟨.rparen, ")"⟩, ⟨.lbrace, "\x7b"⟩] ++
          (inside ++ close :: behind) ∧
      Token.Balanced inside ∧ close.kind = .rbrace ∧
      block 48 (.start ((Token.words "fn() \x7b let 1; 2 \x7d".toList).drop 3)) = .done body t ∧
      t.ahead = close :: behind := by
  have hwords := words_of_broken_binding
  have hbalanced : Token.Balanced (Token.words "fn() \x7b let 1; 2 \x7d".toList) := by
    rw [hwords]
    rfl
  have hopen : (State.start
    ((Token.words "fn() \x7b let 1; 2 \x7d".toList).drop 3)).current.kind =
      .lbrace := by
    rw [hwords]
    rfl
  have hlength : 8 * (State.start
      ((Token.words "fn() \x7b let 1; 2 \x7d".toList).drop 3)).ahead.length ≤ 48 := by
    rw [hwords]
    decide
  obtain ⟨inside, close, behind, body, t, htail, hinside, hclose, hblock, hiff⟩ :=
    block_stops_at_partner_iff hbalanced (List.drop_suffix 3 _) hopen hlength
  refine ⟨inside, close, behind, body, t, ?_, hinside, hclose, hblock, ?_⟩
  · rw [← htail, hwords]
    rfl
  · rw [hwords] at hblock
    apply hiff.mpr
    cases hblock
    rfl

theorem words_of_stray_brace : Token.words "let f = fn() \x7b 1 + \x7d; f".toList =
    [⟨.letWord, "let"⟩, ⟨.ident, "f"⟩, ⟨.assign, "="⟩, ⟨.fnWord, "fn"⟩, ⟨.lparen, "("⟩,
      ⟨.rparen, ")"⟩, ⟨.lbrace, "\x7b"⟩, ⟨.int, "1"⟩, ⟨.plus, "+"⟩, ⟨.rbrace, "\x7d"⟩,
      ⟨.semicolon, ";"⟩, ⟨.ident, "f"⟩] := by
  decide +kernel

/-- A block whose last statement breaks off at the closing brace swallows what follows it. -/
theorem block_runs_past_partner :
    Token.Balanced (Token.words "let f = fn() \x7b 1 + \x7d; f".toList) ∧
    Reading.ofSource "let f = fn() \x7b 1 + \x7d; f" =
      ⟨[.bind "f" (.fn () [] [.expr (.ident "f")])], [.noExpression .rbrace]⟩ ∧
    ∃ t, (Token.words "let f = fn() \x7b 1 + \x7d; f".toList).drop 6 = ⟨.lbrace, "\x7b"⟩ ::
        ([⟨.int, "1"⟩, ⟨.plus, "+"⟩] ++ ⟨.rbrace, "\x7d"⟩ ::
          [⟨.semicolon, ";"⟩, ⟨.ident, "f"⟩]) ∧
      block 48 (.start ((Token.words "let f = fn() \x7b 1 + \x7d; f".toList).drop 6)) =
        .done [.expr (.ident "f")] t ∧ t.ahead = [] := by
  rw [Reading.ofSource, words_of_stray_brace]
  exact ⟨rfl, rfl, _, rfl, rfl, rfl⟩

end ScriptLang.Parser
