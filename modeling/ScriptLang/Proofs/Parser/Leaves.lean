import Mathlib.Data.List.Forall2
import ScriptLang.Proofs.Parser.Allowance
import ScriptLang.Proofs.Printer.Tokens
import ScriptLang.Proofs.Token.Lexemes

namespace ScriptLang

open ScriptLang.Text

/-- What a tree takes over from a text. -/
inductive Leaf where
  /-- A name that is looked up or bound, or a parameter. -/
  | name (text : String)
  | number (value : Int64)
  | string (text : String)

namespace Leaf

/-- The token that a leaf is made from.  Leading zeros count for nothing in the value of its
digits. -/
inductive MadeFrom : Leaf → Token → Prop where
  | name {text : String} : MadeFrom (.name text) ⟨.ident, text⟩
  | number {value : Int64} {digits : String} (h : value.toInt = Decimal.value digits) :
      MadeFrom (.number value) ⟨.int, digits⟩
  | string {text : String} : MadeFrom (.string text) ⟨.string, text⟩

/-- A name is letters that are no keyword, and a number is not negative. -/
def Lexical : Leaf → Prop
  | name text => IsName text
  | number value => 0 ≤ value
  | string _ => True

end Leaf

section Trees

mutual

/-- The leaves of an expression, in source order. -/
def Expr.leaves : Expr → List Leaf
  | .ident name => [.name name]
  | .int value => [.number value]
  | .string text => [.string text]
  | .bool _ => []
  | .unary _ operand => operand.leaves
  | .binary left _ right => left.leaves ++ right.leaves
  | .cond condition yes no => condition.leaves ++ Stmt.leavesEach yes ++ Stmt.leavesElse no
  | .fn _ params body => params.map .name ++ Stmt.leavesEach body
  | .call callee args => callee.leaves ++ Expr.leavesEach args
  | .array elements => Expr.leavesEach elements
  | .index collection position => collection.leaves ++ position.leaves
  | .hash pairs => Expr.leavesPairs pairs

def Expr.leavesEach : List Expr → List Leaf
  | [] => []
  | e :: es => e.leaves ++ Expr.leavesEach es

def Expr.leavesPairs : List (Expr × Expr) → List Leaf
  | [] => []
  | (key, value) :: pairs => key.leaves ++ value.leaves ++ Expr.leavesPairs pairs

/-- The leaves of a statement, in source order. -/
def Stmt.leaves : Stmt → List Leaf
  | .bind name value => .name name :: value.leaves
  | .ret none => []
  | .ret (some value) => value.leaves
  | .expr value => value.leaves

def Stmt.leavesEach : List Stmt → List Leaf
  | [] => []
  | s :: ss => s.leaves ++ Stmt.leavesEach ss

def Stmt.leavesElse : Option (List Stmt) → List Leaf
  | none => []
  | some block => Stmt.leavesEach block

end

mutual

/-- No name and no number of a tree is missing from its leaves. -/
theorem Expr.lexical_iff : ∀ e : Expr, e.Lexical ↔ ∀ leaf ∈ e.leaves, leaf.Lexical
  | .ident name => by simp [Expr.Lexical, Expr.leaves, Leaf.Lexical]
  | .int value => by simp [Expr.Lexical, Expr.leaves, Leaf.Lexical]
  | .string text => by simp [Expr.Lexical, Expr.leaves, Leaf.Lexical]
  | .bool value => by simp [Expr.Lexical, Expr.leaves]
  | .unary op operand => operand.lexical_iff
  | .binary left op right => by
      rw [Expr.Lexical, Expr.leaves, List.forall_mem_append, left.lexical_iff, right.lexical_iff]
  | .cond condition yes no => by
      rw [Expr.Lexical, Expr.leaves, List.forall_mem_append, List.forall_mem_append,
        condition.lexical_iff, Stmt.lexicalEach_iff yes, Stmt.lexicalElse_iff no, and_assoc]
  | .fn _ params body => by
      rw [Expr.Lexical, Expr.leaves, List.forall_mem_append, List.forall_mem_map,
        Stmt.lexicalEach_iff body]
      rfl
  | .call callee args => by
      rw [Expr.Lexical, Expr.leaves, List.forall_mem_append, callee.lexical_iff,
        Expr.lexicalEach_iff args]
  | .array elements => Expr.lexicalEach_iff elements
  | .index collection position => by
      rw [Expr.Lexical, Expr.leaves, List.forall_mem_append, collection.lexical_iff,
        position.lexical_iff]
  | .hash pairs => Expr.lexicalPairs_iff pairs

theorem Expr.lexicalEach_iff : ∀ es : List Expr,
    Expr.LexicalEach es ↔ ∀ leaf ∈ Expr.leavesEach es, leaf.Lexical
  | [] => by simp [Expr.LexicalEach, Expr.leavesEach]
  | e :: es => by
      rw [Expr.LexicalEach, Expr.leavesEach, List.forall_mem_append, e.lexical_iff,
        Expr.lexicalEach_iff es]

theorem Expr.lexicalPairs_iff : ∀ pairs : List (Expr × Expr),
    Expr.LexicalPairs pairs ↔ ∀ leaf ∈ Expr.leavesPairs pairs, leaf.Lexical
  | [] => by simp [Expr.LexicalPairs, Expr.leavesPairs]
  | (key, value) :: pairs => by
      rw [Expr.LexicalPairs, Expr.leavesPairs, List.forall_mem_append, List.forall_mem_append,
        key.lexical_iff, value.lexical_iff, Expr.lexicalPairs_iff pairs, and_assoc]

theorem Stmt.lexical_iff : ∀ s : Stmt, s.Lexical ↔ ∀ leaf ∈ s.leaves, leaf.Lexical
  | .bind name value => by
      rw [Stmt.Lexical, Stmt.leaves, List.forall_mem_cons, value.lexical_iff]
      rfl
  | .ret none => by simp [Stmt.Lexical, Stmt.leaves]
  | .ret (some value) => value.lexical_iff
  | .expr value => value.lexical_iff

theorem Stmt.lexicalEach_iff : ∀ ss : List Stmt,
    Stmt.LexicalEach ss ↔ ∀ leaf ∈ Stmt.leavesEach ss, leaf.Lexical
  | [] => by simp [Stmt.LexicalEach, Stmt.leavesEach]
  | s :: ss => by
      rw [Stmt.LexicalEach, Stmt.leavesEach, List.forall_mem_append, s.lexical_iff,
        Stmt.lexicalEach_iff ss]

theorem Stmt.lexicalElse_iff : ∀ no : Option (List Stmt),
    Stmt.LexicalElse no ↔ ∀ leaf ∈ Stmt.leavesElse no, leaf.Lexical
  | none => by simp [Stmt.LexicalElse, Stmt.leavesElse]
  | some block => Stmt.lexicalEach_iff block

end

theorem Stmt.leavesEach_append (ss ss' : List Stmt) :
    Stmt.leavesEach (ss ++ ss') = Stmt.leavesEach ss ++ Stmt.leavesEach ss' := by
  induction ss with
  | nil => rfl
  | cons s ss ih => rw [List.cons_append, Stmt.leavesEach, Stmt.leavesEach, ih, List.append_assoc]

end Trees

namespace Parser

variable {α β : Type}

/-- Tokens are passed over from which these leaves are made. -/
def Covers (leaves : List Leaf) (here there : List Token) : Prop :=
  ∃ passed, here = passed ++ there ∧ List.SublistForall₂ Leaf.MadeFrom leaves passed

namespace Covers

variable {leaves leaves' : List Leaf} {here mid there : List Token}

theorem of_suffix (h : there <:+ here) : Covers [] here there := by
  obtain ⟨passed, rfl⟩ := h
  exact ⟨passed, rfl, .nil⟩

theorem trans (h : Covers leaves here mid) (h' : Covers leaves' mid there) :
    Covers (leaves ++ leaves') here there := by
  obtain ⟨passed, rfl, hmade⟩ := h
  obtain ⟨passed', rfl, hmade'⟩ := h'
  obtain ⟨used, hused, hsub⟩ := List.sublistForall₂_iff.mp hmade
  obtain ⟨used', hused', hsub'⟩ := List.sublistForall₂_iff.mp hmade'
  refine ⟨passed ++ passed', (List.append_assoc ..).symm, List.sublistForall₂_iff.mpr ?_⟩
  exact ⟨used ++ used', List.rel_append hused hused', hsub.append hsub'⟩

theorem behind (h : Covers leaves mid there) (hsuffix : mid <:+ here) :
    Covers leaves here there := by
  simpa using (of_suffix hsuffix).trans h

theorem pass (h : Covers leaves here mid) (hsuffix : there <:+ mid) :
    Covers leaves here there := by
  simpa using h.trans (of_suffix hsuffix)

theorem forward {t : State} (h : Covers leaves here t.ahead.tail) :
    Covers leaves here t.forward.ahead.tail :=
  h.pass (List.tail_suffix _)

theorem current {s : State} {kind : Token.Kind} {leaf : Leaf} (hkind : s.current.kind = kind)
    (hne : kind ≠ .eof) (hmade : leaf.MadeFrom ⟨kind, s.current.literal⟩) :
    Covers [leaf] s.ahead s.ahead.tail := by
  rw [State.ahead_eq_of_current hkind hne]
  exact ⟨[_], rfl, .cons hmade .nil⟩

theorem name {s : State} (hkind : s.current.kind = .ident) :
    Covers [.name s.current.literal] s.ahead s.ahead.tail :=
  current hkind (by decide) .name

end Covers

/-- What a rule makes of the tokens from `here` on has its leaves from the tokens that it passes.
Nothing is said of a rule that fails, since it makes nothing. -/
def Reply.Collects (reply : Reply α) (leaves : α → List Leaf) (here : List Token) : Prop :=
  reply.Ends (fun a t => Covers (leaves a) here t.ahead.tail) fun _ => True

section Sequences

variable {t : State} {here mid : List Token} {leaves : α → List Leaf} {leaves' : β → List Leaf}

theorem bind_collects {rule : Parser α} {next : α → Parser β}
    (hrule : (rule t).Collects leaves mid)
    (hnext : ∀ a u, Covers (leaves a) mid u.ahead.tail → (next a u).Collects leaves' here) :
    ((rule >>= next) t).Collects leaves' here :=
  bind_ends hrule (fun _ h => h) hnext

theorem expect_bind_collects {kind : Token.Kind} {next : Unit → Parser β}
    (hnext : t.peek.kind = kind → (next () t.forward).Collects leaves' here) :
    ((expect kind >>= next) t).Collects leaves' here :=
  expect_bind_ends (fun _ => trivial) hnext

theorem skipSemicolon_bind_collects {b : β} (h : Covers (leaves' b) here t.ahead.tail) :
    ((skipSemicolon >>= fun _ => (pure b : Parser β)) t).Collects leaves' here :=
  skipSemicolon_bind_ends (fun _ => h.forward) fun _ => h

end Sequences

theorem moreParameters_collects (n : Nat) (s : State) :
    (moreParameters n s).Collects (List.map .name) s.ahead.tail := by
  induction n generalizing s with
  | zero => trivial
  | succ n ih =>
      rw [moreParameters, peekKind_bind_apply]
      split
      · rw [advance_bind_apply]
        refine expect_bind_collects fun hname => ?_
        rw [current_bind_apply]
        refine bind_collects (ih _) fun names t hnames => ?_
        have hfirst := Covers.name (s := s.forward.forward) hname
        exact (hfirst.trans hnames).behind (List.tail_suffix _)
      · exact expect_bind_collects fun _ => .of_suffix (List.tail_suffix _)

theorem parameters_collects (n : Nat) (s : State) :
    (parameters n s).Collects (List.map .name) s.ahead.tail := by
  rw [parameters, peekKind_bind_apply]
  split
  · exact .of_suffix (List.tail_suffix _)
  · refine expect_bind_collects fun hname => ?_
    rw [current_bind_apply]
    refine bind_collects (moreParameters_collects n _) fun names t hnames => ?_
    exact (Covers.name (s := s.forward) hname).trans hnames

/-- At one allowance, every rule has its leaves from the tokens that it passes.  The rules that
continue an expression find its left part read, and statements stop in front of the token that
ends them. -/
structure Collected (n : Nat) : Prop where
  expression : ∀ floor s, (expression n floor s).Collects Expr.leaves s.ahead
  operand : ∀ s, (operand n s).Collects Expr.leaves s.ahead
  continued : ∀ {floor left s here}, Covers left.leaves here s.ahead.tail →
    (continued n floor left s).Collects Expr.leaves here
  continuedOnce : ∀ {left} {joint : Joint} {s here}, s.current.kind = joint.kind →
    Covers left.leaves here s.ahead →
    (continuedOnce n left joint.continuation s).Collects Expr.leaves here
  items : ∀ close s, (items n close s).Collects Expr.leavesEach s.ahead.tail
  moreItems : ∀ s, (moreItems n s).Collects Expr.leavesEach s.ahead.tail
  pairs : ∀ s, (pairs n s).Collects Expr.leavesPairs s.ahead.tail
  block : ∀ s, (block n s).Collects Stmt.leavesEach s.ahead
  statements : ∀ inBlock s, (statements n inBlock s).Ends
    (fun ss t => Covers (Stmt.leavesEach ss) s.ahead t.ahead) fun _ => True
  statement : ∀ s, (statement n s).Collects Stmt.leaves s.ahead

namespace Collected

variable {n : Nat}

theorem expression_succ (ih : Collected n) (floor : Precedence) (s : State) :
    (Parser.expression (n + 1) floor s).Collects Expr.leaves s.ahead := by
  rw [Parser.expression]
  exact bind_collects (ih.operand s) fun left t hleft => ih.continued hleft

theorem otherwise_collects (ih : Collected n) {condition : Expr} {yes : Block} {s : State}
    {here : List Token}
    (h : Covers (condition.leaves ++ Stmt.leavesEach yes) here s.ahead.tail) :
    (otherwise n condition yes s).Collects Expr.leaves here := by
  rw [otherwise, peekKind_bind_apply]
  split
  · rw [advance_bind_apply]
    refine expect_bind_collects fun _ => ?_
    refine bind_collects (ih.block _) fun no t hno => ?_
    exact h.forward.trans hno
  · show Covers _ here s.ahead.tail
    rw [Expr.leaves, Stmt.leavesElse, List.append_nil]
    exact h

theorem operand_succ (ih : Collected n) (s : State) :
    (Parser.operand (n + 1) s).Collects Expr.leaves s.ahead := by
  have hskip : s.ahead.tail <:+ s.ahead := List.tail_suffix _
  apply operand_elim (motive := fun reply => reply.Collects Expr.leaves s.ahead)
  case ident => exact fun hkind => .name hkind
  case int =>
      intro hkind hvalue
      refine .current hkind (by decide) (.number ?_)
      exact Int64.toInt_ofNat_of_lt (Nat.lt_succ_of_le hvalue)
  case tooLarge => exact fun _ _ => trivial
  case string => exact fun hkind => .current hkind (by decide) .string
  case trueWord => exact fun _ => .of_suffix hskip
  case falseWord => exact fun _ => .of_suffix hskip
  case unary =>
      intro op _
      exact bind_collects (ih.expression _ _) fun right t hright => hright.behind hskip
  case group =>
      intro _
      refine bind_collects (ih.expression _ _) fun inner t hinner => ?_
      exact expect_bind_collects fun _ => hinner.forward.behind hskip
  case cond =>
      intro _
      refine expect_bind_collects fun _ => ?_
      rw [advance_bind_apply]
      refine bind_collects (ih.expression _ _) fun condition t hcondition => ?_
      refine expect_bind_collects fun _ => expect_bind_collects fun _ => ?_
      refine bind_collects (ih.block _) fun yes u hyes => ih.otherwise_collects ?_
      have hboth := hcondition.forward.trans hyes
      exact hboth.behind ((List.tail_suffix _).trans hskip)
  case fn =>
      intro _
      refine expect_bind_collects fun _ => ?_
      refine bind_collects (parameters_collects n _) fun params t hparams => ?_
      refine expect_bind_collects fun _ => ?_
      refine bind_collects (ih.block _) fun body u hbody => ?_
      exact (hparams.trans hbody).behind ((List.tail_suffix _).trans hskip)
  case array =>
      intro _
      exact bind_collects (ih.items _ s) fun elements t helements => helements.behind hskip
  case hash =>
      intro _
      exact bind_collects (ih.pairs _) fun entries t hentries => hentries.behind hskip
  case other => exact fun _ => trivial

theorem continued_succ (ih : Collected n) {floor : Precedence} {left : Expr} {s : State}
    {here : List Token} (h : Covers left.leaves here s.ahead.tail) :
    (Parser.continued (n + 1) floor left s).Collects Expr.leaves here := by
  apply continued_elim (motive := fun reply => reply.Collects Expr.leaves here)
  case stop => exact fun _ => h
  case goOn =>
      intro joint hkind _
      refine bind_collects (ih.continuedOnce hkind h) fun larger t hlarger => ?_
      exact ih.continued hlarger

theorem continuedOnce_succ (ih : Collected n) {left : Expr} {joint : Joint} {s : State}
    {here : List Token} (hkind : s.current.kind = joint.kind)
    (h : Covers left.leaves here s.ahead) :
    (Parser.continuedOnce (n + 1) left joint.continuation s).Collects Expr.leaves here := by
  have hpast := h.pass (List.tail_suffix _)
  apply continuedOnce_elim (motive := fun reply => reply.Collects Expr.leaves here) hkind
  case operator =>
      intro op _
      exact bind_collects (ih.expression _ _) fun right t hright => hpast.trans hright
  case call =>
      intro _
      exact bind_collects (ih.items _ _) fun args t hargs => hpast.trans hargs
  case index =>
      intro _
      refine bind_collects (ih.expression _ _) fun position t hposition => ?_
      exact expect_bind_collects fun _ => (hpast.trans hposition).forward

theorem items_succ (ih : Collected n) (close : Token.Kind) (s : State) :
    (Parser.items (n + 1) close s).Collects Expr.leavesEach s.ahead.tail := by
  rw [Parser.items, peekKind_bind_apply]
  split
  · exact .of_suffix (List.tail_suffix _)
  · rw [advance_bind_apply]
    refine bind_collects (ih.expression _ _) fun first t hfirst => ?_
    refine bind_collects (ih.moreItems t) fun others u hothers => ?_
    exact expect_bind_collects fun _ => (hfirst.trans hothers).forward

theorem moreItems_succ (ih : Collected n) (s : State) :
    (Parser.moreItems (n + 1) s).Collects Expr.leavesEach s.ahead.tail := by
  rw [Parser.moreItems, peekKind_bind_apply]
  split
  · rw [advance_bind_apply, advance_bind_apply]
    refine bind_collects (ih.expression _ _) fun item t hitem => ?_
    refine bind_collects (ih.moreItems t) fun others u hothers => ?_
    exact (hitem.trans hothers).behind (List.tail_suffix _)
  · exact .of_suffix (List.suffix_refl _)

theorem pairs_succ (ih : Collected n) (s : State) :
    (Parser.pairs (n + 1) s).Collects Expr.leavesPairs s.ahead.tail := by
  rw [Parser.pairs, peekKind_bind_apply]
  split
  · exact .of_suffix (List.tail_suffix _)
  · rw [advance_bind_apply]
    refine bind_collects (ih.expression _ _) fun key t hkey => ?_
    refine expect_bind_collects fun _ => ?_
    rw [advance_bind_apply]
    refine bind_collects (ih.expression _ _) fun value u hvalue => ?_
    have hpair := hkey.forward.trans hvalue
    rw [peekKind_bind_apply]
    split
    · exact bind_collects (ih.pairs u) fun others v hothers => hpair.trans hothers
    · refine expect_bind_collects fun _ => ?_
      exact bind_collects (ih.pairs _) fun others v hothers => hpair.forward.trans hothers

theorem block_succ (ih : Collected n) (s : State) :
    (Parser.block (n + 1) s).Collects Stmt.leavesEach s.ahead := by
  rw [Parser.block, enterBlock_bind_apply, advance_bind_apply]
  refine bind_ends (ih.statements _ _) (fun _ h => h) fun body t hbody => ?_
  have hinside : Covers (Stmt.leavesEach body) s.ahead.tail t.ahead := hbody
  exact (hinside.pass (List.tail_suffix _)).behind (List.tail_suffix _)

theorem statements_succ (ih : Collected n) (inBlock : Bool) (s : State) :
    (Parser.statements (n + 1) inBlock s).Ends
      (fun ss t => Covers (Stmt.leavesEach ss) s.ahead t.ahead) fun _ => True := by
  have goOn (first : Option Stmt) {t : State}
      (hfirst : Covers (Stmt.leavesEach first.toList) s.ahead t.ahead.tail) :
      ((advance >>= fun _ => Parser.statements n inBlock >>= fun others =>
        (pure (first.toList ++ others) : Parser (List Stmt))) t).Ends
        (fun ss u => Covers (Stmt.leavesEach ss) s.ahead u.ahead) fun _ => True := by
    rw [advance_bind_apply]
    refine bind_ends (ih.statements _ _) (fun _ h => h) fun others u hothers => ?_
    show Covers _ s.ahead u.ahead
    rw [Stmt.leavesEach_append]
    exact hfirst.trans hothers
  rw [Parser.statements, current_bind_apply]
  split
  · exact .of_suffix (List.suffix_refl _)
  · have hrule := (ih.statement s).and ((suffix_invariant.respected n).statement s)
    refine orPassOver_bind_ends hrule (fun a t hdone => goOn (some a) ?_)
      fun t _ hfailed => goOn none (.of_suffix ?_)
    · rw [Option.toList_some, Stmt.leavesEach, Stmt.leavesEach, List.append_nil]
      exact hdone.1
    · exact (List.tail_suffix _).trans ((passOver_suffix _ _ _).trans hfailed.2)

theorem statement_succ (ih : Collected n) (s : State) :
    (Parser.statement (n + 1) s).Collects Stmt.leaves s.ahead := by
  have hskip : s.ahead.tail <:+ s.ahead := List.tail_suffix _
  apply statement_elim (motive := fun reply => reply.Collects Stmt.leaves s.ahead)
  case bind =>
      intro _
      refine expect_bind_collects fun hname => ?_
      rw [current_bind_apply]
      refine expect_bind_collects fun _ => ?_
      rw [advance_bind_apply]
      refine bind_collects (ih.expression _ _) fun value t hvalue => ?_
      have hfirst := (Covers.name (s := s.forward) hname).forward
      exact skipSemicolon_bind_collects ((hfirst.trans hvalue).behind hskip)
  case bareReturn => exact fun _ _ => skipSemicolon_bind_collects (.of_suffix hskip)
  case ret =>
      intro _ _
      refine bind_collects (ih.expression _ _) fun value t hvalue => ?_
      exact skipSemicolon_bind_collects (hvalue.behind hskip)
  case expr =>
      intro _ _
      refine bind_collects (ih.expression _ _) fun value t hvalue => ?_
      exact skipSemicolon_bind_collects hvalue

end Collected

theorem collected (n : Nat) : Collected n := by
  induction n with
  | zero =>
      constructor
      all_goals
        intros
        trivial
  | succ n ih =>
      exact
        { expression := ih.expression_succ
          operand := ih.operand_succ
          continued := ih.continued_succ
          continuedOnce := ih.continuedOnce_succ
          items := ih.items_succ
          moreItems := ih.moreItems_succ
          pairs := ih.pairs_succ
          block := ih.block_succ
          statements := ih.statements_succ
          statement := ih.statement_succ }

/-- The leaves of a program come from tokens of the text, in order, and each from one of its
own. -/
theorem run_leaves {tokens : List Token} {program : Program} {state : State}
    (h : run tokens = .done program state) :
    List.SublistForall₂ Leaf.MadeFrom (Stmt.leavesEach program) tokens := by
  have hends := (collected (allowance tokens.length)).statements false (.start tokens)
  rw [← run, h] at hends
  obtain ⟨passed, hpassed, hmade⟩ := hends.pass (List.nil_suffix (l := state.ahead))
  rw [List.append_nil] at hpassed
  rwa [← hpassed] at hmade

end Parser

section Tokens

variable {text : List Char} {token : Token}

theorem Token.exists_lexeme_of_mem_words (h : token ∈ words text) :
    ∃ chars behind, Lexeme token chars behind := by
  obtain ⟨pieces, trail, hcut⟩ := Cut.exists_of_text text
  rw [hcut.words_eq] at h
  obtain ⟨piece, hpiece, rfl⟩ := List.mem_map.mp h
  exact ⟨_, hcut.exists_lexeme_of_mem hpiece⟩

theorem Token.Kind.ofMark?_fixed {c : Char} {kind : Kind} (h : Kind.ofMark? c = some kind) :
    kind ≠ .ident ∧ kind ≠ .int := by
  unfold Kind.ofMark? at h
  split at h <;> cases h <;> decide

theorem Token.isName_of_mem_words {name : String} (h : ⟨.ident, name⟩ ∈ words text) :
    IsName name := by
  obtain ⟨chars, behind, hlexeme⟩ := exists_lexeme_of_mem_words h
  cases hlexeme with
  | mark hmark => exact absurd rfl (Kind.ofMark?_fixed hmark).1
  | keyword _ hword => exact absurd hword (by simp [Kind.keywords])
  | name hletters hword =>
      refine ⟨?_, ?_, Kind.ofWord_of_not_keyword hword⟩
      · rw [String.toList_ofList]
        exact hletters.ne_nil
      · rw [String.toList_ofList]
        exact hletters.all

theorem Token.digits_of_mem_words {digits : String} (h : ⟨.int, digits⟩ ∈ words text) :
    digits.toList ≠ [] ∧ ∀ c ∈ digits.toList, c.isDigit = true := by
  obtain ⟨chars, behind, hlexeme⟩ := exists_lexeme_of_mem_words h
  cases hlexeme with
  | mark hmark => exact absurd rfl (Kind.ofMark?_fixed hmark).2
  | keyword _ hword => exact absurd hword (by simp [Kind.keywords])
  | number hdigits =>
      rw [String.toList_ofList]
      exact ⟨hdigits.ne_nil, hdigits.all⟩

theorem Leaf.MadeFrom.lexical {leaf : Leaf} (h : leaf.MadeFrom token)
    (hmem : token ∈ Token.words text) : leaf.Lexical := by
  cases h with
  | name => exact Token.isName_of_mem_words hmem
  | number hvalue =>
      show 0 ≤ _
      rw [Int64.le_iff_toInt_le, hvalue]
      exact Int.natCast_nonneg _
  | string => trivial

end Tokens

theorem exists_mem_of_sublistForall₂ {α β : Type} {R : α → β → Prop} {as : List α} {bs : List β}
    (h : List.SublistForall₂ R as bs) : ∀ a ∈ as, ∃ b ∈ bs, R a b := by
  induction h with
  | nil => nofun
  | @cons a b as bs hab _ ih =>
      intro c hc
      rcases List.mem_cons.mp hc with rfl | hc
      · exact ⟨b, List.mem_cons_self, hab⟩
      · obtain ⟨d, hd, hcd⟩ := ih c hc
        exact ⟨d, List.mem_cons_of_mem b hd, hcd⟩
  | @cons_right b as bs _ ih =>
      intro c hc
      obtain ⟨d, hd, hcd⟩ := ih c hc
      exact ⟨d, List.mem_cons_of_mem b hd, hcd⟩

/-- Whatever is read of a text, broken statements or not, is lexically well formed.  Every name in
it, at any depth, is letters that are no keyword, and no number is negative.  In source order its
names, its numbers and its strings come from tokens of the text in that order, each from one of
its own.  A number has the value of the digits of its token, which are one or more and may begin
with zeros. -/
theorem Reading.program_is_lexical (source : String) :
    Stmt.LexicalEach (Reading.ofSource source).program ∧
    List.SublistForall₂ Leaf.MadeFrom (Stmt.leavesEach (Reading.ofSource source).program)
      (Token.tokenize source) ∧
    ∀ digits, ⟨.int, digits⟩ ∈ Token.tokenize source →
      digits.toList ≠ [] ∧ ∀ c ∈ digits.toList, c.isDigit = true := by
  obtain ⟨program, state, hrun⟩ := Parser.run_eq_done (Token.words source.toList)
  have hreading : Reading.ofSource source = ⟨program, state.diagnostics⟩ :=
    Parser.ofTokens_of_run hrun
  have hleaves := Parser.run_leaves hrun
  rw [hreading]
  refine ⟨?_, ?_, ?_⟩
  · rw [Stmt.lexicalEach_iff]
    intro leaf hleaf
    obtain ⟨token, htoken, hmade⟩ := exists_mem_of_sublistForall₂ hleaves leaf hleaf
    exact hmade.lexical htoken
  · obtain ⟨used, hused, hsub⟩ := List.sublistForall₂_iff.mp hleaves
    refine List.sublistForall₂_iff.mpr ⟨used, hused, hsub.trans ?_⟩
    exact List.sublist_append_left _ _
  · intro digits hdigits
    rw [Token.tokenize, List.mem_append] at hdigits
    rcases hdigits with hword | hend
    · exact Token.digits_of_mem_words hword
    · simp [Token.endOfInput] at hend

/-- Three statements are broken, one of them in a block, and a number has a zero in front. -/
example : Reading.ofSource "let 1; let a = fn(b) \x7b 2 + ; b * 042 \x7d; [a, 007" =
    ⟨[.bind "a" (.fn () ["b"] [.expr (.binary (.ident "b") .mul (.int 42))])],
      [.unexpected .ident .int, .noExpression .semicolon, .unexpected .rbracket .eof]⟩ := by
  decide +kernel

end ScriptLang
