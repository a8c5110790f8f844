import ScriptLang.Proofs.Parser.Exactness
import ScriptLang.Proofs.Printer.Lists

/-!
Canonical texts are read back as the trees they were made from.

Every expression is written as an operand: what an operator needs around it stands in parentheses
of its own.  So its words can be read at the level of calls, whatever follows.  There are two
limits.  A condition borrows its own parentheses for those behind `if`, and an expression that is
a statement must not run into the statement behind it.
-/

namespace ScriptLang

open Grammar
open Token (fixed separated words)

/-- The expressions that are written in parentheses. -/
def Expr.InParentheses : Expr → Prop
  | .unary _ _ => True
  | .binary _ _ _ => True
  | .index _ _ => True
  | _ => False

/-- An expression statement whose text would be taken for a call or an index of what is before
it. -/
def Stmt.Reopens (s : Stmt) : Prop :=
  ∃ e, s = .expr e ∧ (e.render.toList.head? = some '(' ∨ e.render.toList.head? = some '[')

/-- No expression statement runs into the statement behind it. -/
def Stmt.Apart : List Stmt → Prop
  | s :: t :: ss => ¬ ((∃ e, s = .expr e) ∧ t.Reopens) ∧ Stmt.Apart (t :: ss)
  | _ => True

mutual

/-- Every condition in an expression is written in parentheses, and in no block does a statement
run into the next. -/
def Expr.Delimited : Expr → Prop
  | .unary _ operand => operand.Delimited
  | .binary left _ right => left.Delimited ∧ right.Delimited
  | .cond condition yes no => condition.InParentheses ∧ condition.Delimited ∧
      (Stmt.Apart yes ∧ Stmt.DelimitedEach yes) ∧ Stmt.DelimitedElse no
  | .fn _ _ body => Stmt.Apart body ∧ Stmt.DelimitedEach body
  | .call callee args => callee.Delimited ∧ Expr.DelimitedEach args
  | .array elements => Expr.DelimitedEach elements
  | .index collection position => collection.Delimited ∧ position.Delimited
  | .hash pairs => Expr.DelimitedPairs pairs
  | .ident _ | .int _ | .string _ | .bool _ => True

def Expr.DelimitedEach : List Expr → Prop
  | [] => True
  | e :: es => e.Delimited ∧ Expr.DelimitedEach es

def Expr.DelimitedPairs : List (Expr × Expr) → Prop
  | [] => True
  | (key, value) :: pairs => key.Delimited ∧ value.Delimited ∧ Expr.DelimitedPairs pairs

def Stmt.Delimited : Stmt → Prop
  | .bind _ value => value.Delimited
  | .ret none => True
  | .ret (some value) => value.Delimited
  | .expr value => value.Delimited

def Stmt.DelimitedEach : List Stmt → Prop
  | [] => True
  | s :: ss => s.Delimited ∧ Stmt.DelimitedEach ss

def Stmt.DelimitedElse : Option (List Stmt) → Prop
  | none => True
  | some block => Stmt.Apart block ∧ Stmt.DelimitedEach block

end

/-- The programs whose listing can be read back. -/
def Program.Renderable (program : Program) : Prop :=
  Stmt.LexicalEach program ∧ Stmt.Apart program ∧ Stmt.DelimitedEach program

/-- How the words of an expression can be read. -/
structure Expr.Rereads (e : Expr) : Prop where
  applied : ∀ rest, Reads (.level .applied e) (e.tokens ++ rest) rest
  inside : e.InParentheses → ∃ inner, e.tokens = fixed .lparen :: (inner ++ [fixed .rparen]) ∧
    ∀ rest, Reads (.expression e) (inner ++ fixed .rparen :: rest) (fixed .rparen :: rest)

namespace Expr.Rereads

theorem of_atom {e : Expr} (hplain : ¬ e.InParentheses)
    (h : ∀ rest, Reads (.level .atom e) (e.tokens ++ rest) rest) : e.Rereads :=
  ⟨fun rest => .looser rfl (h rest), fun hinside => (hplain hinside).elim⟩

theorem of_inside {e : Expr} (inner : List Token)
    (htokens : e.tokens = fixed .lparen :: (inner ++ [fixed .rparen]))
    (h : ∀ rest, Reads (.expression e) (inner ++ fixed .rparen :: rest) (fixed .rparen :: rest)) :
    e.Rereads := by
  constructor
  · intro rest
    rw [htokens, List.cons_append, List.append_assoc]
    exact .looser rfl (.group (h rest))
  · intro _
    exact ⟨inner, htokens, h⟩

theorem level {e : Expr} (h : e.Rereads) (level : Level) (hlevel : level.rank ≤ 6)
    (rest : List Token) : Reads (.level level e) (e.tokens ++ rest) rest :=
  (h.applied rest).loosen hlevel

theorem whole {e : Expr} (h : e.Rereads) {rest : List Token}
    (hend : ¬ Continues (kindAhead rest)) : Reads (.expression e) (e.tokens ++ rest) rest :=
  .expression (h.level .equality (by decide) rest) hend

end Expr.Rereads

theorem stands_each {es : List Expr} (h : ∀ e ∈ es, e.Rereads) :
    List.Forall₂ Stands es (Expr.tokensEach es) := by
  induction es with
  | nil => exact .nil
  | cons e es ih =>
      rw [List.forall_mem_cons] at h
      exact .cons (fun _ hend => h.1.whole hend) (ih h.2)

theorem stands_pairs {pairs : List (Expr × Expr)} (h : ∀ p ∈ pairs, p.1.Rereads ∧ p.2.Rereads) :
    List.Forall₂ StandsPair pairs (Expr.tokensPairs pairs) := by
  induction pairs with
  | nil => exact .nil
  | cons p pairs ih =>
      rw [List.forall_mem_cons] at h
      refine .cons ⟨_, _, rfl, ?_, ?_⟩ (ih h.2)
      · exact fun _ hend => h.1.1.whole hend
      · exact fun _ hend => h.1.2.whole hend

section Statements

/-- How the words of a statement can be read: an expression only where nothing behind it continues
it. -/
def Stmt.Rereads (s : Stmt) : Prop :=
  ∀ rest, ((∃ e, s = .expr e) → ¬ Continues (kindAhead rest) ∧ kindAhead rest ≠ .semicolon) →
    Reads (.statement s) (s.tokens ++ rest) rest

theorem Leads.not_continues {c : Char} {kind : Token.Kind} (h : Leads c kind) (hparen : c ≠ '(')
    (hbracket : c ≠ '[') : ¬ Continues kind ∧ kind ≠ .semicolon := by
  have hkind : kind ∈ [Token.Kind.ident, .trueWord, .falseWord, .ifWord, .fnWord, .int, .string,
      .lbrace] := by
    rcases h with ⟨-, h⟩ | ⟨-, rfl⟩ | ⟨-, rfl⟩ | ⟨h, -⟩ | ⟨h, -⟩ | ⟨-, rfl⟩
    · exact List.mem_append_left [.int, .string, .lbrace] h
    · decide
    · decide
    · exact absurd h hparen
    · exact absurd h hbracket
    · decide
  have hnone : Continuation.ofKind? kind = none ∧ kind ≠ .semicolon := by
    clear h
    revert kind
    decide
  exact ⟨not_continues_of_ofKind? hnone.1, hnone.2⟩

theorem Stmt.not_continues_tokens {t : Stmt} (hlexical : t.Lexical) (h : ¬ t.Reopens)
    (rest : List Token) : ¬ Continues (kindAhead (t.tokens ++ rest)) ∧
      kindAhead (t.tokens ++ rest) ≠ .semicolon := by
  cases t with
  | bind name value =>
      rw [Stmt.tokens, List.cons_append]
      exact ⟨not_continues_fixed rfl _, Token.Kind.noConfusion⟩
  | ret value =>
      cases value with
      | none => exact ⟨not_continues_fixed rfl _, Token.Kind.noConfusion⟩
      | some value =>
          rw [Stmt.tokens, List.cons_append]
          exact ⟨not_continues_fixed rfl _, Token.Kind.noConfusion⟩
  | expr e =>
      obtain ⟨c, token, hrender, htokens, hleads⟩ := e.leads hlexical
      obtain ⟨tokens, heq⟩ := List.head?_eq_some_iff.mp htokens
      rw [Stmt.tokens, heq, List.cons_append, kindAhead_cons]
      apply hleads.not_continues
      · rintro rfl
        exact h ⟨e, rfl, .inl hrender⟩
      · rintro rfl
        exact h ⟨e, rfl, .inr hrender⟩

theorem reads_statements {ss : List Stmt} (hlexical : Stmt.LexicalEach ss)
    (hapart : Stmt.Apart ss)
    (h : ∀ s ∈ ss, s.Rereads) (rest : List Token)
    (hrest : kindAhead rest = .rbrace ∨ kindAhead rest = .eof) :
    Reads (.statements ss) ((Stmt.tokensEach ss).flatten ++ rest) rest := by
  induction ss with
  | nil => exact .noStatements
  | cons s ss ih =>
      rw [List.forall_mem_cons] at h
      have happart' : Stmt.Apart ss := by
        cases ss with
        | nil => trivial
        | cons t ss => exact hapart.2
      rw [Stmt.tokensEach, List.flatten_cons, List.append_assoc]
      refine .statements (h.1 _ ?_) (ih hlexical.2 happart' h.2)
      intro hexpr
      cases ss with
      | nil =>
          change ¬ Continues (kindAhead rest) ∧ kindAhead rest ≠ .semicolon
          rcases hrest with hkind | hkind
          · rw [hkind]
            exact ⟨not_continues_of_ofKind? rfl, Token.Kind.noConfusion⟩
          · rw [hkind]
            exact ⟨not_continues_of_ofKind? rfl, Token.Kind.noConfusion⟩
      | cons t ss =>
          rw [Stmt.tokensEach, List.flatten_cons, List.append_assoc]
          exact Stmt.not_continues_tokens hlexical.2.1 (fun hopen => hapart.1 ⟨hexpr, hopen⟩) _

theorem reads_block {ss : List Stmt} (hlexical : Stmt.LexicalEach ss) (hapart : Stmt.Apart ss)
    (h : ∀ s ∈ ss, s.Rereads) (rest : List Token) :
    Reads (.block ss) (Token.braced (Stmt.tokensEach ss) ++ rest) rest := by
  have hstatements := reads_statements hlexical hapart h (fixed .rbrace :: rest) (.inl rfl)
  rw [Token.braced, List.cons_append, List.append_assoc]
  exact .closed hstatements

end Statements

section Trees

theorem Expr.rereads_unary {op : UnaryOp} {operand : Expr} (h : operand.Rereads) :
    (Expr.unary op operand).Rereads := by
  refine .of_inside (fixed op.kind :: operand.tokens) rfl ?_
  intro rest
  have hunary : Reads (.level .unary (.unary op operand))
      (fixed op.kind :: (operand.tokens ++ fixed .rparen :: rest)) (fixed .rparen :: rest) :=
    .unary (h.level .unary (by decide) _)
  exact .expression (hunary.loosen (by decide)) (not_continues_fixed rfl rest)

theorem Expr.rereads_binary {left right : Expr} {op : BinaryOp} (hleft : left.Rereads)
    (hright : right.Rereads) : (Expr.binary left op right).Rereads := by
  refine .of_inside (left.tokens ++ fixed op.kind :: right.tokens) ?_ ?_
  · simp [Expr.tokens]
  · intro rest
    have hrank := op.level_rank_le
    obtain ⟨tighter, hnext⟩ := Level.exists_next? op.level (by omega)
    have htighter := Level.rank_of_next? hnext
    have hbinary : Reads (.level op.level (.binary left op right))
        (left.tokens ++ fixed op.kind :: (right.tokens ++ fixed .rparen :: rest))
        (fixed .rparen :: rest) :=
      .binary hnext (hleft.level op.level (by omega) _) (hright.level tighter (by omega) _)
    rw [List.append_assoc, List.cons_append]
    exact .expression (hbinary.loosen (by cases op <;> decide)) (not_continues_fixed rfl rest)

theorem Expr.rereads_index {collection position : Expr} (hcollection : collection.Rereads)
    (hposition : position.Rereads) : (Expr.index collection position).Rereads := by
  refine .of_inside
    (collection.tokens ++ fixed .lbracket :: (position.tokens ++ [fixed .rbracket])) ?_ ?_
  · simp [Expr.tokens]
  · intro rest
    have hindex : Reads (.level .applied (.index collection position))
        (collection.tokens ++ fixed .lbracket :: (position.tokens ++
          fixed .rbracket :: fixed .rparen :: rest)) (fixed .rparen :: rest) :=
      .index (hcollection.applied _) (hposition.whole (not_continues_fixed rfl _))
    simp only [List.append_assoc, List.cons_append, List.nil_append]
    exact .expression (hindex.loosen (by decide)) (not_continues_fixed rfl rest)

theorem Expr.rereads_call {callee : Expr} {args : List Expr} (hcallee : callee.Rereads)
    (hargs : ∀ e ∈ args, e.Rereads) : (Expr.call callee args).Rereads := by
  constructor
  · intro rest
    simp only [Expr.tokens, List.append_assoc, List.cons_append, List.nil_append]
    exact .call (hcallee.applied _) (reads_items (stands_each hargs) rfl rest)
  · exact False.elim

theorem Expr.rereads_cond {condition : Expr} {yes : Block} {no : Option Block}
    (hinside : condition.InParentheses) (hcondition : condition.Rereads)
    (hyes : ∀ rest, Reads (.block yes) (Token.braced (Stmt.tokensEach yes) ++ rest) rest)
    (hno : ∀ block, no = some block →
      ∀ rest, Reads (.block block) (Token.braced (Stmt.tokensEach block) ++ rest) rest) :
    (Expr.cond condition yes no).Rereads := by
  obtain ⟨inner, htokens, hinner⟩ := hcondition.inside hinside
  refine .of_atom id ?_
  intro rest
  simp only [Expr.tokens, htokens, List.append_assoc, List.cons_append, List.nil_append]
  cases no with
  | none => exact .cond (hinner _) (hyes rest)
  | some block => exact .condElse (hinner _) (hyes _) (hno block rfl rest)

mutual

/-- The words of an expression can be read back as the expression. -/
theorem Expr.rereads : ∀ e : Expr, e.Lexical → e.Delimited → e.Rereads
  | .ident _, _, _ => .of_atom id fun _ => .ident
  | .int value, h, _ => by
      obtain ⟨hle, hvalue⟩ := Text.Decimal.value_ofInt64 h
      refine .of_atom id ?_
      intro rest
      have hreads : Reads (.level .atom _) (⟨.int, Text.Decimal.ofInt64 value⟩ :: rest) rest :=
        .int hle
      rwa [hvalue] at hreads
  | .string _, _, _ => .of_atom id fun _ => .string
  | .bool true, _, _ => .of_atom id fun _ => .trueWord
  | .bool false, _, _ => .of_atom id fun _ => .falseWord
  | .unary _ operand, h, hd => Expr.rereads_unary (operand.rereads h hd)
  | .binary left _ right, h, hd =>
      Expr.rereads_binary (left.rereads h.1 hd.1) (right.rereads h.2 hd.2)
  | .cond condition yes no, h, hd => by
      refine Expr.rereads_cond hd.1 (condition.rereads h.1 hd.2.1) ?_ ?_
      · exact reads_block h.2.1 hd.2.2.1.1 (Stmt.rereadsEach yes h.2.1 hd.2.2.1.2)
      · exact Stmt.rereadsElse no h.2.2 hd.2.2.2
  | .fn _ params body, h, hd => by
      have hbody := reads_block h.2 hd.1 (Stmt.rereadsEach body h.2 hd.2)
      refine .of_atom id ?_
      intro rest
      simp only [Expr.tokens, List.append_assoc, List.cons_append]
      exact .fn (reads_params params _) (hbody rest)
  | .call callee args, h, hd =>
      Expr.rereads_call (callee.rereads h.1 hd.1) (Expr.rereadsEach args h.2 hd.2)
  | .array elements, h, hd => by
      have helements := Expr.rereadsEach elements h hd
      refine .of_atom id ?_
      intro rest
      simp only [Expr.tokens, List.append_assoc, List.cons_append, List.nil_append]
      exact .array (reads_items (stands_each helements) rfl rest)
  | .index collection position, h, hd =>
      Expr.rereads_index (collection.rereads h.1 hd.1) (position.rereads h.2 hd.2)
  | .hash pairs, h, hd => by
      have hpairs := Expr.rereadsPairs pairs h hd
      refine .of_atom id ?_
      intro rest
      simp only [Expr.tokens, List.append_assoc, List.cons_append, List.nil_append]
      exact .hash (reads_pairs (stands_pairs hpairs) rest)

theorem Expr.rereadsEach : ∀ es : List Expr, Expr.LexicalEach es → Expr.DelimitedEach es →
    ∀ e ∈ es, e.Rereads
  | [], _, _ => by simp
  | e :: es, h, hd => by
      rw [List.forall_mem_cons]
      exact ⟨e.rereads h.1 hd.1, Expr.rereadsEach es h.2 hd.2⟩

theorem Expr.rereadsPairs : ∀ pairs : List (Expr × Expr), Expr.LexicalPairs pairs →
    Expr.DelimitedPairs pairs → ∀ p ∈ pairs, p.1.Rereads ∧ p.2.Rereads
  | [], _, _ => by simp
  | (key, value) :: pairs, h, hd => by
      rw [List.forall_mem_cons]
      exact ⟨⟨key.rereads h.1 hd.1, value.rereads h.2.1 hd.2.1⟩,
        Expr.rereadsPairs pairs h.2.2 hd.2.2⟩

theorem Stmt.rereads : ∀ s : Stmt, s.Lexical → s.Delimited → s.Rereads
  | .bind name value, h, hd, rest, _ => by
      simp only [Stmt.tokens, List.append_assoc, List.cons_append, List.nil_append]
      exact .bind ((value.rereads h.2 hd).whole (not_continues_fixed rfl _)) .semicolon
  | .ret none, _, _, rest, _ => .bareReturn (.inl rfl) .semicolon
  | .ret (some value), h, hd, rest, _ => by
      simp only [Stmt.tokens, List.append_assoc, List.cons_append, List.nil_append]
      exact .ret ((value.rereads h hd).whole (not_continues_fixed rfl _)) .semicolon
  | .expr value, h, hd, rest, hrest => by
      obtain ⟨hend, hsemicolon⟩ := hrest ⟨value, rfl⟩
      exact .expr ((value.rereads h hd).whole hend) (.missing hsemicolon)

theorem Stmt.rereadsEach : ∀ ss : List Stmt, Stmt.LexicalEach ss → Stmt.DelimitedEach ss →
    ∀ s ∈ ss, s.Rereads
  | [], _, _ => by simp
  | s :: ss, h, hd => by
      rw [List.forall_mem_cons]
      exact ⟨s.rereads h.1 hd.1, Stmt.rereadsEach ss h.2 hd.2⟩

theorem Stmt.rereadsElse :
    ∀ no : Option (List Stmt), Stmt.LexicalElse no → Stmt.DelimitedElse no →
    ∀ block, no = some block →
      ∀ rest, Reads (.block block) (Token.braced (Stmt.tokensEach block) ++ rest) rest
  | none, _, _ => by simp
  | some block, h, hd => by
      rintro _ ⟨⟩
      exact reads_block h hd.1 (Stmt.rereadsEach block h hd.2)

end

end Trees

/-- A listing is read back as the program it lists. -/
theorem Program.parse_listing {program : Program} (h : program.Renderable) :
    Program.parse program.listing = .ok program := by
  obtain ⟨hlexical, hapart, hdelimited⟩ := h
  rw [Program.parse_eq_ok_iff_reads, Program.words_listing hlexical]
  have hreads :=
    reads_statements hlexical hapart (Stmt.rereadsEach program hlexical hdelimited) []
    (.inr rfl)
  rwa [List.append_nil] at hreads

/-- A call of a function whose body is a branch, behind a binding. -/
theorem Program.parse_listing_branch :
    Program.Renderable [.bind "xs" (.array [.int 1, .string "a\"b"]),
      .expr (.call (.fn () ["n"]
        [.expr (.cond (.binary (.ident "n") .lt (.unary .negate (.int 2)))
          [.ret (some (.index (.ident "xs") (.int 0)))] (some [.ret none]))]) [.hash []])] ∧
    Program.parse (Program.listing [.bind "xs" (.array [.int 1, .string "a\"b"]),
      .expr (.call (.fn () ["n"]
        [.expr (.cond (.binary (.ident "n") .lt (.unary .negate (.int 2)))
          [.ret (some (.index (.ident "xs") (.int 0)))] (some [.ret none]))]) [.hash []])]) =
    .ok [.bind "xs" (.array [.int 1, .string "a\"b"]),
      .expr (.call (.fn () ["n"]
        [.expr (.cond (.binary (.ident "n") .lt (.unary .negate (.int 2)))
          [.ret (some (.index (.ident "xs") (.int 0)))] (some [.ret none]))]) [.hash []])] := by
  have hxs : IsName "xs" := by decide
  have hn : IsName "n" := by decide
  rw [and_iff_left_of_imp Program.parse_listing]
  refine ⟨?_, ?_, ?_⟩
  · simp [Stmt.LexicalEach, Stmt.Lexical, Expr.Lexical, Expr.LexicalEach, Expr.LexicalPairs,
      Stmt.LexicalElse, hxs, hn]
  · simp [Stmt.Apart]
  · simp [Stmt.DelimitedEach, Stmt.Delimited, Expr.Delimited, Expr.DelimitedEach,
      Expr.DelimitedPairs, Stmt.DelimitedElse, Expr.InParentheses, Stmt.Apart]

end ScriptLang
