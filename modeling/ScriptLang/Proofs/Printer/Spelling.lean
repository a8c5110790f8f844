import ScriptLang.Program.Precedence
import ScriptLang.Proofs.Parser.Exactness
import ScriptLang.Proofs.Printer.Lists

namespace ScriptLang

open Grammar
open ScriptLang.Text
open Token (fixed separated words Break)

section Definitions

/-- How tightly the topmost operator of an expression binds.  A call and an index count as
operators. -/
def Expr.binding? : Expr → Option Precedence
  | .unary _ _ => some .unary
  | .binary _ op _ => some op.precedence
  | .call _ _ => some .call
  | .index _ _ => some .index
  | .ident _ | .int _ | .string _ | .bool _ | .cond _ _ _ | .fn _ _ _ | .array _ | .hash _ => none

/-- The topmost operator binds looser than that. -/
def Expr.looserThan (e : Expr) (precedence : Precedence) : Bool :=
  e.binding?.any (· < precedence)

/-- The topmost operator binds looser than that or as loosely. -/
def Expr.noTighterThan (e : Expr) (precedence : Precedence) : Bool :=
  e.binding?.any (· ≤ precedence)

/-- Tokens in parentheses, if they need any. -/
def Token.enclosed (needed : Bool) (tokens : List Token) : List Token :=
  if needed then fixed .lparen :: (tokens ++ [fixed .rparen]) else tokens

mutual

/-- The tokens with which an expression is spelled.  Of what is called or indexed only the
operators before and between operands need parentheses, and of the operand of an operator before
it only those between operands. -/
def Expr.spelled : Expr → List Token
  | .ident name => [⟨.ident, name⟩]
  | .int value => [⟨.int, Decimal.ofInt64 value⟩]
  | .string text => [⟨.string, text⟩]
  | .bool true => [fixed .trueWord]
  | .bool false => [fixed .falseWord]
  | .unary op operand =>
      fixed op.kind :: Token.enclosed (operand.looserThan .unary) operand.spelled
  | .binary left op right =>
      Token.enclosed (left.looserThan op.precedence) left.spelled ++
        fixed op.kind :: Token.enclosed (right.noTighterThan op.precedence) right.spelled
  | .cond condition yes no =>
      fixed .ifWord :: fixed .lparen :: (condition.spelled ++
        fixed .rparen :: (Token.braced (Stmt.spelledEach yes) ++ Stmt.spelledElse no))
  | .fn _ params body =>
      fixed .fnWord :: fixed .lparen :: (separated (params.map fun name => [⟨.ident, name⟩]) ++
        fixed .rparen :: Token.braced (Stmt.spelledEach body))
  | .call callee args =>
      Token.enclosed (callee.looserThan .call) callee.spelled ++
        fixed .lparen :: (separated (Expr.spelledEach args) ++ [fixed .rparen])
  | .array elements =>
      fixed .lbracket :: (separated (Expr.spelledEach elements) ++ [fixed .rbracket])
  | .index collection position =>
      Token.enclosed (collection.looserThan .call) collection.spelled ++
        fixed .lbracket :: (position.spelled ++ [fixed .rbracket])
  | .hash pairs => fixed .lbrace :: (separated (Expr.spelledPairs pairs) ++ [fixed .rbrace])

def Expr.spelledEach : List Expr → List (List Token)
  | [] => []
  | e :: es => e.spelled :: Expr.spelledEach es

def Expr.spelledPairs : List (Expr × Expr) → List (List Token)
  | [] => []
  | (key, value) :: pairs =>
      (key.spelled ++ fixed .colon :: value.spelled) :: Expr.spelledPairs pairs

/-- The tokens with which a statement is spelled, a semicolon last. -/
def Stmt.spelled : Stmt → List Token
  | .bind name value =>
      fixed .letWord :: ⟨.ident, name⟩ :: fixed .assign :: (value.spelled ++ [fixed .semicolon])
  | .ret none => [fixed .returnWord, fixed .semicolon]
  | .ret (some value) => fixed .returnWord :: (value.spelled ++ [fixed .semicolon])
  | .expr value => value.spelled ++ [fixed .semicolon]

def Stmt.spelledEach : List Stmt → List (List Token)
  | [] => []
  | s :: ss => s.spelled :: Stmt.spelledEach ss

def Stmt.spelledElse : Option (List Stmt) → List Token
  | none => []
  | some block => fixed .elseWord :: Token.braced (Stmt.spelledEach block)

end

/-- How a token is written: as it reads, but a text in quotes. -/
def Token.written (token : Token) : String :=
  if token.kind = .string then Literal.quote token.literal else token.literal

/-- The text of a program with a space between any two tokens. -/
def Program.spelling (program : Program) : String :=
  " ".intercalate ((Stmt.spelledEach program).flatten.map Token.written)

end Definitions

section Words

/-- With a space or nothing behind it the token is read as it is written. -/
def Token.Clear (token : Token) : Prop :=
  ∀ rest, rest = [] ∨ rest.head? = some ' ' →
    words (token.written.toList ++ rest) = token :: words rest

def Token.AllClear (tokens : List Token) : Prop :=
  ∀ token ∈ tokens, token.Clear

theorem apart_behind {tokens : List Token} (h : Token.AllClear tokens) :
    let text := tokens.flatMap fun token => ' ' :: token.written.toList
    (text = [] ∨ text.head? = some ' ') ∧ words text = tokens := by
  induction tokens with
  | nil => exact ⟨.inl rfl, Token.words_nil⟩
  | cons token tokens ih =>
      rw [Token.AllClear, List.forall_mem_cons] at h
      obtain ⟨hend, hwords⟩ := ih h.2
      refine ⟨.inr rfl, ?_⟩
      rw [List.flatMap_cons, List.cons_append, Token.words_space, h.1 _ hend, hwords]

theorem words_apart {tokens : List Token} (h : Token.AllClear tokens) :
    words (" ".intercalate (tokens.map Token.written)).toList = tokens := by
  cases tokens with
  | nil => exact Token.words_nil
  | cons token tokens =>
      rw [Token.AllClear, List.forall_mem_cons] at h
      obtain ⟨hend, hwords⟩ := apart_behind h.2
      rw [List.map_cons, toList_intercalate_cons, List.flatMap_map]
      exact (h.1 _ hend).trans (congrArg (token :: ·) hwords)

section Clear

theorem break_of_apart {rest : List Char} (h : rest = [] ∨ rest.head? = some ' ') :
    Break rest := by
  rcases h with rfl | h
  · exact Token.break_nil
  · obtain ⟨more, rfl⟩ := List.head?_eq_some_iff.mp h
    exact Token.break_separator rfl more

theorem clear_fixed {kind : Token.Kind} (h : kind.text ≠ "") : (fixed kind).Clear := by
  intro rest hrest
  have hbreak := break_of_apart hrest
  cases kind with
  | illegal | eof | ident | int | string => exact absurd rfl h
  | assign | eq | bang | notEq =>
      rcases hrest with rfl | hrest
      · exact Token.words_cons rfl _
      · obtain ⟨more, rfl⟩ := List.head?_eq_some_iff.mp hrest
        exact Token.words_cons rfl _
  | fnWord | letWord | ifWord | elseWord | returnWord | trueWord | falseWord =>
      exact words_keyword _ (by decide) hbreak
  | plus | minus | asterisk | slash | lt | gt | comma | semicolon | colon | lparen | rparen
    | lbrace | rbrace | lbracket | rbracket => exact Token.words_mark rfl rest

theorem clear_name {name : String} (h : IsName name) : Token.Clear ⟨.ident, name⟩ :=
  fun _ hrest => words_name h (break_of_apart hrest)

theorem clear_number {value : Int64} (h : 0 ≤ value) :
    Token.Clear ⟨.int, Decimal.ofInt64 value⟩ := by
  intro rest hrest
  rw [Decimal.ofInt64_of_nonneg h]
  exact Token.words_digits (Decimal.toList_ofNat_ne_nil _)
    (fun c hc => Decimal.isDigit_of_mem_ofNat hc) (break_of_apart hrest)

theorem clear_string (text : String) : Token.Clear ⟨.string, text⟩ := by
  intro rest _
  have htext : (Token.written ⟨.string, text⟩).toList ++ rest =
      '"' :: (text.toList.flatMap Literal.escapeChar ++ '"' :: rest) := by
    simp [Token.written, Literal.quote, Literal.escape]
  rw [htext, Token.words_quote, Literal.read_escape, String.ofList_toList]

namespace Token.AllClear

variable {token : Token} {tokens tokens' : List Token} {lists : List (List Token)}

theorem nil : AllClear [] := by
  simp [AllClear]

theorem cons (hfirst : token.Clear) (h : AllClear tokens) : AllClear (token :: tokens) :=
  List.forall_mem_cons.mpr ⟨hfirst, h⟩

theorem append (h : AllClear tokens) (h' : AllClear tokens') : AllClear (tokens ++ tokens') :=
  List.forall_mem_append.mpr ⟨h, h'⟩

theorem single (h : token.Clear) : AllClear [token] :=
  nil.cons h

theorem enclosed (h : AllClear tokens) (needed : Bool) :
    AllClear (Token.enclosed needed tokens) := by
  cases needed with
  | false => exact h
  | true => exact .cons (clear_fixed (by decide)) (h.append (.single (clear_fixed (by decide))))

theorem separated (h : ∀ tokens ∈ lists, AllClear tokens) : AllClear (Token.separated lists) := by
  cases lists with
  | nil => exact nil
  | cons first others =>
      rw [List.forall_mem_cons] at h
      refine h.1.append ?_
      intro token htoken
      obtain ⟨tokens, htokens, htoken⟩ := List.mem_flatMap.mp htoken
      exact cons (clear_fixed (by decide)) (h.2 tokens htokens) token htoken

theorem braced (h : ∀ tokens ∈ lists, AllClear tokens) : AllClear (Token.braced lists) := by
  refine cons (clear_fixed (by decide)) (append ?_ (single (clear_fixed (by decide))))
  intro token htoken
  obtain ⟨tokens, htokens, htoken⟩ := List.mem_flatten.mp htoken
  exact h tokens htokens token htoken

theorem names {params : List String} (h : ∀ name ∈ params, IsName name) :
    AllClear (Token.separated (params.map fun name => [⟨.ident, name⟩])) := by
  apply separated
  intro tokens htokens
  obtain ⟨name, hname, rfl⟩ := List.mem_map.mp htokens
  exact single (clear_name (h name hname))

end Token.AllClear

theorem clear_unary (op : UnaryOp) : (fixed op.kind).Clear := by
  cases op <;> exact clear_fixed (by decide)

theorem clear_binary (op : BinaryOp) : (fixed op.kind).Clear := by
  cases op <;> exact clear_fixed (by decide)

end Clear

mutual

theorem Expr.clear : ∀ e : Expr, e.Lexical → Token.AllClear e.spelled
  | .ident name, h => .single (clear_name h)
  | .int value, h => .single (clear_number h)
  | .string text, _ => .single (clear_string text)
  | .bool true, _ => .single (clear_fixed (by decide))
  | .bool false, _ => .single (clear_fixed (by decide))
  | .unary op operand, h => .cons (clear_unary op) ((operand.clear h).enclosed _)
  | .binary left op right, h => by
      rw [Expr.spelled]
      exact .append ((left.clear h.1).enclosed _)
        (.cons (clear_binary op) ((right.clear h.2).enclosed _))
  | .cond condition yes no, h => by
      have hblocks := (Token.AllClear.braced (Stmt.clearEach yes h.2.1)).append
        (Stmt.clearElse no h.2.2)
      rw [Expr.spelled]
      exact .cons (clear_fixed (by decide)) (.cons (clear_fixed (by decide))
        (.append (condition.clear h.1) (.cons (clear_fixed (by decide)) hblocks)))
  | .fn _ params body, h => by
      have hbody := Token.AllClear.braced (Stmt.clearEach body h.2)
      rw [Expr.spelled]
      exact .cons (clear_fixed (by decide)) (.cons (clear_fixed (by decide))
        (.append (.names h.1) (.cons (clear_fixed (by decide)) hbody)))
  | .call callee args, h => by
      have hargs := Token.AllClear.separated (Expr.clearEach args h.2)
      rw [Expr.spelled]
      exact .append ((callee.clear h.1).enclosed _) (.cons (clear_fixed (by decide))
        (hargs.append (.single (clear_fixed (by decide)))))
  | .array elements, h => by
      have helements := Token.AllClear.separated (Expr.clearEach elements h)
      rw [Expr.spelled]
      exact .cons (clear_fixed (by decide)) (helements.append (.single (clear_fixed (by decide))))
  | .index collection position, h => by
      rw [Expr.spelled]
      exact .append ((collection.clear h.1).enclosed _) (.cons (clear_fixed (by decide))
        ((position.clear h.2).append (.single (clear_fixed (by decide)))))
  | .hash pairs, h => by
      have hpairs := Token.AllClear.separated (Expr.clearPairs pairs h)
      rw [Expr.spelled]
      exact .cons (clear_fixed (by decide)) (hpairs.append (.single (clear_fixed (by decide))))

theorem Expr.clearEach : ∀ es : List Expr, Expr.LexicalEach es →
    ∀ tokens ∈ Expr.spelledEach es, Token.AllClear tokens
  | [], _ => by simp [Expr.spelledEach]
  | e :: es, h => by
      rw [Expr.spelledEach, List.forall_mem_cons]
      exact ⟨e.clear h.1, Expr.clearEach es h.2⟩

theorem Expr.clearPairs : ∀ pairs : List (Expr × Expr), Expr.LexicalPairs pairs →
    ∀ tokens ∈ Expr.spelledPairs pairs, Token.AllClear tokens
  | [], _ => by simp [Expr.spelledPairs]
  | (key, value) :: pairs, h => by
      rw [Expr.spelledPairs, List.forall_mem_cons]
      refine ⟨?_, Expr.clearPairs pairs h.2.2⟩
      exact (key.clear h.1).append (.cons (clear_fixed (by decide)) (value.clear h.2.1))

theorem Stmt.clear : ∀ s : Stmt, s.Lexical → Token.AllClear s.spelled
  | .bind name value, h => by
      rw [Stmt.spelled]
      exact .cons (clear_fixed (by decide))
        (.cons (clear_name h.1) (.cons (clear_fixed (by decide))
        ((value.clear h.2).append (.single (clear_fixed (by decide))))))
  | .ret none, _ => .cons (clear_fixed (by decide)) (.single (clear_fixed (by decide)))
  | .ret (some value), h =>
      .cons (clear_fixed (by decide)) ((value.clear h).append (.single (clear_fixed (by decide))))
  | .expr value, h => (value.clear h).append (.single (clear_fixed (by decide)))

theorem Stmt.clearEach : ∀ ss : List Stmt, Stmt.LexicalEach ss →
    ∀ tokens ∈ Stmt.spelledEach ss, Token.AllClear tokens
  | [], _ => by simp [Stmt.spelledEach]
  | s :: ss, h => by
      rw [Stmt.spelledEach, List.forall_mem_cons]
      exact ⟨s.clear h.1, Stmt.clearEach ss h.2⟩

theorem Stmt.clearElse : ∀ no : Option (List Stmt), Stmt.LexicalElse no →
    Token.AllClear (Stmt.spelledElse no)
  | none, _ => .nil
  | some block, h => .cons (clear_fixed (by decide)) (.braced (Stmt.clearEach block h))

end

theorem Program.words_spelling {program : Program} (h : Stmt.LexicalEach program) :
    words program.spelling.toList = (Stmt.spelledEach program).flatten := by
  apply words_apart
  intro token htoken
  obtain ⟨tokens, htokens, htoken⟩ := List.mem_flatten.mp htoken
  exact Stmt.clearEach program h tokens htokens token htoken

end Words

section Readings

/-- The level of an expression that is spelled without parentheses around it. -/
def Expr.level : Expr → Level
  | .unary _ _ => .unary
  | .binary _ op _ => op.level
  | .call _ _ => .applied
  | .index _ _ => .applied
  | .ident _ | .int _ | .string _ | .bool _ | .cond _ _ _ | .fn _ _ _ | .array _ | .hash _ =>
      .atom

theorem Precedence.rank_le_of_not_lt {p q : Precedence} (h : decide (q < p) = false) :
    p.rank ≤ q.rank :=
  Nat.le_of_not_lt (of_decide_eq_false h)

theorem Precedence.rank_lt_of_not_le {p q : Precedence} (h : decide (q ≤ p) = false) :
    p.rank < q.rank :=
  Nat.lt_of_not_le (of_decide_eq_false h)

theorem Expr.rank_le_of_not_looser {e : Expr} {p : Precedence} (h : e.looserThan p = false)
    (hp : p.rank ≤ 6) : p.rank ≤ e.level.rank := by
  cases e with
  | unary op operand => exact Precedence.rank_le_of_not_lt h
  | binary left op right => exact op.precedence_rank ▸ Precedence.rank_le_of_not_lt h
  | call | index => exact hp
  | ident | int | string | bool | cond | fn | array | hash => exact Nat.le_succ_of_le hp

theorem Expr.rank_lt_of_tighter {e : Expr} {p : Precedence} (h : e.noTighterThan p = false)
    (hp : p.rank < 6) : p.rank < e.level.rank := by
  cases e with
  | unary op operand => exact Precedence.rank_lt_of_not_le h
  | binary left op right => exact op.precedence_rank ▸ Precedence.rank_lt_of_not_le h
  | call | index => exact hp
  | ident | int | string | bool | cond | fn | array | hash => exact Nat.lt_succ_of_lt hp

/-- The tokens of an expression can be read at its level, whatever follows them. -/
def Expr.Readable (e : Expr) : Prop :=
  ∀ rest, Reads (.level e.level e) (e.spelled ++ rest) rest

namespace Expr.Readable

variable {e : Expr}

theorem stands (h : e.Readable) : Stands e e.spelled := by
  intro rest hend
  refine .expression ((h rest).loosen ?_) hend
  cases e.level <;> decide

/-- In parentheses where they are needed, an expression can be read at the level in question. -/
theorem enclosed (h : e.Readable) {needed : Bool} {level : Level}
    (hlevel : needed = false → level.rank ≤ e.level.rank) (rest : List Token) :
    Reads (.level level e) (Token.enclosed needed e.spelled ++ rest) rest := by
  cases needed with
  | false => exact (h rest).loosen (hlevel rfl)
  | true =>
      have hinside := h.stands (fixed .rparen :: rest) (not_continues_fixed rfl rest)
      have hgroup : Reads (.level .atom e)
          (fixed .lparen :: (e.spelled ++ fixed .rparen :: rest)) rest := .group hinside
      rw [Token.enclosed, if_pos rfl, List.cons_append, List.append_assoc]
      refine hgroup.loosen ?_
      cases level <;> decide

end Expr.Readable

theorem reads_each {ss : List Stmt}
    (h : ∀ s ∈ ss, ∀ rest, Reads (.statement s) (s.spelled ++ rest) rest) (rest : List Token) :
    Reads (.statements ss) ((Stmt.spelledEach ss).flatten ++ rest) rest := by
  induction ss with
  | nil => exact .noStatements
  | cons s ss ih =>
      rw [List.forall_mem_cons] at h
      rw [Stmt.spelledEach, List.flatten_cons, List.append_assoc]
      exact .statements (h.1 _) (ih h.2)

theorem reads_braced {ss : List Stmt}
    (h : ∀ s ∈ ss, ∀ rest, Reads (.statement s) (s.spelled ++ rest) rest) (rest : List Token) :
    Reads (.block ss) (Token.braced (Stmt.spelledEach ss) ++ rest) rest := by
  rw [Token.braced, List.cons_append, List.append_assoc]
  exact .closed (reads_each h _)

mutual

theorem Expr.readable : ∀ e : Expr, e.Lexical → e.Readable
  | .ident _, _, _ => .ident
  | .int value, h, rest => by
      obtain ⟨hle, hvalue⟩ := Decimal.value_ofInt64 h
      have hreads : Reads (.level .atom _) (⟨.int, Decimal.ofInt64 value⟩ :: rest) rest :=
        .int hle
      rwa [hvalue] at hreads
  | .string _, _, _ => .string
  | .bool true, _, _ => .trueWord
  | .bool false, _, _ => .falseWord
  | .unary op operand, h, rest => by
      have hlevel (hneeded : operand.looserThan .unary = false) :
          Level.unary.rank ≤ operand.level.rank := Expr.rank_le_of_not_looser hneeded (by decide)
      rw [Expr.spelled, List.cons_append]
      exact .unary ((operand.readable h).enclosed hlevel rest)
  | .binary left op right, h, rest => by
      have hrank := op.level_rank_le
      have hsame := op.precedence_rank
      obtain ⟨tighter, hnext⟩ := Level.exists_next? op.level (by omega)
      have htighter := Level.rank_of_next? hnext
      have hleft (hneeded : left.looserThan op.precedence = false) :
          op.level.rank ≤ left.level.rank := by
        rw [← hsame]
        exact Expr.rank_le_of_not_looser hneeded (by omega)
      have hright (hneeded : right.noTighterThan op.precedence = false) :
          tighter.rank ≤ right.level.rank := by
        rw [htighter, ← hsame]
        exact Expr.rank_lt_of_tighter hneeded (by omega)
      rw [Expr.spelled, List.append_assoc, List.cons_append]
      exact .binary hnext ((left.readable h.1).enclosed hleft _)
        ((right.readable h.2).enclosed hright rest)
  | .cond condition yes no, h, rest => by
      have hcondition := (condition.readable h.1).stands
      have hyes := reads_braced (Stmt.readableEach yes h.2.1)
      simp only [Expr.spelled, List.cons_append, List.append_assoc]
      cases no with
      | none => exact .cond (hcondition _ (not_continues_fixed rfl _)) (hyes rest)
      | some block =>
          have hno := reads_braced (Stmt.readableEach block h.2.2)
          exact .condElse (hcondition _ (not_continues_fixed rfl _)) (hyes _) (hno rest)
  | .fn _ params body, h, rest => by
      have hbody := reads_braced (Stmt.readableEach body h.2)
      simp only [Expr.spelled, List.cons_append, List.append_assoc]
      exact .fn (reads_params params _) (hbody rest)
  | .call callee args, h, rest => by
      have hlevel (hneeded : callee.looserThan .call = false) :
          Level.applied.rank ≤ callee.level.rank := Expr.rank_le_of_not_looser hneeded (by decide)
      simp only [Expr.spelled, List.cons_append, List.append_assoc, List.nil_append]
      exact .call ((callee.readable h.1).enclosed hlevel _)
        (reads_items (Expr.standsEach args h.2) rfl rest)
  | .array elements, h, rest => by
      simp only [Expr.spelled, List.cons_append, List.append_assoc, List.nil_append]
      exact .array (reads_items (Expr.standsEach elements h) rfl rest)
  | .index collection position, h, rest => by
      have hlevel (hneeded : collection.looserThan .call = false) :
          Level.applied.rank ≤ collection.level.rank :=
        Expr.rank_le_of_not_looser hneeded (by decide)
      simp only [Expr.spelled, List.cons_append, List.append_assoc, List.nil_append]
      exact .index ((collection.readable h.1).enclosed hlevel _)
        ((position.readable h.2).stands _ (not_continues_fixed rfl _))
  | .hash pairs, h, rest => by
      simp only [Expr.spelled, List.cons_append, List.append_assoc, List.nil_append]
      exact .hash (reads_pairs (Expr.standsPairs pairs h) rest)

theorem Expr.standsEach : ∀ es : List Expr, Expr.LexicalEach es →
    List.Forall₂ Stands es (Expr.spelledEach es)
  | [], _ => .nil
  | e :: es, h => .cons (e.readable h.1).stands (Expr.standsEach es h.2)

theorem Expr.standsPairs : ∀ pairs : List (Expr × Expr), Expr.LexicalPairs pairs →
    List.Forall₂ StandsPair pairs (Expr.spelledPairs pairs)
  | [], _ => .nil
  | (key, value) :: pairs, h =>
      .cons ⟨_, _, rfl, (key.readable h.1).stands, (value.readable h.2.1).stands⟩
        (Expr.standsPairs pairs h.2.2)

theorem Stmt.readable : ∀ s : Stmt, s.Lexical →
    ∀ rest, Reads (.statement s) (s.spelled ++ rest) rest
  | .bind name value, h, rest => by
      simp only [Stmt.spelled, List.cons_append, List.append_assoc, List.nil_append]
      exact .bind ((value.readable h.2).stands _ (not_continues_fixed rfl _)) .semicolon
  | .ret none, _, rest => .bareReturn (.inl rfl) .semicolon
  | .ret (some value), h, rest => by
      simp only [Stmt.spelled, List.cons_append, List.append_assoc, List.nil_append]
      exact .ret ((value.readable h).stands _ (not_continues_fixed rfl _)) .semicolon
  | .expr value, h, rest => by
      simp only [Stmt.spelled, List.cons_append, List.append_assoc, List.nil_append]
      exact .expr ((value.readable h).stands _ (not_continues_fixed rfl _)) .semicolon

theorem Stmt.readableEach : ∀ ss : List Stmt, Stmt.LexicalEach ss →
    ∀ s ∈ ss, ∀ rest, Reads (.statement s) (s.spelled ++ rest) rest
  | [], _ => by simp
  | s :: ss, h => by
      rw [List.forall_mem_cons]
      exact ⟨s.readable h.1, Stmt.readableEach ss h.2⟩

end

end Readings

/-- Every program can be written with no more parentheses than precedence demands: its spelling is
read back as the program. -/
theorem Program.parse_spelling {program : Program} (h : Stmt.LexicalEach program) :
    Program.parse program.spelling = .ok program := by
  rw [Program.parse_eq_ok_iff_reads, Program.words_spelling h]
  have hreads := reads_each (Stmt.readableEach program h) []
  rwa [List.append_nil] at hreads

/-- A difference on the right of a difference, a sum behind a sign, and a call of a negation. -/
theorem Program.parse_spelling_difference :
    let program : Program :=
      [.bind "f" (.fn () ["x"] [.ret (some (.binary (.ident "x") .sub (.binary (.int 3) .sub
        (.unary .negate (.binary (.int 1) .add (.binary (.int 2) .mul (.int 4)))))))]),
      .expr (.index (.call (.unary .not (.ident "f")) [.string "a\"b"]) (.int 0))]
    program.spelling = "let f = fn ( x ) \x7b return x - ( 3 - - ( 1 + 2 * 4 ) ) ; \x7d ; " ++
      "( ! f ) ( \"a\\\"b\" ) [ 0 ] ;" ∧
    Program.parse program.spelling = .ok program := by
  intro program
  have hf : IsName "f" := by decide
  have hx : IsName "x" := by decide
  refine ⟨by decide +kernel, Program.parse_spelling ?_⟩
  simp [program, Stmt.LexicalEach, Stmt.Lexical, Expr.Lexical, Expr.LexicalEach, hf, hx]

end ScriptLang
