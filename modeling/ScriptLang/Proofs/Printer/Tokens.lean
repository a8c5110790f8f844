import Mathlib.Data.List.Forall2
import ScriptLang.Program.Printer
import ScriptLang.Proofs.Grammar.Basic
import ScriptLang.Proofs.Token.Lexemes

namespace ScriptLang

open ScriptLang.Text
open Token (words Break)

namespace Token

/-- How the tokens are written that are always written alike. -/
def Kind.text : Kind → String
  | illegal | eof | ident | int | string => ""
  | assign => "="
  | plus => "+"
  | minus => "-"
  | bang => "!"
  | asterisk => "*"
  | slash => "/"
  | lt => "<"
  | gt => ">"
  | eq => "=="
  | notEq => "!="
  | comma => ","
  | semicolon => ";"
  | colon => ":"
  | lparen => "("
  | rparen => ")"
  | lbrace => "\x7b"
  | rbrace => "\x7d"
  | lbracket => "["
  | rbracket => "]"
  | fnWord => "fn"
  | letWord => "let"
  | ifWord => "if"
  | elseWord => "else"
  | returnWord => "return"
  | trueWord => "true"
  | falseWord => "false"

/-- The token of a kind that is always written alike. -/
def fixed (kind : Kind) : Token := ⟨kind, kind.text⟩

/-- Lists of tokens with commas between them. -/
def separated : List (List Token) → List Token
  | [] => []
  | first :: others => first ++ others.flatMap (fixed .comma :: ·)

/-- The tokens of a block, from those of its statements. -/
def braced (statements : List (List Token)) : List Token :=
  fixed .lbrace :: (statements.flatten ++ [fixed .rbrace])

end Token

open Token (fixed separated)

mutual

/-- The words of the canonical text of an expression. -/
def Expr.tokens : Expr → List Token
  | .ident name => [⟨.ident, name⟩]
  | .int value => [⟨.int, Decimal.ofInt64 value⟩]
  | .string text => [⟨.string, text⟩]
  | .bool true => [fixed .trueWord]
  | .bool false => [fixed .falseWord]
  | .unary op operand => fixed .lparen :: fixed op.kind :: (operand.tokens ++ [fixed .rparen])
  | .binary left op right =>
      fixed .lparen :: (left.tokens ++ fixed op.kind :: (right.tokens ++ [fixed .rparen]))
  | .cond condition yes no =>
      fixed .ifWord :: (condition.tokens ++
        (Token.braced (Stmt.tokensEach yes) ++ Stmt.tokensElse no))
  | .fn _ params body =>
      fixed .fnWord :: fixed .lparen :: (separated (params.map fun name => [⟨.ident, name⟩]) ++
        fixed .rparen :: Token.braced (Stmt.tokensEach body))
  | .call callee args =>
      callee.tokens ++ fixed .lparen :: (separated (Expr.tokensEach args) ++ [fixed .rparen])
  | .array elements =>
      fixed .lbracket :: (separated (Expr.tokensEach elements) ++ [fixed .rbracket])
  | .index collection position =>
      fixed .lparen :: (collection.tokens ++
        fixed .lbracket :: (position.tokens ++ [fixed .rbracket, fixed .rparen]))
  | .hash pairs => fixed .lbrace :: (separated (Expr.tokensPairs pairs) ++ [fixed .rbrace])

def Expr.tokensEach : List Expr → List (List Token)
  | [] => []
  | e :: es => e.tokens :: Expr.tokensEach es

def Expr.tokensPairs : List (Expr × Expr) → List (List Token)
  | [] => []
  | (key, value) :: pairs =>
      (key.tokens ++ fixed .colon :: value.tokens) :: Expr.tokensPairs pairs

def Stmt.tokens : Stmt → List Token
  | .bind name value =>
      fixed .letWord :: ⟨.ident, name⟩ :: fixed .assign :: (value.tokens ++ [fixed .semicolon])
  | .ret none => [fixed .returnWord, fixed .semicolon]
  | .ret (some value) => fixed .returnWord :: (value.tokens ++ [fixed .semicolon])
  | .expr value => value.tokens

def Stmt.tokensEach : List Stmt → List (List Token)
  | [] => []
  | s :: ss => s.tokens :: Stmt.tokensEach ss

def Stmt.tokensElse : Option (List Stmt) → List Token
  | none => []
  | some block => fixed .elseWord :: Token.braced (Stmt.tokensEach block)

end

/-- Letters that are no keyword. -/
def IsName (name : String) : Prop :=
  name.toList ≠ [] ∧ (∀ c ∈ name.toList, isLetter c = true) ∧ Token.Kind.ofWord name = .ident

instance (name : String) : Decidable (IsName name) :=
  decidable_of_iff
    (name.toList ≠ [] ∧ name.toList.all isLetter = true ∧ Token.Kind.ofWord name = .ident)
    (by rw [IsName, List.all_eq_true])

mutual

/-- Every name in an expression is a name, and no number is negative. -/
def Expr.Lexical : Expr → Prop
  | .ident name => IsName name
  | .int value => 0 ≤ value
  | .string _ => True
  | .bool _ => True
  | .unary _ operand => operand.Lexical
  | .binary left _ right => left.Lexical ∧ right.Lexical
  | .cond condition yes no => condition.Lexical ∧ Stmt.LexicalEach yes ∧ Stmt.LexicalElse no
  | .fn _ params body => (∀ name ∈ params, IsName name) ∧ Stmt.LexicalEach body
  | .call callee args => callee.Lexical ∧ Expr.LexicalEach args
  | .array elements => Expr.LexicalEach elements
  | .index collection position => collection.Lexical ∧ position.Lexical
  | .hash pairs => Expr.LexicalPairs pairs

def Expr.LexicalEach : List Expr → Prop
  | [] => True
  | e :: es => e.Lexical ∧ Expr.LexicalEach es

def Expr.LexicalPairs : List (Expr × Expr) → Prop
  | [] => True
  | (key, value) :: pairs => key.Lexical ∧ value.Lexical ∧ Expr.LexicalPairs pairs

def Stmt.Lexical : Stmt → Prop
  | .bind name value => IsName name ∧ value.Lexical
  | .ret none => True
  | .ret (some value) => value.Lexical
  | .expr value => value.Lexical

def Stmt.LexicalEach : List Stmt → Prop
  | [] => True
  | s :: ss => s.Lexical ∧ Stmt.LexicalEach ss

def Stmt.LexicalElse : Option (List Stmt) → Prop
  | none => True
  | some block => Stmt.LexicalEach block

end

/-- A text is cut into these words whenever a break follows it. -/
def Lexes (text : String) (tokens : List Token) : Prop :=
  ∀ rest, Break rest → words (text.toList ++ rest) = tokens ++ words rest

section Marks

theorem words_fixed (c : Char) {kind : Token.Kind} (h : Token.Kind.ofMark? c = some kind)
    (rest : List Char) : words (c :: rest) = fixed kind :: words rest := by
  have htext : kind.text = String.ofList [c] := by
    unfold Token.Kind.ofMark? at h
    split at h <;> cases h <;> rfl
  rw [Token.words_mark h, fixed, htext]

theorem words_assign (rest : List Char) :
    words ('=' :: ' ' :: rest) = fixed .assign :: words rest := by
  rw [Token.words_cons rfl]
  exact congrArg (fixed .assign :: ·) (Token.words_space rest)

theorem words_binary (op : BinaryOp) (rest : List Char) :
    words (op.symbol.toList ++ ' ' :: rest) = fixed op.kind :: words rest := by
  rw [← Token.words_space rest]
  cases op with
  | add | sub | mul | div | lt | gt => exact Token.words_mark rfl _
  | eq | notEq => exact Token.words_cons rfl _

theorem words_unary (op : UnaryOp) {c : Char} (hc : c ≠ '=') (rest : List Char) :
    words (op.symbol.toList ++ c :: rest) = fixed op.kind :: words (c :: rest) := by
  cases op with
  | negate => exact Token.words_mark rfl _
  | not =>
      have hsingle : Token.startingWith '!' (c :: rest) = (fixed .bang, c :: rest) := by
        change Token.markOrDouble .bang .notEq '!' (c :: rest) = _
        unfold Token.markOrDouble
        split
        · rename_i heq
          exact absurd (List.cons.inj heq).1 hc
        · rfl
      change words ('!' :: c :: rest) = _
      rw [Token.words_cons rfl, hsingle]
      rfl

theorem words_keyword (kind : Token.Kind) (hkind : (kind.text, kind) ∈ Token.Kind.keywords)
    {rest : List Char} (hrest : Break rest) :
    words (kind.text.toList ++ rest) = fixed kind :: words rest := by
  have hwords : ∀ entry ∈ Token.Kind.keywords, entry.1.toList ≠ [] ∧
      entry.1.toList.all isLetter = true := by
    decide
  obtain ⟨hne, hletters⟩ := hwords _ hkind
  rw [Token.words_letters hne (List.all_eq_true.mp hletters) hrest,
    Token.Kind.ofWord_of_keyword hkind]
  rfl

theorem words_name {name : String} (hname : IsName name) {rest : List Char} (hrest : Break rest) :
    words (name.toList ++ rest) = ⟨.ident, name⟩ :: words rest := by
  rw [Token.words_letters hname.1 hname.2.1 hrest, hname.2.2]

end Marks

section Lists

theorem toList_intercalate_cons (separator text : String) (texts : List String) :
    (separator.intercalate (text :: texts)).toList =
      text.toList ++ texts.flatMap fun next => separator.toList ++ next.toList := by
  induction texts generalizing text with
  | nil => simp
  | cons next texts ih =>
      rw [String.intercalate_cons_cons, String.toList_append, String.toList_append, ih,
        List.flatMap_cons, List.append_assoc, List.append_assoc]

theorem lexes_more {texts : List String} {tokens : List (List Token)}
    (h : List.Forall₂ Lexes texts tokens) {rest : List Char} (hrest : Break rest) :
    words ((texts.flatMap fun next => ',' :: ' ' :: next.toList) ++ rest) =
      tokens.flatMap (fixed .comma :: ·) ++ words rest ∧
    Break ((texts.flatMap fun next => ',' :: ' ' :: next.toList) ++ rest) := by
  induction h with
  | nil => exact ⟨rfl, hrest⟩
  | @cons text token texts tokens hfirst _ ih =>
      simp only [List.flatMap_cons, List.cons_append, List.append_assoc]
      constructor
      · rw [words_fixed ',' rfl, Token.words_space, hfirst _ ih.2, ih.1]
      · exact Token.break_cons.mpr (by decide)

theorem lexes_commaSeparated {texts : List String} {tokens : List (List Token)}
    (h : List.Forall₂ Lexes texts tokens) : Lexes (commaSeparated texts) (separated tokens) := by
  intro rest hrest
  cases h with
  | nil => rfl
  | cons hfirst hmore =>
      obtain ⟨hwords, hbreak⟩ := lexes_more hmore hrest
      rw [commaSeparated, toList_intercalate_cons, List.append_assoc]
      refine (hfirst _ hbreak).trans ?_
      rw [hwords, separated, List.append_assoc]

theorem lexes_statements {c : Char} (hc : isSeparator c = true) {texts : List String}
    {tokens : List (List Token)} (h : List.Forall₂ Lexes texts tokens) {rest : List Char}
    (hrest : Break rest) :
    words ((texts.flatMap fun next => c :: next.toList) ++ rest) = tokens.flatten ++ words rest ∧
    Break ((texts.flatMap fun next => c :: next.toList) ++ rest) := by
  induction h with
  | nil => exact ⟨rfl, hrest⟩
  | @cons text token texts tokens hfirst _ ih =>
      simp only [List.flatMap_cons, List.flatten_cons, List.cons_append, List.append_assoc]
      constructor
      · rw [Token.words_separator hc, hfirst _ ih.2, ih.1]
      · exact Token.break_separator hc _

theorem words_braced {texts : List String} {tokens : List (List Token)}
    (h : List.Forall₂ Lexes texts tokens) (rest : List Char) :
    words ((braced texts).toList ++ rest) = Token.braced tokens ++ words rest := by
  have hclose : Break (' ' :: '\x7d' :: rest) := Token.break_cons.mpr (by decide)
  have htext : (braced texts).toList ++ rest = '\x7b' ::
      ((texts.flatMap fun next => ' ' :: next.toList) ++ ' ' :: '\x7d' :: rest) := by
    simp [braced, List.flatMap_map]
  rw [htext, words_fixed '\x7b' rfl, (lexes_statements rfl h hclose).1,
    Token.words_space, words_fixed '\x7d' rfl,
    Token.braced]
  simp

end Lists

section Trees

/-- Which first characters of a canonical text go with which first words. -/
def Leads (c : Char) (kind : Token.Kind) : Prop :=
  isLetter c = true ∧ kind ∈ [.ident, .trueWord, .falseWord, .ifWord, .fnWord] ∨
    c.isDigit = true ∧ kind = .int ∨ c = '"' ∧ kind = .string ∨ c = '(' ∧ kind = .lparen ∨
    c = '[' ∧ kind = .lbracket ∨ c = '\x7b' ∧ kind = .lbrace

theorem Leads.ne_equals {c : Char} {kind : Token.Kind} (h : Leads c kind) : c ≠ '=' := by
  rintro rfl
  rcases h with ⟨h, -⟩ | ⟨h, -⟩ | ⟨h, -⟩ | ⟨h, -⟩ | ⟨h, -⟩ | ⟨h, -⟩ <;> exact absurd h (by decide)

theorem Expr.leads : ∀ e : Expr, e.Lexical →
    ∃ c token, e.render.toList.head? = some c ∧ e.tokens.head? = some token ∧ Leads c token.kind
  | .ident name, h => by
      obtain ⟨hne, hletters, -⟩ := h
      obtain ⟨c, cs, hname⟩ := List.exists_cons_of_ne_nil hne
      have hc : isLetter c = true := hletters c (by simp [hname])
      exact ⟨c, _, by rw [Expr.render, hname, List.head?_cons], rfl, .inl ⟨hc, by simp⟩⟩
  | .int value, h => by
      obtain ⟨c, cs, hdigits⟩ :=
        List.exists_cons_of_ne_nil (Decimal.toList_ofNat_ne_nil value.toNatClampNeg)
      have hc : c.isDigit = true := Decimal.isDigit_of_mem_ofNat (by rw [hdigits]; simp)
      refine ⟨c, _, ?_, rfl, .inr (.inl ⟨hc, rfl⟩)⟩
      rw [Expr.render, Decimal.ofInt64_of_nonneg h, hdigits, List.head?_cons]
  | .string text, _ =>
      ⟨'"', _, by simp [Expr.render, Literal.quote], rfl, .inr (.inr (.inl ⟨rfl, rfl⟩))⟩
  | .bool true, _ => ⟨_, _, rfl, rfl, .inl ⟨rfl, by decide⟩⟩
  | .bool false, _ => ⟨_, _, rfl, rfl, .inl ⟨rfl, by decide⟩⟩
  | .unary op operand, _ =>
      ⟨'(', _, by simp [Expr.render], rfl, .inr (.inr (.inr (.inl ⟨rfl, rfl⟩)))⟩
  | .binary left op right, _ =>
      ⟨'(', _, by simp [Expr.render], rfl, .inr (.inr (.inr (.inl ⟨rfl, rfl⟩)))⟩
  | .cond condition yes no, _ => ⟨'i', _, by simp [Expr.render], rfl, .inl ⟨rfl, by decide⟩⟩
  | .fn _ params body, _ => ⟨'f', _, by simp [Expr.render], rfl, .inl ⟨rfl, by decide⟩⟩
  | .call callee args, h => by
      obtain ⟨c, token, hrender, htokens, hleads⟩ := callee.leads h.1
      refine ⟨c, token, ?_, ?_, hleads⟩
      · simp [Expr.render, List.head?_append, hrender]
      · simp [Expr.tokens, List.head?_append, htokens]
  | .array elements, _ =>
      ⟨'[', _, by simp [Expr.render], rfl, .inr (.inr (.inr (.inr (.inl ⟨rfl, rfl⟩))))⟩
  | .index collection position, _ =>
      ⟨'(', _, by simp [Expr.render], rfl, .inr (.inr (.inr (.inl ⟨rfl, rfl⟩)))⟩
  | .hash pairs, _ =>
      ⟨'\x7b', _, by simp [Expr.render], rfl, .inr (.inr (.inr (.inr (.inr ⟨rfl, rfl⟩))))⟩

theorem break_mark {c : Char} (rest : List Char) (h : isLetter c = false ∧ c.isDigit = false) :
    Break (c :: rest) := Token.break_cons.mpr h

theorem lexes_names {params : List String} (h : ∀ name ∈ params, IsName name) :
    List.Forall₂ Lexes params (params.map fun name => [⟨.ident, name⟩]) := by
  induction params with
  | nil => exact .nil
  | cons name params ih =>
      rw [List.forall_mem_cons] at h
      exact .cons (fun rest hrest => words_name h.1 hrest) (ih h.2)

mutual

/-- The canonical text of an expression is cut into its words. -/
theorem Expr.lexes : ∀ e : Expr, e.Lexical → Lexes e.render e.tokens
  | .ident name, h, rest, hrest => words_name h hrest
  | .int value, h, rest, hrest => by
      rw [Expr.render, Expr.tokens, Decimal.ofInt64_of_nonneg h]
      exact Token.words_digits (Decimal.toList_ofNat_ne_nil _)
        (fun c hc => Decimal.isDigit_of_mem_ofNat hc) hrest
  | .string text, _, rest, _ => by
      have htext : (.string text : Expr).render.toList ++ rest =
          '"' :: (text.toList.flatMap Literal.escapeChar ++ '"' :: rest) := by
        simp [Expr.render, Literal.quote, Literal.escape]
      rw [htext, Token.words_quote, Literal.read_escape, String.ofList_toList]
      rfl
  | .bool true, _, rest, hrest => words_keyword .trueWord (by decide) hrest
  | .bool false, _, rest, hrest => words_keyword .falseWord (by decide) hrest
  | .unary op operand, h, rest, hrest => by
      obtain ⟨c, _, hhead, -, hleads⟩ := operand.leads h
      obtain ⟨cs, hrender⟩ := List.head?_eq_some_iff.mp hhead
      have htext : (Expr.unary op operand).render.toList ++ rest =
          '(' :: (op.symbol.toList ++ c :: (cs ++ ')' :: rest)) := by
        simp [Expr.render, hrender]
      have hoperand := operand.lexes h (')' :: rest) (break_mark _ (by decide))
      rw [hrender, List.cons_append] at hoperand
      rw [htext, words_fixed '(' rfl, words_unary op hleads.ne_equals, hoperand,
        words_fixed ')' rfl, Expr.tokens]
      simp
  | .binary left op right, h, rest, hrest => by
      have htext : (Expr.binary left op right).render.toList ++ rest =
          '(' :: (left.render.toList ++ ' ' :: (op.symbol.toList ++ ' ' ::
            (right.render.toList ++ ')' :: rest))) := by
        simp [Expr.render]
      rw [htext, words_fixed '(' rfl, left.lexes h.1 _ (break_mark _ (by decide)),
        Token.words_space,
        words_binary, right.lexes h.2 _ (break_mark _ (by decide)),
          words_fixed ')' rfl, Expr.tokens]
      simp
  | .cond condition yes no, h, rest, hrest => by
      have htext : (Expr.cond condition yes no).render.toList ++ rest =
          Token.Kind.ifWord.text.toList ++ ' ' :: (condition.render.toList ++ ' ' ::
            ((braced (Stmt.renderEach yes)).toList ++
              ((Stmt.renderElse no).toList ++ rest))) := by
        simp [Expr.render, Token.Kind.text]
      rw [htext, words_keyword _ (by decide) (break_mark _ (by decide)), Token.words_space,
        condition.lexes h.1 _ (break_mark _ (by decide)), Token.words_space,
        words_braced (Stmt.lexesEach yes h.2.1), Stmt.lexesElse no h.2.2 rest, Expr.tokens]
      simp
  | .fn _ params body, h, rest, hrest => by
      have htext : (Expr.fn () params body).render.toList ++ rest =
          Token.Kind.fnWord.text.toList ++ '(' :: ((commaSeparated params).toList ++
            ')' :: ' ' :: ((braced (Stmt.renderEach body)).toList ++ rest)) := by
        simp [Expr.render, Token.Kind.text]
      rw [htext, words_keyword _ (by decide) (break_mark _ (by decide)), words_fixed '(' rfl,
        lexes_commaSeparated (lexes_names h.1) _ (break_mark _ (by decide)), words_fixed ')' rfl,
        Token.words_space, words_braced (Stmt.lexesEach body h.2), Expr.tokens]
      simp
  | .call callee args, h, rest, hrest => by
      have htext : (Expr.call callee args).render.toList ++ rest =
          callee.render.toList ++ '(' :: ((commaSeparated (Expr.renderEach args)).toList ++
            ')' :: rest) := by
        simp [Expr.render]
      rw [htext, callee.lexes h.1 _ (break_mark _ (by decide)), words_fixed '(' rfl,
        lexes_commaSeparated (Expr.lexesEach args h.2) _ (break_mark _ (by decide)),
          words_fixed ')' rfl,
        Expr.tokens]
      simp
  | .array elements, h, rest, hrest => by
      have htext : (Expr.array elements).render.toList ++ rest =
          '[' :: ((commaSeparated (Expr.renderEach elements)).toList ++ ']' :: rest) := by
        simp [Expr.render]
      rw [htext, words_fixed '[' rfl,
        lexes_commaSeparated (Expr.lexesEach elements h) _ (break_mark _ (by decide)),
        words_fixed ']' rfl, Expr.tokens]
      simp
  | .index collection position, h, rest, hrest => by
      have htext : (Expr.index collection position).render.toList ++ rest =
          '(' :: (collection.render.toList ++ '[' :: (position.render.toList ++
            ']' :: ')' :: rest)) := by
        simp [Expr.render]
      rw [htext, words_fixed '(' rfl, collection.lexes h.1 _ (break_mark _ (by decide)),
        words_fixed '[' rfl,
        position.lexes h.2 _ (break_mark _ (by decide)), words_fixed ']' rfl,
          words_fixed ')' rfl, Expr.tokens]
      simp
  | .hash pairs, h, rest, hrest => by
      have htext : (Expr.hash pairs).render.toList ++ rest =
          '\x7b' :: ((commaSeparated (Expr.renderPairs pairs)).toList ++ '\x7d' :: rest) := by
        simp [Expr.render]
      rw [htext, words_fixed '\x7b' rfl,
        lexes_commaSeparated (Expr.lexesPairs pairs h) _ (break_mark _ (by decide)),
        words_fixed '\x7d' rfl, Expr.tokens]
      simp

theorem Expr.lexesEach : ∀ es : List Expr, Expr.LexicalEach es →
    List.Forall₂ Lexes (Expr.renderEach es) (Expr.tokensEach es)
  | [], _ => .nil
  | e :: es, h => .cons (e.lexes h.1) (Expr.lexesEach es h.2)

theorem Expr.lexesPairs : ∀ pairs : List (Expr × Expr), Expr.LexicalPairs pairs →
    List.Forall₂ Lexes (Expr.renderPairs pairs) (Expr.tokensPairs pairs)
  | [], _ => .nil
  | (key, value) :: pairs, h => by
      refine .cons ?_ (Expr.lexesPairs pairs h.2.2)
      intro rest hrest
      have htext : (key.render ++ ": " ++ value.render).toList ++ rest =
          key.render.toList ++ ':' :: ' ' :: (value.render.toList ++ rest) := by
        simp
      rw [htext, key.lexes h.1 _ (break_mark _ (by decide)),
        words_fixed ':' rfl, Token.words_space,
        value.lexes h.2.1 _ hrest]
      simp

theorem Stmt.lexes : ∀ s : Stmt, s.Lexical → Lexes s.render s.tokens
  | .bind name value, h, rest, hrest => by
      have htext : (Stmt.bind name value).render.toList ++ rest =
          Token.Kind.letWord.text.toList ++ ' ' :: (name.toList ++ ' ' :: '=' :: ' ' ::
            (value.render.toList ++ ';' :: rest)) := by
        simp [Stmt.render, Token.Kind.text]
      rw [htext, words_keyword _ (by decide) (break_mark _ (by decide)), Token.words_space,
        words_name h.1 (break_mark _ (by decide)), Token.words_space, words_assign,
        value.lexes h.2 _ (break_mark _ (by decide)), words_fixed ';' rfl, Stmt.tokens]
      simp
  | .ret none, _, rest, hrest => by
      have htext : (.ret none : Stmt).render.toList ++ rest =
          Token.Kind.returnWord.text.toList ++ ';' :: rest := by
        simp [Stmt.render, Token.Kind.text]
      rw [htext, words_keyword _ (by decide) (break_mark _ (by decide)), words_fixed ';' rfl,
        Stmt.tokens]
      simp
  | .ret (some value), h, rest, hrest => by
      have htext : (Stmt.ret (some value)).render.toList ++ rest =
          Token.Kind.returnWord.text.toList ++ ' ' :: (value.render.toList ++ ';' :: rest) := by
        simp [Stmt.render, Token.Kind.text]
      rw [htext, words_keyword _ (by decide) (break_mark _ (by decide)), Token.words_space,
        value.lexes h _ (break_mark _ (by decide)), words_fixed ';' rfl, Stmt.tokens]
      simp
  | .expr value, h, rest, hrest => value.lexes h rest hrest

theorem Stmt.lexesEach : ∀ ss : List Stmt, Stmt.LexicalEach ss →
    List.Forall₂ Lexes (Stmt.renderEach ss) (Stmt.tokensEach ss)
  | [], _ => .nil
  | s :: ss, h => .cons (s.lexes h.1) (Stmt.lexesEach ss h.2)

theorem Stmt.lexesElse : ∀ no : Option (List Stmt), Stmt.LexicalElse no → ∀ rest : List Char,
    words ((Stmt.renderElse no).toList ++ rest) = Stmt.tokensElse no ++ words rest
  | none, _, rest => rfl
  | some block, h, rest => by
      have htext : (Stmt.renderElse (some block)).toList ++ rest =
          ' ' :: (Token.Kind.elseWord.text.toList ++ ' ' ::
            ((braced (Stmt.renderEach block)).toList ++ rest)) := by
        simp [Stmt.renderElse, Token.Kind.text]
      rw [htext, Token.words_space, words_keyword _ (by decide) (break_mark _ (by decide)),
        Token.words_space, words_braced (Stmt.lexesEach block h), Stmt.tokensElse]
      simp

end

/-- The words of a listing are those of its statements. -/
theorem Program.words_listing {program : Program} (h : Stmt.LexicalEach program) :
    words (Program.listing program).toList = (Stmt.tokensEach program).flatten := by
  rw [Program.listing, ← Stmt.renderEach_eq_map]
  cases program with
  | nil => exact Token.words_nil
  | cons s ss =>
      obtain ⟨hwords, hbreak⟩ :=
        lexes_statements (c := '\n') rfl (Stmt.lexesEach ss h.2) Token.break_nil
      rw [List.append_nil] at hbreak
      rw [List.append_nil, Token.words_nil, List.append_nil] at hwords
      rw [Stmt.renderEach, toList_intercalate_cons, Stmt.tokensEach, List.flatten_cons, ← hwords]
      exact s.lexes h.1 _ hbreak

end Trees

end ScriptLang
