import Mathlib.Data.List.TakeWhile
import ScriptLang.Proofs.Text.Literals
import ScriptLang.Proofs.Token.Words

/-!
How a text is put together.

Between the separators of a text stand the lexemes of its tokens, each as long as it can be.  What
a lexeme looks like is said kind by kind, together with what must not follow it.  Every text can
be taken apart in this way, and in one way only.  So no character is lost or read twice.
-/

namespace ScriptLang

namespace Text.Literal

/-- The body of a literal and the text that it spells.  Behind a backslash an `n` is a line feed
and a `t` is a tab, any other character stands for itself.  A quote must have a backslash in
front. -/
inductive Spells : List Char → List Char → Prop where
  | nil : Spells [] []
  | plain {c body text} (hquote : c ≠ '"') (hslash : c ≠ '\\') (h : Spells body text) :
      Spells (c :: body) (c :: text)
  | lineFeed {body text} (h : Spells body text) : Spells ('\\' :: 'n' :: body) ('\n' :: text)
  | tab {body text} (h : Spells body text) : Spells ('\\' :: 't' :: body) ('\t' :: text)
  | escaped {c body text} (hn : c ≠ 'n') (ht : c ≠ 't') (h : Spells body text) :
      Spells ('\\' :: c :: body) (c :: text)

theorem unescapeChar_of_ne {c : Char} (hn : c ≠ 'n') (ht : c ≠ 't') : unescapeChar c = c := by
  unfold unescapeChar
  split
  · exact absurd rfl hn
  · exact absurd rfl ht
  · rfl

theorem Spells.backslash {body text : List Char} (h : Spells body text) (c : Char) :
    Spells ('\\' :: c :: body) (unescapeChar c :: text) := by
  by_cases hn : c = 'n'
  · subst hn
    exact .lineFeed h
  by_cases ht : c = 't'
  · subst ht
    exact .tab h
  rw [unescapeChar_of_ne hn ht]
  exact .escaped hn ht h

theorem read_append_of_spells {body text : List Char} (h : Spells body text) (rest : List Char) :
    read (body ++ rest) = (text ++ (read rest).1, (read rest).2) := by
  induction h with
  | nil => rfl
  | plain hquote hslash _ ih => rw [List.cons_append, read_plain hquote hslash, ih]; rfl
  | lineFeed _ ih => rw [List.cons_append, List.cons_append, read_backslash, ih]; rfl
  | tab _ ih => rw [List.cons_append, List.cons_append, read_backslash, ih]; rfl
  | escaped hn ht _ ih =>
      rw [List.cons_append, List.cons_append, read_backslash, ih, unescapeChar_of_ne hn ht]
      rfl

/-- What ends the body of a literal: the closing quote, or the end of the text.  A single
backslash that stands there spells nothing. -/
inductive Ends : List Char → List Char → Prop where
  | quote (behind : List Char) : Ends ('"' :: behind) behind
  | missing {lone : List Char} (h : lone = [] ∨ lone = ['\\']) : Ends lone []

theorem read_of_spells {body text tail behind : List Char} (h : Spells body text)
    (htail : Ends tail behind) : read (body ++ tail) = (text, behind) := by
  rw [read_append_of_spells h]
  cases htail with
  | quote => simp [read]
  | missing h => rcases h with rfl | rfl <;> simp [read]

theorem spells_read (cs : List Char) :
    ∃ body tail, cs = body ++ tail ∧ Spells body (read cs).1 ∧ Ends tail (read cs).2 := by
  fun_induction read cs with
  | case1 => exact ⟨[], [], rfl, .nil, .missing (.inl rfl)⟩
  | case2 rest => exact ⟨[], '"' :: rest, rfl, .nil, .quote rest⟩
  | case3 => exact ⟨[], ['\\'], rfl, .nil, .missing (.inr rfl)⟩
  | case4 c rest text behind hread ih =>
      rw [hread] at ih
      obtain ⟨body, tail, rfl, hbody, htail⟩ := ih
      exact ⟨'\\' :: c :: body, tail, rfl, hbody.backslash c, htail⟩
  | case5 c rest hquote hlast hescape text behind hread ih =>
      rw [hread] at ih
      obtain ⟨body, tail, rfl, hbody, htail⟩ := ih
      refine ⟨c :: body, tail, rfl, .plain hquote ?_ hbody, htail⟩
      intro hc
      cases hrest : body ++ tail with
      | nil => exact hlast hc hrest
      | cons d others => exact hescape d others hc hrest

end Text.Literal

namespace Token

open ScriptLang.Text

def Kind.keywords : List (String × Kind) :=
  [("fn", .fnWord), ("let", .letWord), ("if", .ifWord), ("else", .elseWord),
    ("return", .returnWord), ("true", .trueWord), ("false", .falseWord)]

/-- Characters of one class that nothing of the class follows. -/
structure Longest (p : Char → Bool) (chars behind : List Char) : Prop where
  ne_nil : chars ≠ []
  all : ∀ c ∈ chars, p c = true
  ends : ∀ c ∈ behind.head?, p c = false

/-- The characters that a token is made of, in front of all that stands behind them. -/
inductive Lexeme : Token → List Char → List Char → Prop where
  | mark {c kind behind} (h : Kind.ofMark? c = some kind) :
      Lexeme ⟨kind, String.ofList [c]⟩ [c] behind
  | assign {behind} (h : behind.head? ≠ some '=') : Lexeme ⟨.assign, "="⟩ ['='] behind
  | bang {behind} (h : behind.head? ≠ some '=') : Lexeme ⟨.bang, "!"⟩ ['!'] behind
  | eq {behind} : Lexeme ⟨.eq, "=="⟩ ['=', '='] behind
  | notEq {behind} : Lexeme ⟨.notEq, "!="⟩ ['!', '='] behind
  | keyword {kind word behind} (h : Longest isLetter word behind)
      (hword : (String.ofList word, kind) ∈ Kind.keywords) :
      Lexeme ⟨kind, String.ofList word⟩ word behind
  | name {word behind} (h : Longest isLetter word behind)
      (hword : ∀ kind, (String.ofList word, kind) ∉ Kind.keywords) :
      Lexeme ⟨.ident, String.ofList word⟩ word behind
  | number {digits behind} (h : Longest Char.isDigit digits behind) :
      Lexeme ⟨.int, String.ofList digits⟩ digits behind
  | string {body text behind} (h : Literal.Spells body text) :
      Lexeme ⟨.string, String.ofList text⟩ ('"' :: body ++ ['"']) behind
  /-- The closing quote is missing, so the literal runs to the end of the text.  A backslash with
  nothing behind it is dropped. -/
  | unclosed {body text lone} (h : Literal.Spells body text) (hlone : lone = [] ∨ lone = ['\\']) :
      Lexeme ⟨.string, String.ofList text⟩ ('"' :: body ++ lone) []
  /-- A character that begins no other token. -/
  | illegal {c behind} (hsep : isSeparator c = false) (hmark : Kind.ofMark? c = none)
      (hother : c ∉ ['=', '!', '"']) (hletter : isLetter c = false)
      (hdigit : c.isDigit = false) : Lexeme ⟨.illegal, String.ofList [c]⟩ [c] behind

section Words

theorem Kind.ofWord_of_keyword {word : String} {kind : Kind} (h : (word, kind) ∈ Kind.keywords) :
    Kind.ofWord word = kind := by
  simp only [Kind.keywords, List.mem_cons, Prod.mk.injEq, List.not_mem_nil, or_false] at h
  rcases h with ⟨rfl, rfl⟩ | ⟨rfl, rfl⟩ | ⟨rfl, rfl⟩ | ⟨rfl, rfl⟩ | ⟨rfl, rfl⟩ | ⟨rfl, rfl⟩ |
    ⟨rfl, rfl⟩ <;> rfl

theorem Kind.ofWord_keyword_or_ident (word : String) :
    (word, Kind.ofWord word) ∈ Kind.keywords ∨ Kind.ofWord word = .ident := by
  unfold Kind.ofWord
  repeat' split
  all_goals first | exact .inr rfl | (subst word; exact .inl (by decide))

theorem Kind.ofWord_of_not_keyword {word : String} (h : ∀ kind, (word, kind) ∉ Kind.keywords) :
    Kind.ofWord word = .ident :=
  (Kind.ofWord_keyword_or_ident word).resolve_left (h _)

theorem Kind.not_keyword_of_ofWord {word : String} (h : Kind.ofWord word = .ident) (kind : Kind) :
    (word, kind) ∉ Kind.keywords := by
  intro hword
  obtain rfl := (Kind.ofWord_of_keyword hword).symm.trans h
  revert hword
  simp [Kind.keywords]

theorem startingWith_keyword_or_name {word behind : List Char}
    (h : Longest isLetter word behind) :
    Lexeme ⟨Kind.ofWord (String.ofList word), String.ofList word⟩ word behind := by
  obtain hword | hident := Kind.ofWord_keyword_or_ident (String.ofList word)
  · exact .keyword h hword
  · rw [hident]
    exact .name h (Kind.not_keyword_of_ofWord hident)

end Words

section Scanning

variable {token : Token} {chars behind : List Char}

theorem Longest.takeWhile {p : Char → Bool} {c : Char} (h : Longest p (c :: chars) behind) :
    p c = true ∧ (chars ++ behind).takeWhile p = chars ∧
      (chars ++ behind).dropWhile p = behind := by
  obtain ⟨hc, hchars⟩ := List.forall_mem_cons.mp h.all
  exact ⟨hc, takeWhile_append_of_break hchars h.ends⟩

theorem longest_takeWhile {p : Char → Bool} {c : Char} (h : p c = true) (rest : List Char) :
    Longest p (c :: rest.takeWhile p) (rest.dropWhile p) where
  ne_nil := List.cons_ne_nil _ _
  all := by
    rw [List.forall_mem_cons]
    exact ⟨h, List.all_eq_true.mp List.all_takeWhile⟩
  ends d hd := by
    have := List.head?_dropWhile_not p rest
    rw [Option.mem_def.mp hd] at this
    simpa using this

theorem startingWith_illegal {c : Char} (hmark : Kind.ofMark? c = none)
    (hother : c ∉ ['=', '!', '"']) (hletter : isLetter c = false) (hdigit : c.isDigit = false)
    (rest : List Char) : startingWith c rest = (⟨.illegal, String.ofList [c]⟩, rest) := by
  unfold startingWith
  split
  · simp at hother
  · simp at hother
  · simp at hother
  · simp [hmark, hletter, hdigit]

theorem startingWith_quote {body text tail : List Char} (h : Literal.Spells body text)
    (htail : Literal.Ends tail behind) :
    Token.startingWith '"' (body ++ tail) = (⟨.string, String.ofList text⟩, behind) := by
  change ((⟨.string, String.ofList (Literal.read (body ++ tail)).1⟩ : Token),
    (Literal.read (body ++ tail)).2) = _
  rw [Literal.read_of_spells h htail]

theorem Lexeme.startingWith (h : Lexeme token chars behind) :
    ∃ c rest, chars ++ behind = c :: rest ∧ isSeparator c = false ∧
      Token.startingWith c rest = (token, behind) := by
  cases h with
  | mark h => exact ⟨_, _, rfl, isSeparator_eq_false_of_mark h, startingWith_mark h behind⟩
  | assign h => exact ⟨'=', behind, rfl, rfl, markOrDouble_of_ne h⟩
  | bang h => exact ⟨'!', behind, rfl, rfl, markOrDouble_of_ne h⟩
  | eq => exact ⟨'=', '=' :: behind, rfl, rfl, rfl⟩
  | notEq => exact ⟨'!', '=' :: behind, rfl, rfl, rfl⟩
  | keyword h hword =>
      obtain ⟨c, others, rfl⟩ := List.exists_cons_of_ne_nil h.ne_nil
      obtain ⟨hc, htake, hdrop⟩ := h.takeWhile
      refine ⟨c, others ++ behind, rfl, isSeparator_eq_false_of_letter hc, ?_⟩
      rw [startingWith_letter hc, htake, hdrop, Kind.ofWord_of_keyword hword]
  | name h hword =>
      obtain ⟨c, others, rfl⟩ := List.exists_cons_of_ne_nil h.ne_nil
      obtain ⟨hc, htake, hdrop⟩ := h.takeWhile
      refine ⟨c, others ++ behind, rfl, isSeparator_eq_false_of_letter hc, ?_⟩
      rw [startingWith_letter hc, htake, hdrop, Kind.ofWord_of_not_keyword hword]
  | number h =>
      obtain ⟨c, others, rfl⟩ := List.exists_cons_of_ne_nil h.ne_nil
      obtain ⟨hc, htake, hdrop⟩ := h.takeWhile
      refine ⟨c, others ++ behind, rfl, isSeparator_eq_false_of_digit hc, ?_⟩
      rw [startingWith_digit hc, htake, hdrop]
  | string h =>
      exact ⟨'"', _, by simp, rfl, startingWith_quote h (.quote behind)⟩
  | unclosed h hlone =>
      exact ⟨'"', _, by simp, rfl, startingWith_quote h (.missing hlone)⟩
  | illegal hsep hmark hother hletter hdigit =>
      exact ⟨_, behind, rfl, hsep, startingWith_illegal hmark hother hletter hdigit behind⟩

theorem exists_lexeme_double {single double : Kind} {mark : Char} {rest : List Char}
    (hsingle : rest.head? ≠ some '=' → Lexeme ⟨single, String.ofList [mark]⟩ [mark] rest)
    (hdouble : ∀ behind, Lexeme ⟨double, String.ofList [mark, '=']⟩ [mark, '='] behind) :
    ∃ chars, mark :: rest = chars ++ (markOrDouble single double mark rest).2 ∧
      Lexeme (markOrDouble single double mark rest).1 chars
        (markOrDouble single double mark rest).2 := by
  by_cases h : rest.head? = some '='
  · obtain ⟨behind, rfl⟩ := List.head?_eq_some_iff.mp h
    exact ⟨[mark, '='], rfl, hdouble behind⟩
  · rw [markOrDouble_of_ne h]
    exact ⟨[mark], rfl, hsingle h⟩

/-- Whatever is cut off the front of a text is the lexeme of its token. -/
theorem exists_lexeme {c : Char} (hsep : isSeparator c = false) (rest : List Char) :
    ∃ chars, c :: rest = chars ++ (Token.startingWith c rest).2 ∧
      Lexeme (Token.startingWith c rest).1 chars (Token.startingWith c rest).2 := by
  by_cases hletter : isLetter c = true
  · rw [startingWith_letter hletter]
    exact ⟨c :: rest.takeWhile isLetter, by simp,
      startingWith_keyword_or_name (longest_takeWhile hletter rest)⟩
  by_cases hdigit : c.isDigit = true
  · rw [startingWith_digit hdigit]
    exact ⟨c :: rest.takeWhile Char.isDigit, by simp, .number (longest_takeWhile hdigit rest)⟩
  rw [Bool.not_eq_true] at hletter hdigit
  cases hmark : Kind.ofMark? c with
  | some kind =>
      rw [startingWith_mark hmark]
      exact ⟨[c], rfl, .mark hmark⟩
  | none =>
      by_cases hother : c ∈ ['=', '!', '"']
      · simp only [List.mem_cons, List.not_mem_nil, or_false] at hother
        rcases hother with rfl | rfl | rfl
        · exact exists_lexeme_double .assign fun _ => .eq
        · exact exists_lexeme_double .bang fun _ => .notEq
        · obtain ⟨body, tail, hrest, hbody, htail⟩ := Literal.spells_read rest
          change ∃ chars, '"' :: rest = chars ++ (Literal.read rest).2 ∧
            Lexeme ⟨.string, String.ofList (Literal.read rest).1⟩ chars (Literal.read rest).2
          generalize (Literal.read rest).1 = text at hbody ⊢
          generalize (Literal.read rest).2 = behind at htail ⊢
          subst hrest
          cases htail with
          | quote => exact ⟨'"' :: body ++ ['"'], by simp, .string hbody⟩
          | missing hlone => exact ⟨'"' :: body ++ tail, by simp, .unclosed hbody hlone⟩
      · rw [startingWith_illegal hmark hother hletter hdigit]
        exact ⟨[c], rfl, .illegal hsep hmark hother hletter hdigit⟩

end Scanning

section Cutting

def Blank (chars : List Char) : Prop :=
  ∀ c ∈ chars, isSeparator c = true

/-- A token as it stands in a text: the separators in front of it, and its characters. -/
structure Piece where
  gap : List Char
  lexeme : List Char
  token : Token

/-- A text taken apart into pieces and the separators at its end. -/
inductive Cut : List Char → List Piece → List Char → Prop where
  | blank {trail} (h : Blank trail) : Cut trail [] trail
  | piece {gap lexeme behind token pieces trail} (hgap : Blank gap)
      (hlexeme : Lexeme token lexeme behind) (h : Cut behind pieces trail) :
      Cut (gap ++ lexeme ++ behind) (⟨gap, lexeme, token⟩ :: pieces) trail

variable {token : Token} {text gap lexeme behind trail : List Char} {pieces : List Piece}

theorem Blank.dropWhile (h : Blank gap) : gap.dropWhile isSeparator = [] :=
  List.dropWhile_eq_nil_iff.mpr h

theorem Lexeme.ne_nil (h : Lexeme token lexeme behind) : lexeme ≠ [] := by
  cases h with
  | keyword h | name h | number h => exact h.ne_nil
  | _ => simp

theorem Lexeme.literal_eq (h : Lexeme token lexeme behind) (hkind : token.kind ≠ .string) :
    token.literal.toList = lexeme := by
  cases h with
  | string | unclosed => exact absurd rfl hkind
  | _ => simp

theorem Lexeme.dropWhile (hgap : Blank gap) (h : Lexeme token lexeme behind) :
    (gap ++ lexeme ++ behind).dropWhile isSeparator = lexeme ++ behind := by
  obtain ⟨c, rest, heq, hsep, -⟩ := h.startingWith
  rw [List.append_assoc, List.dropWhile_append_of_pos hgap, heq,
    List.dropWhile_cons_of_neg (by simp [hsep])]

theorem Lexeme.not_blank (hgap : Blank gap) (h : Lexeme token lexeme behind) :
    ¬ Blank (gap ++ lexeme ++ behind) := by
  intro hblank
  have hnil := (h.dropWhile hgap).symm.trans hblank.dropWhile
  exact h.ne_nil (List.append_eq_nil_iff.mp hnil).1

/-- What stands at the front of a text determines what is cut off. -/
theorem Lexeme.unique {token' : Token} {gap' lexeme' behind' : List Char} (hgap : Blank gap)
    (h : Lexeme token lexeme behind) (hgap' : Blank gap') (h' : Lexeme token' lexeme' behind')
    (htext : gap ++ lexeme ++ behind = gap' ++ lexeme' ++ behind') :
    gap = gap' ∧ lexeme = lexeme' ∧ token = token' ∧ behind = behind' := by
  have hdrop : lexeme ++ behind = lexeme' ++ behind' := by
    rw [← h.dropWhile hgap, ← h'.dropWhile hgap', htext]
  obtain ⟨c, rest, heq, -, hstart⟩ := h.startingWith
  obtain ⟨c', rest', heq', -, hstart'⟩ := h'.startingWith
  obtain ⟨rfl, rfl⟩ := List.cons.inj (heq.symm.trans (hdrop.trans heq'))
  obtain ⟨rfl, rfl⟩ := Prod.mk.inj (hstart.symm.trans hstart')
  obtain rfl := List.append_cancel_right hdrop
  rw [List.append_assoc, List.append_assoc] at htext
  exact ⟨List.append_cancel_right htext, rfl, rfl, rfl⟩

theorem words_lexeme (hgap : Blank gap) (h : Lexeme token lexeme behind) :
    words (gap ++ lexeme ++ behind) = token :: words behind := by
  obtain ⟨c, rest, heq, -, hstart⟩ := h.startingWith
  rw [words_of_dropWhile ((h.dropWhile hgap).trans heq), hstart]

namespace Cut

theorem text_eq (h : Cut text pieces trail) :
    text = pieces.flatMap (fun piece => piece.gap ++ piece.lexeme) ++ trail := by
  induction h with
  | blank => rfl
  | piece _ _ _ ih => simp [← ih]

theorem words_eq (h : Cut text pieces trail) : words text = pieces.map Piece.token := by
  induction h with
  | blank h => exact words_of_blank h.dropWhile
  | piece hgap hlexeme _ ih => rw [words_lexeme hgap hlexeme, ih, List.map_cons]

theorem exists_lexeme_of_mem (h : Cut text pieces trail) {piece : Piece} (hmem : piece ∈ pieces) :
    ∃ behind, Lexeme piece.token piece.lexeme behind := by
  induction h with
  | blank => cases hmem
  | piece _ hlexeme _ ih =>
      rcases List.mem_cons.mp hmem with rfl | hmem
      · exact ⟨_, hlexeme⟩
      · exact ih hmem

theorem exists_of_text (text : List Char) : ∃ pieces trail, Cut text pieces trail := by
  induction text using words.induct with
  | case1 text hblank => exact ⟨[], text, .blank (List.dropWhile_eq_nil_iff.mp hblank)⟩
  | case2 text c rest htext ih =>
      obtain ⟨pieces, trail, hcut⟩ := ih
      have hsep : isSeparator c = false := by
        have := List.head?_dropWhile_not isSeparator text
        simpa [htext] using this
      obtain ⟨lexeme, hrest, hlexeme⟩ := exists_lexeme hsep rest
      have hgap : Blank (text.takeWhile isSeparator) := List.all_eq_true.mp List.all_takeWhile
      have heq : text =
          text.takeWhile isSeparator ++ lexeme ++ (startingWith c rest).2 := by
        rw [List.append_assoc, ← hrest, ← htext, List.takeWhile_append_dropWhile]
      rw [heq]
      exact ⟨_, trail, .piece hgap hlexeme hcut⟩

theorem unique {pieces' : List Piece} {trail' : List Char} (h : Cut text pieces trail)
    (h' : Cut text pieces' trail') : pieces' = pieces ∧ trail' = trail := by
  induction h generalizing pieces' with
  | @blank trail h =>
      generalize htext : trail = text at h'
      cases h' with
      | blank => exact ⟨rfl, rfl⟩
      | piece hgap' hlexeme' _ => exact absurd h (htext ▸ hlexeme'.not_blank hgap')
  | @piece gap lexeme behind token pieces trail hgap hlexeme _ ih =>
      generalize htext : gap ++ lexeme ++ behind = text at h'
      cases h' with
      | blank h' => exact absurd h' (htext ▸ hlexeme.not_blank hgap)
      | piece hgap' hlexeme' hcut' =>
          obtain ⟨rfl, rfl, rfl, rfl⟩ := hlexeme.unique hgap hgap' hlexeme' htext
          obtain ⟨rfl, rfl⟩ := ih hcut'
          exact ⟨rfl, rfl⟩

end Cut

end Cutting

/-- No character of a text is lost, and every token is as long as it can be.  A text falls into
separators and lexemes in one way only, and its tokens are the tokens of the lexemes, in order,
and the end of input behind them. -/
theorem tokenize_takes_text_apart (source : String) : ∃ pieces trail,
    Cut source.toList pieces trail ∧
    source.toList = pieces.flatMap (fun piece => piece.gap ++ piece.lexeme) ++ trail ∧
    tokenize source = pieces.map Piece.token ++ [endOfInput] ∧
    (∀ piece ∈ pieces, piece.lexeme ≠ [] ∧ piece.token.kind ≠ endOfInput.kind ∧
      (piece.token.kind ≠ .string → piece.token.literal.toList = piece.lexeme)) ∧
    ∀ pieces' trail', Cut source.toList pieces' trail' → pieces' = pieces ∧ trail' = trail := by
  obtain ⟨pieces, trail, hcut⟩ := Cut.exists_of_text source.toList
  refine ⟨pieces, trail, hcut, hcut.text_eq, ?_, ?_, fun _ _ hcut' => hcut.unique hcut'⟩
  · rw [tokenize, hcut.words_eq]
  · intro piece hpiece
    obtain ⟨behind, hlexeme⟩ := hcut.exists_lexeme_of_mem hpiece
    have hword : piece.token ∈ words source.toList := by
      rw [hcut.words_eq]
      exact List.mem_map_of_mem hpiece
    exact ⟨hlexeme.ne_nil, kind_ne_eof_of_mem_words hword, hlexeme.literal_eq⟩

end Token

end ScriptLang
