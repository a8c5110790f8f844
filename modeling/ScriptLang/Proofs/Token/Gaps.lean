import ScriptLang.Program.Reading
import ScriptLang.Proofs.Token.Joining
import ScriptLang.Proofs.Token.Lexemes

namespace ScriptLang.Token

open ScriptLang.Text

section Places

/-- Where a reader is that keeps an eye on string literals only. -/
inductive Place where
  | outside
  | inside
  /-- Within a literal, behind a backslash. -/
  | escaped
  deriving DecidableEq, Repr

def Place.step : Place → Char → Place
  | .outside, c => if c = '"' then .inside else .outside
  | .inside, c => if c = '"' then .outside else if c = '\\' then .escaped else .inside
  | .escaped, _ => .inside

def Place.behind (place : Place) (text : List Char) : Place :=
  text.foldl Place.step place

/-- A text that ends before the string literal that it is in does. -/
def EndsInString (text : List Char) : Prop :=
  Place.outside.behind text ≠ .outside

instance (text : List Char) : Decidable (EndsInString text) :=
  inferInstanceAs (Decidable (_ ≠ _))

variable {token : Token} {text gap lexeme behind : List Char}

theorem Place.behind_append (place : Place) (text more : List Char) :
    place.behind (text ++ more) = (place.behind text).behind more :=
  List.foldl_append

theorem Place.behind_of_no_quote (h : ∀ c ∈ text, c ≠ '"') :
    Place.outside.behind text = .outside := by
  induction text with
  | nil => rfl
  | cons c text ih =>
      obtain ⟨hc, htext⟩ := List.forall_mem_cons.mp h
      change (Place.outside.step c).behind text = .outside
      rw [Place.step, if_neg hc, ih htext]

theorem Place.behind_body {body : List Char} (h : Literal.Spells body text) :
    Place.inside.behind body = .inside := by
  induction h with
  | nil => rfl
  | @plain c body _ hquote hslash _ ih =>
      change (Place.inside.step c).behind body = .inside
      rw [Place.step, if_neg hquote, if_neg hslash, ih]
  | lineFeed _ ih | tab _ ih | escaped _ _ _ ih => exact ih

theorem ne_of_separator {c d : Char} (h : isSeparator c = true) (hd : isSeparator d = false) :
    c ≠ d := by
  rintro rfl
  exact absurd (h.symm.trans hd) (by decide)

theorem Blank.behind_eq (h : Blank gap) : Place.outside.behind gap = .outside :=
  Place.behind_of_no_quote fun c hc => ne_of_separator (h c hc) rfl

end Places

section Endings

variable {token : Token} {text gap lexeme behind body lone : List Char}

theorem not_endsInString_literal (h : Literal.Spells body text) :
    ¬ EndsInString ('"' :: body ++ ['"']) := by
  have hplace : Place.outside.behind ('"' :: body) = .inside := Place.behind_body h
  rw [EndsInString, Place.behind_append, hplace]
  decide

theorem endsInString_unclosed (h : Literal.Spells body text) (hlone : lone = [] ∨ lone = ['\\']) :
    EndsInString ('"' :: body ++ lone) := by
  have hplace : Place.outside.behind ('"' :: body) = .inside := Place.behind_body h
  rw [EndsInString, Place.behind_append, hplace]
  rcases hlone with rfl | rfl <;> decide

theorem Lexeme.unclosed_of_endsInString (h : Lexeme token lexeme behind)
    (hends : EndsInString lexeme) :
    behind = [] ∧ ∃ body text lone, Literal.Spells body text ∧ (lone = [] ∨ lone = ['\\']) ∧
      lexeme = '"' :: body ++ lone ∧ token = ⟨.string, String.ofList text⟩ := by
  have hquote : '"' ∈ lexeme := by
    by_contra hno
    exact hends (Place.behind_of_no_quote fun c hc heq => hno (heq ▸ hc))
  cases h with
  | unclosed h hlone => exact ⟨rfl, _, _, _, h, hlone, rfl, rfl⟩
  | string h => exact absurd hends (not_endsInString_literal h)
  | mark h =>
      cases List.mem_singleton.mp hquote
      cases h
  | assign | bang | eq | notEq => simp at hquote
  | keyword h | name h | number h => exact absurd (h.all _ hquote) (by decide)
  | illegal _ _ hother =>
      cases List.mem_singleton.mp hquote
      simp at hother

theorem head?_append_separator {p : Char → Prop} {c : Char}
    (h : ∀ d ∈ behind.head?, p d) (hc : p c)
    (more : List Char) : ∀ d ∈ (behind ++ c :: more).head?, p d := by
  cases behind with
  | nil => simpa using hc
  | cons d behind => simpa using h

theorem Longest.append_separator {p : Char → Bool} {c : Char} (h : Longest p lexeme behind)
    (hc : p c = false) (more : List Char) : Longest p lexeme (behind ++ c :: more) :=
  { h with ends := head?_append_separator h.ends hc more }

/-- A lexeme that is no open string literal is the same when a separator follows. -/
theorem Lexeme.append_separator {c : Char} (h : Lexeme token lexeme behind)
    (hlexeme : ¬ EndsInString lexeme) (hc : isSeparator c = true) (more : List Char) :
    Lexeme token lexeme (behind ++ c :: more) := by
  have hbreak := break_cons.mp (break_separator hc more)
  have hequals (h : behind.head? ≠ some '=') : (behind ++ c :: more).head? ≠ some '=' := by
    have hne : ∀ d ∈ behind.head?, d ≠ '=' := by
      rintro d hd rfl
      exact h hd
    exact fun heq => head?_append_separator hne (ne_of_separator hc rfl) more '=' heq rfl
  cases h with
  | mark h => exact .mark h
  | assign h => exact .assign (hequals h)
  | bang h => exact .bang (hequals h)
  | eq => exact .eq
  | notEq => exact .notEq
  | keyword h hword => exact .keyword (h.append_separator hbreak.1 more) hword
  | name h hword => exact .name (h.append_separator hbreak.1 more) hword
  | number h => exact .number (h.append_separator hbreak.2 more)
  | string h => exact .string h
  | unclosed h hlone => exact absurd (endsInString_unclosed h hlone) hlexeme
  | illegal hsep hmark hother hletter hdigit => exact .illegal hsep hmark hother hletter hdigit

theorem spells_gap (hgap : Blank gap) : Literal.Spells gap gap := by
  induction gap with
  | nil => exact .nil
  | cons c gap ih =>
      obtain ⟨hc, hgap⟩ := List.forall_mem_cons.mp hgap
      exact .plain (ne_of_separator hc rfl) (ne_of_separator hc rfl) (ih hgap)

theorem spells_append {body' text' : List Char} (h : Literal.Spells body text)
    (h' : Literal.Spells body' text') : Literal.Spells (body ++ body') (text ++ text') := by
  induction h with
  | nil => exact h'
  | plain hquote hslash _ ih => exact .plain hquote hslash ih
  | lineFeed _ ih => exact .lineFeed ih
  | tab _ ih => exact .tab ih
  | escaped hn ht _ ih => exact .escaped hn ht ih

theorem spells_lone_gap (hlone : lone = [] ∨ lone = ['\\']) (hne : gap ≠ []) (hgap : Blank gap) :
    Literal.Spells (lone ++ gap) gap := by
  rcases hlone with rfl | rfl
  · exact spells_gap hgap
  · obtain ⟨c, gap, rfl⟩ := List.exists_cons_of_ne_nil hne
    obtain ⟨hc, hgap⟩ := List.forall_mem_cons.mp hgap
    exact .escaped (ne_of_separator hc rfl) (ne_of_separator hc rfl) (spells_gap hgap)

theorem Lexeme.append_gap (h : Lexeme token lexeme behind) (hlexeme : EndsInString lexeme)
    (hne : gap ≠ []) (hgap : Blank gap) :
    behind = [] ∧ ∃ token', token' ≠ token ∧ Lexeme token' (lexeme ++ gap) [] := by
  obtain ⟨hnil, body, text, lone, hbody, hlone, rfl, rfl⟩ := h.unclosed_of_endsInString hlexeme
  have hspells := spells_append hbody (spells_lone_gap hlone hne hgap)
  refine ⟨hnil, ⟨.string, String.ofList (text ++ gap)⟩, ?_, ?_⟩
  · intro heq
    have htext : text ++ gap = text := String.ofList_injective (Token.mk.inj heq).2
    exact hne (by simpa using htext)
  · simpa using Lexeme.unclosed hspells (.inl rfl)

end Endings

section Composition

variable {token : Token} {text gap lexeme behind trail : List Char} {pieces : List Piece}

theorem endsInString_piece (hgap : Blank gap) (h : Lexeme token lexeme behind) :
    EndsInString (gap ++ lexeme ++ behind) ↔ EndsInString lexeme ∨ EndsInString behind := by
  have hplace : Place.outside.behind (gap ++ lexeme) = Place.outside.behind lexeme := by
    rw [Place.behind_append, hgap.behind_eq]
  by_cases hlexeme : EndsInString lexeme
  · obtain ⟨rfl, -⟩ := h.unclosed_of_endsInString hlexeme
    simp only [hlexeme, true_or, iff_true, List.append_nil]
    rwa [EndsInString, hplace]
  · have hout : Place.outside.behind lexeme = .outside := not_not.mp hlexeme
    simp only [hlexeme, false_or]
    rw [EndsInString, EndsInString, Place.behind_append, hplace, hout]

theorem Cut.words_append_separator {c : Char} (h : Cut text pieces trail)
    (hends : ¬ EndsInString text) (hc : isSeparator c = true) (more : List Char) :
    words (text ++ c :: more) = words text ++ words more := by
  induction h with
  | blank h =>
      have hblank := words_of_blank h.dropWhile
      rw [words_append_of_blank hblank, hblank, words_separator hc, List.nil_append]
  | piece hgap hlexeme _ ih =>
      rw [endsInString_piece hgap hlexeme, not_or] at hends
      rw [List.append_assoc, words_lexeme hgap (hlexeme.append_separator hends.1 hc more),
        words_lexeme hgap hlexeme, ih hends.2, List.cons_append]

theorem Cut.words_append_gap_ne {gap : List Char} (h : Cut text pieces trail)
    (hends : EndsInString text) (hne : gap ≠ []) (hgap : Blank gap) :
    words (text ++ gap) ≠ words text := by
  induction h with
  | blank h => exact absurd h.behind_eq hends
  | @piece front lexeme behind _ _ _ hfront hlexeme _ ih =>
      rw [words_lexeme hfront hlexeme, List.append_assoc]
      by_cases hopen : EndsInString lexeme
      · obtain ⟨rfl, token', hother, hgrown⟩ := hlexeme.append_gap hopen hne hgap
        have hwords := words_lexeme hfront hgrown
        rw [List.append_nil, ← List.append_assoc] at hwords
        rw [List.nil_append, hwords]
        exact fun heq => hother (List.cons.inj heq).1
      · have hbehind := ((endsInString_piece hfront hlexeme).mp hends).resolve_left hopen
        obtain ⟨c, others, rfl⟩ := List.exists_cons_of_ne_nil hne
        rw [words_lexeme hfront
          (hlexeme.append_separator hopen (hgap c List.mem_cons_self) others)]
        exact fun heq => ih hbehind (List.cons.inj heq).2

/-- Separators keep two texts apart if, and only if, the first one does not end in a string
literal. -/
theorem words_append_gap_iff (text : List Char) (hne : gap ≠ []) (hgap : Blank gap) :
    (∀ more, words (text ++ gap ++ more) = words text ++ words more) ↔ ¬ EndsInString text := by
  obtain ⟨pieces, trail, hcut⟩ := Cut.exists_of_text text
  constructor
  · intro hall hends
    apply hcut.words_append_gap_ne hends hne hgap
    simpa using hall []
  · intro hends more
    obtain ⟨c, others, rfl⟩ := List.exists_cons_of_ne_nil hne
    obtain ⟨hc, hothers⟩ := List.forall_mem_cons.mp hgap
    rw [List.append_assoc, List.cons_append, hcut.words_append_separator hends hc,
      words_append_of_blank (words_of_blank (Blank.dropWhile hothers))]

/-- A text that ends in a string literal has that literal for its last word. -/
theorem Cut.last_of_endsInString (h : Cut text pieces trail) (hends : EndsInString text) :
    ∃ last ∈ (words text).getLast?, last.kind = .string := by
  induction h with
  | blank h => exact absurd h.behind_eq hends
  | piece hgap hlexeme _ ih =>
      rw [words_lexeme hgap hlexeme]
      rcases (endsInString_piece hgap hlexeme).mp hends with hopen | hbehind
      · obtain ⟨rfl, _, _, _, _, _, _, rfl⟩ := hlexeme.unclosed_of_endsInString hopen
        rw [words_nil]
        exact ⟨_, rfl, rfl⟩
      · obtain ⟨last, hlast, hkind⟩ := ih hbehind
        exact ⟨last, by simp [List.getLast?_cons, Option.mem_def.mp hlast], hkind⟩

theorem EndsInString.concat_separator {c : Char} (h : EndsInString text)
    (hc : isSeparator c = true) :
    EndsInString (text ++ [c]) := by
  rw [EndsInString, Place.behind_append]
  cases hplace : Place.outside.behind text with
  | outside => exact absurd hplace h
  | inside =>
      simp [Place.behind, Place.step, ne_of_separator hc (d := '"') rfl,
        ne_of_separator hc (d := '\\') rfl]
  | escaped => simp [Place.behind, Place.step]

/-- A separator at the end of a text is of no account, unless a string literal is the last
word. -/
theorem words_concat_separator {c : Char} {last : Token} (hc : isSeparator c = true)
    (hlast : last ∈ (words (text ++ [c])).getLast?) (hkind : last.kind ≠ .string) :
    words (text ++ [c]) = words text := by
  by_cases hends : EndsInString text
  · obtain ⟨_, _, hcut⟩ := Cut.exists_of_text (text ++ [c])
    obtain ⟨last', hlast', hstring⟩ := hcut.last_of_endsInString (hends.concat_separator hc)
    obtain rfl := Option.mem_unique hlast hlast'
    exact absurd hstring hkind
  · obtain ⟨_, _, hcut⟩ := Cut.exists_of_text text
    rw [hcut.words_append_separator hends hc, words_nil, List.append_nil]

end Composition

section Respacing

/-- Separators between two texts.  There may be none where no token goes on from the one text to
the other. -/
structure Parts (gap before behind : List Char) : Prop where
  blank : Blank gap
  between : gap = [] → words (before ++ behind) = words before ++ words behind

/-- Two texts that differ at most in the separators between tokens, in how many there are and
which. -/
inductive Respaced : List Char → List Char → Prop where
  | same (text : List Char) : Respaced text text
  | gap (before gap gap' : List Char) {behind behind' : List Char}
      (hbefore : ¬ EndsInString before)
      (h : Parts gap before behind) (h' : Parts gap' before behind')
      (hbehind : Respaced behind behind') :
      Respaced (before ++ gap ++ behind) (before ++ gap' ++ behind')

theorem Parts.words_eq {gap before behind : List Char} (h : Parts gap before behind)
    (hbefore : ¬ EndsInString before) :
    words (before ++ gap ++ behind) = words before ++ words behind := by
  by_cases hgap : gap = []
  · rw [hgap, List.append_nil, h.between hgap]
  · exact (words_append_gap_iff before hgap h.blank).mpr hbefore behind

theorem Respaced.words_eq {a b : List Char} (h : Respaced a b) : words a = words b := by
  induction h with
  | same => rfl
  | gap _ _ _ hbefore h h' _ ih => rw [h.words_eq hbefore, h'.words_eq hbefore, ih]

end Respacing

theorem tokenize_append_iff (a gap : String) :
    (∀ b, tokenize (a ++ gap ++ b) = (tokenize a).dropLast ++ tokenize b) ↔
      ∀ more, words (a.toList ++ gap.toList ++ more) = words a.toList ++ words more := by
  have htokens (b : String) :
      tokenize (a ++ gap ++ b) = (tokenize a).dropLast ++ tokenize b ↔
        words (a.toList ++ gap.toList ++ b.toList) = words a.toList ++ words b.toList := by
    rw [tokenize, tokenize, tokenize, String.toList_append, String.toList_append,
      List.dropLast_concat, ← List.append_assoc]
    exact List.append_left_inj _
  constructor
  · intro h more
    simpa using (htokens (String.ofList more)).mp (h (String.ofList more))
  · intro h b
    exact (htokens b).mpr (h b.toList)

/-- Tokens are read across separators.  One or more separators between two texts keep their tokens
apart if, and only if, the first text does not end in a string literal.  So texts that differ only
in the separators between their tokens have the same tokens, the same reading and the same program
or diagnostics. -/
theorem tokenize_across_separators :
    (∀ a gap : String, gap ≠ "" → Blank gap.toList →
      ((∀ b, tokenize (a ++ gap ++ b) = (tokenize a).dropLast ++ tokenize b) ↔
        ¬ EndsInString a.toList)) ∧
    ∀ a b : String, Respaced a.toList b.toList →
      tokenize a = tokenize b ∧ Reading.ofSource a = Reading.ofSource b ∧
        Program.parse a = Program.parse b := by
  constructor
  · intro a gap hne hgap
    have hlist : gap.toList ≠ [] := by simpa using hne
    rw [tokenize_append_iff, words_append_gap_iff a.toList hlist hgap]
  · intro a b h
    have hreading : Reading.ofSource a = Reading.ofSource b := by
      rw [Reading.ofSource, Reading.ofSource, h.words_eq]
    refine ⟨?_, hreading, ?_⟩
    · rw [tokenize, tokenize, h.words_eq]
    · rw [Program.parse, Program.parse, hreading]

/-- A line feed behind a string literal with a blank in it, and a sum with and without blanks. -/
theorem tokenize_across_line_feed :
    ¬ EndsInString "\"a b\"".toList ∧ Blank "\n".toList ∧
      tokenize ("\"a b\"" ++ "\n" ++ "x") = (tokenize "\"a b\"").dropLast ++ tokenize "x" ∧
      Respaced "1+2".toList "1\t+\n2".toList ∧ Program.parse "1+2" = Program.parse "1\t+\n2" := by
  have hends : ¬ EndsInString "\"a b\"".toList := by decide
  have hgap : Blank "\n".toList := by simp [Blank, isSeparator]
  have hspaced : Respaced "1+2".toList "1\t+\n2".toList := by
    refine .gap ['1'] [] ['\t'] (by decide) ⟨?_, ?_⟩ ⟨?_, ?_⟩
      (.gap ['+'] [] ['\n'] (by decide) ⟨?_, ?_⟩ ⟨?_, ?_⟩ (.same ['2']))
    all_goals first | decide +kernel | simp [Blank, isSeparator]
  refine ⟨hends, hgap, ?_, hspaced, ?_⟩
  · exact (tokenize_across_separators.1 _ "\n" (by decide) hgap).mpr hends "x"
  · exact (tokenize_across_separators.2 _ _ hspaced).2.2

end ScriptLang.Token
