import ScriptLang.Proofs.Text.Literals
import ScriptLang.Proofs.Token.Words
import ScriptLang.Token.Cursor

namespace ScriptLang.Token

open ScriptLang.Text

/-- The first token of a text is its first word, or the end of input if there are no words. -/
theorem next_cases (text : List Char) :
    (words text = [] ∧ next text = (endOfInput, [])) ∨
      (words text = (next text).1 :: words (next text).2 ∧ (next text).1.kind ≠ .eof) := by
  cases htext : text.dropWhile Text.isSeparator with
  | nil =>
      refine .inl ⟨words_of_blank htext, ?_⟩
      rw [next, htext]
  | cons c rest =>
      have hnext : next text = startingWith c rest := by rw [next, htext]
      rw [hnext]
      exact .inr ⟨words_of_dropWhile htext, startingWith_kind_ne_eof c rest⟩

/-- A quote begins a literal, and escapes are read back up to the quote behind them. -/
theorem next_escaped (text : String) (rest : List Char) :
    next ('"' :: ((Literal.escape text).toList ++ '"' :: rest)) = (⟨.string, text⟩, rest) := by
  change ((⟨.string, String.ofList (Literal.read _).1⟩ : Token), (Literal.read _).2) = _
  rw [Literal.escape, String.toList_ofList, Literal.read_escape, String.ofList_toList]

namespace Cursor

inductive Use where
  | next
  | pull
  /-- Drains a copy. -/
  | drainCopy
  deriving DecidableEq

inductive Answer where
  | next (token : Token)
  | pull (token? : Option Token)
  | drainCopy (tokens : List Token)
  deriving DecidableEq

def use (cursor : Cursor) : Use → Answer × Cursor
  | .next => (.next cursor.next.1, cursor.next.2)
  | .pull => (.pull cursor.pull.1, cursor.pull.2)
  | .drainCopy => (.drainCopy cursor.drain.1, cursor)

def useAll (cursor : Cursor) : List Use → List Answer × Cursor
  | [] => ([], cursor)
  | first :: others =>
      ((cursor.use first).1 :: ((cursor.use first).2.useAll others).1,
        ((cursor.use first).2.useAll others).2)

namespace Answer

/-- The token that the cursor itself hands out.  One that a copy hands out does not count. -/
def token? : Answer → Option Token
  | next token => some token
  | pull token? => token?
  | drainCopy _ => none

def isCopied : Answer → Bool
  | drainCopy _ => true
  | _ => false

end Answer

def handedOut (answers : List Answer) : List Token :=
  answers.filterMap Answer.token?

/-- An end of input that `pull` has handed out. -/
def PulledEnd (answers : List Answer) : Prop :=
  ∃ token, .pull (some token) ∈ answers ∧ token.kind = .eof

variable {cursor : Cursor} {answer : Answer} {answers : List Answer}

theorem pull_of_finished (h : cursor.finished = true) : cursor.pull = (none, cursor) := by
  rw [pull, if_pos h]

theorem pull_of_unfinished (h : cursor.finished = false) :
    cursor.pull = (some (Token.next cursor.rest).1,
      ⟨(Token.next cursor.rest).2, decide ((Token.next cursor.rest).1.kind = .eof)⟩) := by
  rw [pull, if_neg (by simp [h])]

theorem pulledEnd_cons : PulledEnd (answer :: answers) ↔
    (∃ token, answer = .pull (some token) ∧ token.kind = .eof) ∨ PulledEnd answers := by
  simp only [PulledEnd, List.mem_cons]
  constructor
  · rintro ⟨token, rfl | hmem, hkind⟩
    · exact .inl ⟨token, rfl, hkind⟩
    · exact .inr ⟨token, hmem, hkind⟩
  · rintro (⟨token, rfl, hkind⟩ | ⟨token, hmem, hkind⟩)
    · exact ⟨token, .inl rfl, hkind⟩
    · exact ⟨token, .inr hmem, hkind⟩

section Steps

/-- The token taken off the front and the words behind it are the words in front of it, or an end
of input. -/
theorem exists_words_next (text : List Char) : ∃ ends,
    (Token.next text).1 :: words (Token.next text).2 =
      words text ++ List.replicate ends endOfInput := by
  obtain ⟨hwords, hnext⟩ | ⟨hwords, -⟩ := next_cases text
  · refine ⟨1, ?_⟩
    rw [hwords, hnext, words_nil]
    rfl
  · exact ⟨0, by simp [hwords]⟩

theorem exists_words_use (cursor : Cursor) (u : Use) : ∃ ends,
    (cursor.use u).1.token?.toList ++ words (cursor.use u).2.rest =
      words cursor.rest ++ List.replicate ends endOfInput := by
  cases u with
  | next => exact exists_words_next cursor.rest
  | pull =>
      cases hfinished : cursor.finished with
      | true => exact ⟨0, by simp [use, pull_of_finished hfinished, Answer.token?]⟩
      | false =>
          rw [use, pull_of_unfinished hfinished]
          exact exists_words_next cursor.rest
  | drainCopy => exact ⟨0, by simp [use, Answer.token?]⟩

/-- Only a `pull` that hands out the end of input makes the cursor finished. -/
theorem finished_use (cursor : Cursor) (u : Use) : (cursor.use u).2.finished = true ↔
    cursor.finished = true ∨ ∃ token, (cursor.use u).1 = .pull (some token) ∧
      token.kind = .eof := by
  cases u with
  | next => simp [use, Cursor.next]
  | pull =>
      cases hfinished : cursor.finished with
      | true => simp [use, pull_of_finished hfinished, hfinished]
      | false => simp [use, pull_of_unfinished hfinished]
  | drainCopy => simp [use]

end Steps

section Runs

/-- What is handed out and what is left are the words of the text, and ends of input behind
them. -/
theorem exists_words_useAll (cursor : Cursor) (uses : List Use) : ∃ ends,
    handedOut (cursor.useAll uses).1 ++ words (cursor.useAll uses).2.rest =
      words cursor.rest ++ List.replicate ends endOfInput := by
  induction uses generalizing cursor with
  | nil => exact ⟨0, by simp [useAll, handedOut]⟩
  | cons first others ih =>
      obtain ⟨ends, hfirst⟩ := exists_words_use cursor first
      obtain ⟨more, hothers⟩ := ih (cursor.use first).2
      have hhanded : handedOut (cursor.useAll (first :: others)).1 =
          (cursor.use first).1.token?.toList ++ handedOut
            ((cursor.use first).2.useAll others).1 := by
        rw [useAll, handedOut, List.filterMap_cons]
        cases (cursor.use first).1.token? <;> rfl
      refine ⟨ends + more, ?_⟩
      rw [hhanded, List.append_assoc, useAll, hothers, ← List.append_assoc,
        hfirst, List.append_assoc,
        List.replicate_append_replicate]

theorem finished_useAll (cursor : Cursor) (uses : List Use) :
    (cursor.useAll uses).2.finished = true ↔
      cursor.finished = true ∨ PulledEnd (cursor.useAll uses).1 := by
  induction uses generalizing cursor with
  | nil => simp [useAll, PulledEnd]
  | cons first others ih => rw [useAll, ih, finished_use, pulledEnd_cons, or_assoc]

theorem useAll_filter_copies (cursor : Cursor) (uses : List Use) :
    cursor.useAll (uses.filter (· ≠ .drainCopy)) =
      ((cursor.useAll uses).1.filter (!·.isCopied), (cursor.useAll uses).2) := by
  induction uses generalizing cursor with
  | nil => rfl
  | cons first others ih =>
      cases first with
      | drainCopy =>
          rw [List.filter_cons_of_neg (by simp), ih]
          rfl
      | next | pull =>
          rw [List.filter_cons_of_pos (by simp), useAll, ih]
          rfl

theorem drain_of_finished (h : cursor.finished = true) : cursor.drain = ([], cursor) := by
  rw [drain, if_pos h]

theorem drain_of_unfinished (h : cursor.finished = false) :
    cursor.drain = ((Token.next cursor.rest).1 :: cursor.pull.2.drain.1,
      cursor.pull.2.drain.2) := by
  rw [drain, if_neg (by simp [h]), pull_of_unfinished h]
  obtain ⟨hwords, hnext⟩ | ⟨hwords, hkind⟩ := next_cases cursor.rest
  · rw [hwords, hnext, drain_of_finished rfl]
    rfl
  · rw [hwords, drain, if_neg (by simp [hkind])]
    rfl

/-- Draining a cursor is pulling until nothing comes. -/
theorem useAll_pull_eq_drain (cursor : Cursor) :
    cursor.useAll (List.replicate (cursor.drain.1.length + 1) .pull) =
      (cursor.drain.1.map (.pull ∘ some) ++ [.pull none], cursor.drain.2) := by
  induction htokens : cursor.drain.1 generalizing cursor with
  | nil =>
      cases hfinished : cursor.finished with
      | true =>
          rw [drain_of_finished hfinished, List.length_nil, List.replicate_one]
          simp only [useAll, use, pull_of_finished hfinished]
          rfl
      | false => simp [drain_of_unfinished hfinished] at htokens
  | cons token tokens ih =>
      cases hfinished : cursor.finished with
      | true => simp [drain_of_finished hfinished] at htokens
      | false =>
          rw [drain_of_unfinished hfinished] at htokens ⊢
          obtain ⟨rfl, hothers⟩ := List.cons.inj htokens
          rw [List.length_cons, List.replicate_succ, useAll, use, ih cursor.pull.2 hothers]
          simp [pull_of_unfinished hfinished]

end Runs

/-- The two ways to read a text agree however they are mixed.  The tokens handed out are the first
ones of the text, with the end of input behind them forever.  `pull` gives nothing if, and only
if, an earlier `pull` has handed out the end of input.  Draining copies, which is pulling from
them until nothing comes, changes nothing for the cursor. -/
theorem mixed_uses_follow_tokens (source : String) (uses : List Use) :
    let answers := ((ofString source).useAll uses).1
    let cursor := ((ofString source).useAll uses).2
    (∃ ends, handedOut answers <+: tokenize source ++ List.replicate ends endOfInput) ∧
    (cursor.pull.1 = none ↔ PulledEnd answers) ∧
    (ofString source).useAll (uses.filter (· ≠ .drainCopy)) =
      (answers.filter (!·.isCopied), cursor) ∧
    cursor.useAll (List.replicate (cursor.drain.1.length + 1) .pull) =
      (cursor.drain.1.map (.pull ∘ some) ++ [.pull none], cursor.drain.2) := by
  intro answers cursor
  refine ⟨?_, ?_, useAll_filter_copies _ uses, useAll_pull_eq_drain cursor⟩
  · obtain ⟨ends, hwords⟩ := exists_words_useAll (ofString source) uses
    have hhanded : handedOut answers <+: words source.toList ++ List.replicate ends endOfInput :=
      ⟨_, hwords⟩
    refine ⟨ends, hhanded.trans ?_⟩
    rw [tokenize, List.append_assoc, List.singleton_append, ← List.replicate_succ,
      List.replicate_succ', ← List.append_assoc]
    exact List.prefix_append _ _
  · have hfinished : cursor.finished = true ↔ PulledEnd answers :=
      (finished_useAll (ofString source) uses).trans (or_iff_right Bool.false_ne_true)
    rw [← hfinished]
    cases hcursor : cursor.finished with
    | true => simp [pull_of_finished hcursor]
    | false => simp [pull_of_unfinished hcursor]

/-- `next` may come to the end first, and `pull` still gives the end of input once. -/
example : ((ofString "x").useAll [.next, .next, .pull, .pull, .next]).1 =
    [.next ⟨.ident, "x"⟩, .next endOfInput, .pull (some endOfInput),
      .pull none, .next endOfInput] := by
  decide +kernel

/-- Escaping a text and reading a literal undo each other, whatever stands behind the literal.  A
cursor in front of an escaped text between quotes hands out that very text as a string, and is
left right behind the closing quote.  Inside the literal the text has been read exactly where its
escapes end, whatever follows them there. -/
theorem escaped_text_is_read_back (text : String) (rest : List Char) (finished : Bool) :
    next ⟨'"' :: ((Literal.escape text).toList ++ '"' :: rest), finished⟩ =
      (⟨.string, text⟩, ⟨rest, finished⟩) ∧
    pull ⟨'"' :: ((Literal.escape text).toList ++ '"' :: rest), false⟩ =
      (some ⟨.string, text⟩, ⟨rest, false⟩) ∧
    ∀ more, Literal.read ((Literal.escape text).toList ++ more) =
      (text.toList ++ (Literal.read more).1, (Literal.read more).2) := by
  refine ⟨?_, ?_, fun more => ?_⟩
  · rw [next, next_escaped]
  · rw [pull_of_unfinished rfl, next_escaped]
    rfl
  · rw [Literal.escape, String.toList_ofList]
    exact Literal.read_escape_append text.toList more

/-- Backslashes and quotes in a row, a line feed, and a text that begins like an escape. -/
example : (ofString ("\"" ++ Literal.escape "\\\"\\\n\\n" ++ "\"\"n")).next =
    (⟨.string, "\\\"\\\n\\n"⟩, ⟨['"', 'n'], false⟩) := by
  decide +kernel

end Cursor

end ScriptLang.Token
