import ScriptLang.Token.Scan

namespace ScriptLang.Token

open ScriptLang.Text

theorem markOrDouble_of_ne {single double : Kind} {mark : Char} {behind : List Char}
    (h : behind.head? ≠ some '=') :
    markOrDouble single double mark behind = (⟨single, String.ofList [mark]⟩, behind) := by
  unfold markOrDouble
  split
  · exact absurd rfl h
  · rfl

theorem isSeparator_eq_false_of_digit {c : Char} (h : c.isDigit = true) :
    isSeparator c = false := by
  rw [Bool.eq_false_iff]
  intro hsep
  simp only [isSeparator, Bool.or_eq_true, beq_iff_eq] at hsep
  rcases hsep with ((rfl | rfl) | rfl) | rfl <;> exact absurd h (by decide)

theorem words_of_blank {text : List Char} (h : text.dropWhile isSeparator = []) :
    words text = [] := by
  rw [words]
  split
  · rfl
  · rename_i heq
    simp [h] at heq

theorem words_of_dropWhile {text rest : List Char} {c : Char}
    (h : text.dropWhile isSeparator = c :: rest) :
    words text = (startingWith c rest).1 :: words (startingWith c rest).2 := by
  rw [words]
  split
  · rename_i heq
    simp [h] at heq
  · rename_i c' rest' heq
    rw [h, List.cons.injEq] at heq
    rw [heq.1, heq.2]

theorem Kind.ofWord_ne_eof (word : String) : Kind.ofWord word ≠ .eof := by
  unfold Kind.ofWord
  repeat' split
  all_goals decide

theorem Kind.ofMark?_ne_eof {c : Char} {kind : Kind} (h : Kind.ofMark? c = some kind) :
    kind ≠ .eof := by
  unfold Kind.ofMark? at h
  rintro rfl
  split at h <;> simp at h

theorem startingWith_kind_ne_eof (c : Char) (rest : List Char) :
    (startingWith c rest).1.kind ≠ .eof := by
  have double {single twofold : Kind} (mark : Char) (hsingle : single ≠ .eof)
      (htwofold : twofold ≠ .eof) : (markOrDouble single twofold mark rest).1.kind ≠ .eof := by
    unfold markOrDouble
    split
    · exact htwofold
    · exact hsingle
  unfold startingWith
  split
  · exact double '=' (by decide) (by decide)
  · exact double '!' (by decide) (by decide)
  · exact Kind.noConfusion
  · split
    · rename_i hmark
      exact Kind.ofMark?_ne_eof hmark
    · split
      · exact Kind.ofWord_ne_eof _
      · split
        · exact Kind.noConfusion
        · exact Kind.noConfusion

theorem kind_ne_eof_of_mem_words {text : List Char} {token : Token} (h : token ∈ words text) :
    token.kind ≠ .eof := by
  induction text using words.induct with
  | case1 text hblank =>
      rw [words_of_blank hblank] at h
      simp at h
  | case2 text c rest htext ih =>
      rw [words_of_dropWhile htext, List.mem_cons] at h
      rcases h with rfl | h
      · exact startingWith_kind_ne_eof c rest
      · exact ih h

section Front

theorem words_separator {c : Char} (h : isSeparator c = true) (rest : List Char) :
    words (c :: rest) = words rest := by
  have hdrop : (c :: rest).dropWhile isSeparator = rest.dropWhile isSeparator := by
    simp [List.dropWhile, h]
  cases hrest : rest.dropWhile isSeparator with
  | nil =>
      rw [words_of_blank hrest, words_of_blank (hdrop.trans hrest)]
  | cons d behind =>
      rw [words_of_dropWhile hrest, words_of_dropWhile (hdrop.trans hrest)]

@[simp] theorem words_space (rest : List Char) : words (' ' :: rest) = words rest :=
  words_separator rfl rest

@[simp] theorem words_nil : words [] = [] := words_of_blank rfl

theorem words_cons {c : Char} (h : isSeparator c = false) (rest : List Char) :
    words (c :: rest) = (startingWith c rest).1 :: words (startingWith c rest).2 := by
  apply words_of_dropWhile
  simp [List.dropWhile, h]

theorem isSeparator_eq_false_of_mark {c : Char} {kind : Kind} (h : Kind.ofMark? c = some kind) :
    isSeparator c = false := by
  unfold Kind.ofMark? at h
  split at h <;> first | rfl | cases h

theorem startingWith_mark {c : Char} {kind : Kind} (h : Kind.ofMark? c = some kind)
    (rest : List Char) : startingWith c rest = (⟨kind, String.ofList [c]⟩, rest) := by
  unfold startingWith
  split
  · cases h
  · cases h
  · cases h
  · rw [h]

theorem words_mark {c : Char} {kind : Kind} (h : Kind.ofMark? c = some kind) (rest : List Char) :
    words (c :: rest) = ⟨kind, String.ofList [c]⟩ :: words rest := by
  rw [words_cons (isSeparator_eq_false_of_mark h), startingWith_mark h]

theorem words_quote (text : List Char) :
    words ('"' :: text) =
      ⟨.string, String.ofList (Literal.read text).1⟩ :: words (Literal.read text).2 :=
  words_cons rfl text

/-- A text in front of which a word or a number comes to its end. -/
def Break (rest : List Char) : Prop :=
  ∀ c ∈ rest.head?, isLetter c = false ∧ c.isDigit = false

theorem break_nil : Break [] := by
  intro c hc
  cases hc

theorem break_cons {c : Char} {rest : List Char} :
    Break (c :: rest) ↔ isLetter c = false ∧ c.isDigit = false := by
  simp [Break]

theorem break_separator {c : Char} (h : isSeparator c = true) (rest : List Char) :
    Break (c :: rest) := by
  rw [break_cons]
  simp only [isSeparator, Bool.or_eq_true, beq_iff_eq] at h
  rcases h with ((rfl | rfl) | rfl) | rfl <;> decide

theorem takeWhile_append_of_break {p : Char → Bool} {text rest : List Char}
    (htext : ∀ c ∈ text, p c = true) (hrest : ∀ c ∈ rest.head?, p c = false) :
    (text ++ rest).takeWhile p = text ∧ (text ++ rest).dropWhile p = rest := by
  rw [List.takeWhile_append_of_pos htext, List.dropWhile_append_of_pos htext]
  cases rest with
  | nil => simp
  | cons c behind =>
      have hc : p c = false := hrest c rfl
      simp [hc]

theorem not_letter_of_mark {c : Char} {kind : Kind} (h : Kind.ofMark? c = some kind) :
    isLetter c = false := by
  unfold Kind.ofMark? at h
  split at h <;> first | rfl | cases h

theorem isSeparator_eq_false_of_letter {c : Char} (h : isLetter c = true) :
    isSeparator c = false := by
  rw [Bool.eq_false_iff]
  intro hsep
  simp only [isSeparator, Bool.or_eq_true, beq_iff_eq] at hsep
  rcases hsep with ((rfl | rfl) | rfl) | rfl <;> exact absurd h (by decide)

theorem startingWith_letter {c : Char} (h : isLetter c = true) (rest : List Char) :
    startingWith c rest =
      (⟨Kind.ofWord (String.ofList (c :: rest.takeWhile isLetter)),
        String.ofList (c :: rest.takeWhile isLetter)⟩, rest.dropWhile isLetter) := by
  unfold startingWith
  split
  · exact absurd h (by decide)
  · exact absurd h (by decide)
  · exact absurd h (by decide)
  · split
    · rename_i hmark
      rw [not_letter_of_mark hmark] at h
      cases h
    · rw [if_pos h]

theorem words_letters {word : String} {rest : List Char} (hne : word.toList ≠ [])
    (hletters : ∀ c ∈ word.toList, isLetter c = true) (hrest : Break rest) :
    words (word.toList ++ rest) = ⟨Kind.ofWord word, word⟩ :: words rest := by
  obtain ⟨c, others, hword⟩ := List.exists_cons_of_ne_nil hne
  rw [hword, List.forall_mem_cons] at hletters
  obtain ⟨htake, hdrop⟩ := takeWhile_append_of_break hletters.2 fun d hd => (hrest d hd).1
  rw [hword, List.cons_append, words_cons (isSeparator_eq_false_of_letter hletters.1),
    startingWith_letter hletters.1, htake, hdrop, ← hword, String.ofList_toList]

theorem not_letter_of_digit {c : Char} (h : c.isDigit = true) : isLetter c = false := by
  simp only [Char.isDigit, Bool.and_eq_true, decide_eq_true_eq] at h
  have hlow : c.toNat < 0x41 := Nat.lt_of_le_of_lt h.2 (by decide)
  have hne : (c == '_') = false := by
    rw [beq_eq_false_iff_ne]
    rintro rfl
    exact absurd hlow (by decide)
  have hrange : alphabetic.contains c.toNat = false := by
    change (decide (0x41 ≤ c.toNat) && _) = false
    rw [decide_eq_false (by omega), Bool.false_and]
  rw [isLetter, hne, hrange, Bool.or_false]

theorem startingWith_digit {c : Char} (h : c.isDigit = true) (rest : List Char) :
    startingWith c rest =
      (⟨.int, String.ofList (c :: rest.takeWhile Char.isDigit)⟩,
        rest.dropWhile Char.isDigit) := by
  have hletter := not_letter_of_digit h
  unfold startingWith
  split
  · exact absurd h (by decide)
  · exact absurd h (by decide)
  · exact absurd h (by decide)
  · split
    · rename_i kind hmark
      unfold Kind.ofMark? at hmark
      split at hmark <;> first | exact absurd h (by decide) | cases hmark
    · rw [if_neg (by simp [hletter]), if_pos h]

theorem words_digits {digits : String} {rest : List Char} (hne : digits.toList ≠ [])
    (hdigits : ∀ c ∈ digits.toList, c.isDigit = true) (hrest : Break rest) :
    words (digits.toList ++ rest) = ⟨.int, digits⟩ :: words rest := by
  obtain ⟨c, others, hchars⟩ := List.exists_cons_of_ne_nil hne
  rw [hchars, List.forall_mem_cons] at hdigits
  obtain ⟨htake, hdrop⟩ := takeWhile_append_of_break hdigits.2 fun d hd => (hrest d hd).2
  have hsep : isSeparator c = false := isSeparator_eq_false_of_digit hdigits.1
  rw [hchars, List.cons_append, words_cons hsep, startingWith_digit hdigits.1, htake, hdrop,
    ← hchars, String.ofList_toList]

end Front

end ScriptLang.Token
