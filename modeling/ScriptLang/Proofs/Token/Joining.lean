import ScriptLang.Proofs.Text.Literals
import ScriptLang.Proofs.Token.Words

namespace ScriptLang

namespace Text.Literal

/-- A literal that is closed within a text does not look behind it. -/
theorem read_append {text : List Char} (h : (read text).2 ≠ []) (more : List Char) :
    read (text ++ more) = ((read text).1, (read text).2 ++ more) := by
  fun_induction read text with
  | case1 => exact absurd rfl h
  | case2 rest => rfl
  | case3 => exact absurd rfl h
  | case4 c rest text behind hread ih =>
      rw [hread] at ih
      rw [List.cons_append, List.cons_append, read, ih h]
  | case5 c rest hquote hlast hescape text behind hread ih =>
      rw [hread] at ih
      have hslash : c ≠ '\\' := by
        intro hc
        cases rest with
        | nil => exact hlast hc rfl
        | cons d rest => exact hescape d rest hc rfl
      rw [List.cons_append, read_plain hquote hslash, ih h]

end Text.Literal

namespace Token

open ScriptLang.Text

theorem takeWhile_append_of_dropWhile {p : Char → Bool} {text : List Char}
    (h : text.dropWhile p ≠ []) (more : List Char) :
    (text ++ more).takeWhile p = text.takeWhile p ∧
      (text ++ more).dropWhile p = text.dropWhile p ++ more := by
  induction text with
  | nil => exact absurd rfl h
  | cons c text ih =>
      cases hc : p c with
      | true =>
          simp only [List.dropWhile_cons, hc, if_true] at h
          simp [List.cons_append, hc, ih h]
      | false => simp [hc]

theorem markOrDouble_append {single double : Kind} {mark : Char} {rest : List Char}
    (h : (markOrDouble single double mark rest).2 ≠ []) (more : List Char) :
    markOrDouble single double mark (rest ++ more) =
      ((markOrDouble single double mark rest).1,
        (markOrDouble single double mark rest).2 ++ more) := by
  cases rest with
  | nil => exact absurd rfl h
  | cons d rest =>
      by_cases hd : d = '='
      · subst hd
        rfl
      · have hsingle (behind : List Char) : markOrDouble single double mark (d :: behind) =
            (⟨single, String.ofList [mark]⟩, d :: behind) :=
              markOrDouble_of_ne (by simpa using hd)
        rw [List.cons_append, hsingle, hsingle, List.cons_append]

/-- A token with something behind it is the same when more text follows. -/
theorem startingWith_append {c : Char} {rest : List Char} (h : (startingWith c rest).2 ≠ [])
    (more : List Char) : startingWith c (rest ++ more) =
      ((startingWith c rest).1, (startingWith c rest).2 ++ more) := by
  unfold startingWith at h ⊢
  split at h
  · exact markOrDouble_append h more
  · exact markOrDouble_append h more
  · rw [Literal.read_append h]
  · cases hmark : Kind.ofMark? c with
    | some kind => rfl
    | none =>
        simp only [hmark] at h ⊢
        by_cases hletter : isLetter c = true
        · simp only [hletter, if_true] at h ⊢
          obtain ⟨htake, hdrop⟩ := takeWhile_append_of_dropWhile h more
          rw [htake, hdrop]
        · simp only [hletter, Bool.false_eq_true, if_false] at h ⊢
          by_cases hdigit : c.isDigit = true
          · simp only [hdigit, if_true] at h ⊢
            obtain ⟨htake, hdrop⟩ := takeWhile_append_of_dropWhile h more
            rw [htake, hdrop]
          · simp only [hdigit, Bool.false_eq_true, if_false]

theorem Kind.ofWord_ne_semicolon (word : String) : Kind.ofWord word ≠ .semicolon := by
  unfold Kind.ofWord
  repeat' split
  all_goals decide

theorem eq_semicolon_of_startingWith {c : Char} {rest : List Char}
    (h : (startingWith c rest).1.kind = .semicolon) : c = ';' := by
  have double {single twofold : Kind} {mark : Char} (hsingle : single ≠ .semicolon)
      (htwofold : twofold ≠ .semicolon) :
      (markOrDouble single twofold mark rest).1.kind ≠ .semicolon := by
    unfold markOrDouble
    split
    · exact htwofold
    · exact hsingle
  unfold startingWith at h
  split at h
  · exact absurd h (double (by decide) (by decide))
  · exact absurd h (double (by decide) (by decide))
  · cases h
  · cases hmark : Kind.ofMark? c with
    | some kind =>
        simp only [hmark] at h
        subst h
        unfold Kind.ofMark? at hmark
        split at hmark <;> first | rfl | cases hmark
    | none =>
        simp only [hmark] at h
        split at h
        · exact absurd h (Kind.ofWord_ne_semicolon _)
        · split at h <;> cases h

theorem words_dropWhile (text : List Char) : words (text.dropWhile isSeparator) = words text := by
  induction text with
  | nil => rfl
  | cons c text ih =>
      cases hc : isSeparator c with
      | true => rw [List.dropWhile_cons_of_pos hc, ih, words_separator hc]
      | false => rw [List.dropWhile_cons_of_neg (by simp [hc])]

theorem dropWhile_eq_nil_of_words {text : List Char} (h : words text = []) :
    text.dropWhile isSeparator = [] := by
  cases htext : text.dropWhile isSeparator with
  | nil => rfl
  | cons c rest =>
      rw [words_of_dropWhile htext] at h
      cases h

theorem words_append_of_blank {text : List Char} (h : words text = []) (more : List Char) :
    words (text ++ more) = words more := by
  have hdrop : (text ++ more).dropWhile isSeparator = more.dropWhile isSeparator := by
    rw [List.dropWhile_append, dropWhile_eq_nil_of_words h]
    rfl
  rw [← words_dropWhile, hdrop, words_dropWhile]

/-- A text whose last word is a semicolon can be followed by any other. -/
theorem words_append {text : List Char} {last : Token} (hlast : (words text).getLast? = some last)
    (hkind : last.kind = .semicolon) (more : List Char) :
    words (text ++ more) = words text ++ words more := by
  induction text using words.induct with
  | case1 text hblank =>
      rw [words_of_blank hblank] at hlast
      cases hlast
  | case2 text c rest htext ih =>
      have hmore : (text ++ more).dropWhile isSeparator = c :: (rest ++ more) := by
        rw [List.dropWhile_append, htext]
        rfl
      rw [words_of_dropWhile htext] at hlast ⊢
      rw [words_of_dropWhile hmore]
      cases hbehind : words (startingWith c rest).2 with
      | nil =>
          rw [hbehind] at hlast
          cases hlast
          obtain rfl := eq_semicolon_of_startingWith hkind
          have hmark : Kind.ofMark? ';' = some .semicolon := rfl
          rw [startingWith_mark hmark] at hbehind ⊢
          rw [startingWith_mark hmark, words_append_of_blank hbehind]
          rfl
      | cons second others =>
          have hne : (startingWith c rest).2 ≠ [] := by
            intro hnil
            rw [hnil, words_nil] at hbehind
            cases hbehind
          rw [hbehind, List.getLast?_cons_cons, ← hbehind] at hlast
          rw [startingWith_append hne, ih hlast, hbehind]
          rfl

end Token

end ScriptLang
