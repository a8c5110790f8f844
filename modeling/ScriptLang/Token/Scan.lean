import ScriptLang.Text.Blank
import ScriptLang.Text.Letters
import ScriptLang.Text.Literal
import ScriptLang.Token.Basic

namespace ScriptLang.Token

open ScriptLang.Text

/-- A mark that becomes another one when an equals sign follows at once. -/
def markOrDouble (single double : Kind) (c : Char) : List Char → Token × List Char
  | '=' :: rest => (⟨double, String.ofList [c, '=']⟩, rest)
  | rest => (⟨single, String.ofList [c]⟩, rest)

/-- The token whose first character is `c`, and the text behind it. -/
def startingWith (c : Char) (rest : List Char) : Token × List Char :=
  match c with
  | '=' => markOrDouble .assign .eq '=' rest
  | '!' => markOrDouble .bang .notEq '!' rest
  | '"' => (⟨.string, String.ofList (Literal.read rest).1⟩, (Literal.read rest).2)
  | c =>
      match Kind.ofMark? c with
      | some kind => (⟨kind, String.ofList [c]⟩, rest)
      | none =>
          if isLetter c then
            let word := String.ofList (c :: rest.takeWhile isLetter)
            (⟨Kind.ofWord word, word⟩, rest.dropWhile isLetter)
          else if c.isDigit then
            (⟨.int, String.ofList (c :: rest.takeWhile Char.isDigit)⟩,
              rest.dropWhile Char.isDigit)
          else
            (⟨.illegal, String.ofList [c]⟩, rest)

/-- The first token of a text, and the text behind it.  Behind the last word stands the end of
input, however often it is asked for. -/
def next (text : List Char) : Token × List Char :=
  match text.dropWhile isSeparator with
  | [] => (endOfInput, [])
  | c :: rest => startingWith c rest

/-- A token takes its first character away, whatever else it takes. -/
theorem length_startingWith_snd_le (c : Char) (rest : List Char) :
    (startingWith c rest).2.length ≤ rest.length := by
  have double (single twofold : Kind) (mark : Char) :
      (markOrDouble single twofold mark rest).2.length ≤ rest.length := by
    unfold markOrDouble
    split <;> simp
  unfold startingWith
  split
  · exact double ..
  · exact double ..
  · exact Literal.length_read_snd_le rest
  · split
    · exact Nat.le_refl _
    · split
      · exact (List.dropWhile_sublist _).length_le
      · split
        · exact (List.dropWhile_sublist _).length_le
        · exact Nat.le_refl _

/-- The words of a text, without the end of input. -/
def words (text : List Char) : List Token :=
  match _h : text.dropWhile isSeparator with
  | [] => []
  | c :: rest => (startingWith c rest).1 :: words (startingWith c rest).2
termination_by text.length
decreasing_by
  have h₁ := length_startingWith_snd_le c rest
  have h₂ := (List.dropWhile_sublist (l := text) isSeparator).length_le
  simp only [_h, List.length_cons] at h₂
  omega

/-- All tokens of a program, the end of input last. -/
def tokenize (source : String) : List Token :=
  words source.toList ++ [endOfInput]

end ScriptLang.Token
