namespace ScriptLang.Text.Literal

/-- A quote, a backslash, a line feed and a tab are written with a backslash in front, every other
character stands for itself. -/
def escapeChar : Char → List Char
  | '"' => ['\\', '"']
  | '\\' => ['\\', '\\']
  | '\n' => ['\\', 'n']
  | '\t' => ['\\', 't']
  | c => [c]

/-- The body of the literal that spells a text. -/
def escape (text : String) : String :=
  String.ofList (text.toList.flatMap escapeChar)

/-- The literal that spells a text, quotes included. -/
def quote (text : String) : String :=
  "\"" ++ escape text ++ "\""

/-- The character that a backslash and this character stand for together. -/
def unescapeChar : Char → Char
  | 'n' => '\n'
  | 't' => '\t'
  | c => c

/-- Reads the body of a literal, from behind its opening quote.  The result is the text spelled
and what follows the closing quote.  A literal that is never closed runs to the end, and a
backslash with nothing behind it spells nothing. -/
def read : List Char → List Char × List Char
  | [] => ([], [])
  | '"' :: rest => ([], rest)
  | ['\\'] => ([], [])
  | '\\' :: c :: rest =>
      let (text, behind) := read rest
      (unescapeChar c :: text, behind)
  | c :: rest =>
      let (text, behind) := read rest
      (c :: text, behind)

/-- Reading a literal never gives back more than it was given. -/
theorem length_read_snd_le (cs : List Char) : (read cs).2.length ≤ cs.length := by
  fun_induction read cs with
  | case1 => exact Nat.le_refl _
  | case2 rest => simp
  | case3 => simp
  | case4 c rest text behind hread ih =>
      have := congrArg (fun p => p.2.length) hread
      simp at this ih ⊢
      omega
  | case5 c rest _ _ _ text behind hread ih =>
      have := congrArg (fun p => p.2.length) hread
      simp at this ih ⊢
      omega

end ScriptLang.Text.Literal
