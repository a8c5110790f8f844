import ScriptLang.Text.Unprintable

namespace ScriptLang.Text.Listing

/-- A code point by number: a backslash, the letter u and its lower-case hexadecimal digits in
braces. -/
def numbered (c : Char) : List Char :=
  '\\' :: 'u' :: '\x7b' :: Nat.toDigits 16 c.toNat ++ ['\x7d']

/-- The quote, the backslash and the commonest controls have an escape of their own, other
unprintable characters are numbered, and the rest stand for themselves. -/
def escapeChar : Char → List Char
  | '"' => ['\\', '"']
  | '\\' => ['\\', '\\']
  | '\n' => ['\\', 'n']
  | '\r' => ['\\', 'r']
  | '\t' => ['\\', 't']
  | '\x00' => ['\\', '0']
  | c => if isUnprintable c then numbered c else [c]

/-- A text in its listing form, quotes included. -/
def quote (text : String) : String :=
  "\"" ++ String.ofList (text.toList.flatMap escapeChar) ++ "\""

end ScriptLang.Text.Listing
