import ScriptLang.Token.Scan

namespace ScriptLang.Token

/-- A place in a text, and whether `pull` has handed out the end of input. -/
structure Cursor where
  rest : List Char
  finished : Bool
  deriving DecidableEq, Repr

namespace Cursor

/-- The cursor at the start of a text. -/
def ofString (source : String) : Cursor := ⟨source.toList, false⟩

/-- The next token, without regard to what `pull` has handed out. -/
def next (cursor : Cursor) : Token × Cursor :=
  ((Token.next cursor.rest).1, { cursor with rest := (Token.next cursor.rest).2 })

/-- The next token, up to and including the first end of input that is handed out this way. -/
def pull (cursor : Cursor) : Option Token × Cursor :=
  if cursor.finished then
    (none, cursor)
  else
    let (token, rest) := Token.next cursor.rest
    (some token, ⟨rest, decide (token.kind = .eof)⟩)

/-- Everything that `pull` still has to give, and the cursor behind it. -/
def drain (cursor : Cursor) : List Token × Cursor :=
  if cursor.finished then
    ([], cursor)
  else
    (words cursor.rest ++ [endOfInput], ⟨[], true⟩)

end Cursor

end ScriptLang.Token
