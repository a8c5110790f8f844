import ScriptLang.Console.Output
import ScriptLang.Session
import ScriptLang.Text.Blank
import ScriptLang.Value.Printer

namespace ScriptLang.Console

/-- What is printed before the first line is read. -/
def greeting : Output := .complaint ["Welcome to the Monkey REPL. Ctrl-D to quit."]

/-- Cuts bytes into lines.  A line ends at a line feed, and a carriage return in front of that
goes with it.  The last line needs no end. -/
def linesOf : List UInt8 → List (List UInt8)
  | [] => []
  | b :: bytes =>
      if b = 10 then [] :: linesOf bytes
      else if b = 13 ∧ bytes.head? = some 10 then linesOf bytes
      else
        match linesOf bytes with
        | [] => [[b]]
        | line :: lines => (b :: line) :: lines

/-- What comes of a line.  A blank line is passed over, and the diagnostics of a line that cannot
be read are shown one to a line behind a tab. -/
def respond : Outcome → Output
  | .ok value => .line value.render
  | .error (.malformed diagnostics) =>
      .complaint (diagnostics.map fun diagnostic => "\t" ++ diagnostic.message)
  | .error failure => .complaint [failure.text]

/-- Evaluates a line, and shows what comes of it.  There is no output if calls nest too deep. -/
def replLine? (depth : Nat) (session : Session) (line : String) : Option (Output × Session) :=
  if Text.isBlankLine line then some (.silent, session)
  else (session.step? depth (.text line)).map fun (outcome, session) => (respond outcome, session)

/-- Evaluates lines one after the other.  A line that is not text ends the session. -/
def replLines? (depth : Nat) (session : Session) : List (List UInt8) → Option Output
  | [] => some .silent
  | line :: lines =>
      match String.fromUTF8? ⟨line.toArray⟩ with
      | none => some (.failure Failure.notText.text)
      | some text =>
          match replLine? depth session text with
          | none => none
          | some (output, session) => (replLines? depth session lines).map output.followedBy

/-- A whole session on the bytes of its input. -/
def repl? (depth : Nat) (content : ByteArray) : Option Output :=
  (replLines? depth .start (linesOf content.data.toList)).map greeting.followedBy

end ScriptLang.Console
