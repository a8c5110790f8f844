import ScriptLang.Console.Command
import ScriptLang.Console.Repl

namespace ScriptLang.Console

/-- How deep calls may nest. -/
def callDepth : Nat := 100000

/-- What is said when calls nest deeper. -/
def depthExceeded : Output := .failure "calls nest too deep"

/-- Prints an output and gives its code. -/
def deliver (output : Output) : IO UInt32 := do
  (← IO.getStdout).putStr output.stdout
  (← IO.getStderr).putStr output.stderr
  return UInt32.ofNat output.code

/-- Carries out a command on a file. -/
def onFile (command : Command) (path : String) : IO UInt32 := do
  match ← (IO.FS.readBinFile path).toBaseIO with
  | .error _ => deliver missingFile
  | .ok content => deliver ((command.perform? callDepth content).getD depthExceeded)

/-- Evaluates lines as they are typed, up to the end of input. -/
partial def interact (session : Session) : IO UInt32 := do
  (← IO.getStdout).putStr ">> "
  (← IO.getStdout).flush
  let line ← (← IO.getStdin).getLine
  if line.isEmpty then return 0
  match replLine? callDepth session line with
  | none => deliver depthExceeded
  | some (output, session) =>
      discard <| deliver output
      interact session

/-- Reads standard input to its end. -/
partial def readInput (stream : IO.FS.Stream) (content : ByteArray) : IO ByteArray := do
  let more ← stream.read 65536
  if more.isEmpty then return content else readInput stream (content ++ more)

/-- Works without a command. -/
def onInput : IO UInt32 := do
  let stdin ← IO.getStdin
  if ← stdin.isTty then
    discard <| deliver greeting
    interact .start
  else
    let content ← readInput stdin .empty
    deliver ((Command.run.perform? callDepth content).getD depthExceeded)

/-- Chooses what to do.  A log filter may be given anywhere and changes nothing that is
printed. -/
def dispatch : List String → IO UInt32
  | [] => onInput
  | ["run", path] => onFile .run path
  | ["parse", path] => onFile .parse path
  | ["lex", path] => onFile .lex path
  | _ => do
      (← IO.getStderr).putStrLn "usage: [run | parse | lex] FILE"
      return 2

/-- The arguments without a log filter. -/
def withoutLog : List String → List String
  | "--log" :: _ :: args => withoutLog args
  | arg :: args => arg :: withoutLog args
  | [] => []

end ScriptLang.Console

/-- The entry point. -/
def main (args : List String) : IO UInt32 :=
  ScriptLang.Console.dispatch (ScriptLang.Console.withoutLog args)
