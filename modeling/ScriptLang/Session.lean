import ScriptLang.Evaluation.Basic
import ScriptLang.Program.Reading

namespace ScriptLang

/-- Why a program has no value. -/
inductive Failure where
  /-- The text does not follow the grammar. -/
  | malformed (diagnostics : List Diagnostic)
  /-- A runtime error came out of the program. -/
  | fault (message : String)
  /-- The bytes are not text in UTF-8. -/
  | notText
  deriving DecidableEq, Repr

/-- The wording of a failure. -/
def Failure.text : Failure → String
  | malformed diagnostics => Diagnostic.report diagnostics
  | fault message => "ERROR: " ++ message
  | notText => "stream did not contain valid UTF-8"

/-- What comes of a program. -/
abbrev Outcome := Except Failure Value

/-- A runtime error that comes out of a program is a failure. -/
def Outcome.ofValue : Value → Outcome
  | .error message => .error (.fault message)
  | value => .ok value

/-- What a session is given to evaluate. -/
inductive Input where
  | text (source : String)
  | bytes (content : ByteArray)

/-- The program that an input spells, or why it spells none. -/
def Input.read : Input → Except Failure Program
  | .text source => (Program.parse source).mapError .malformed
  | .bytes content =>
      match String.fromUTF8? content with
      | none => .error .notText
      | some source => (Program.parse source).mapError .malformed

/-- A global scope and everything that was made in it. -/
structure Session where
  store : Store
  frame : FrameId
  /-- The label of the function literal that is read next. -/
  fresh : Label

namespace Session

/-- A session in which nothing has happened. -/
def start : Session :=
  let (frame, store) := Store.empty.alloc (.within none)
  ⟨store, frame, 0⟩

/-- The session after a program that was evaluated in it has left this store. -/
def next (session : Session) (program : Program) (store : Store) : Session :=
  { session with store := store, fresh := session.fresh + program.lambdas.length }

/-- What comes of an input, and the session after it.  An input that cannot be read is not
evaluated at all.  There is no session after it if calls nest too deep. -/
def step? (depth : Nat) (session : Session) (input : Input) : Option (Outcome × Session) :=
  match input.read with
  | .error failure => some (.error failure, session)
  | .ok program =>
      match (program.labelled session.fresh).eval depth session.frame session.store with
      | .done value store => some (.ofValue value, session.next program store)
      | .tooDeep => none

/-- What comes of inputs one after the other, and the session after them. -/
def steps? (depth : Nat) (session : Session) : List Input → Option (List Outcome × Session)
  | [] => some ([], session)
  | input :: inputs =>
      match session.step? depth input with
      | none => none
      | some (outcome, session) =>
          (session.steps? depth inputs).map fun (outcomes, session) =>
            (outcome :: outcomes, session)

end Session

end ScriptLang
