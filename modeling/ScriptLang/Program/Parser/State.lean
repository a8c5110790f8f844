import ScriptLang.Program.Diagnostic

/-!
The state of a reader of programs, and the steps from which its rules are made.

A rule looks at the current token and at the one behind it, and moves forward only.  It ends in
one of three ways: with a result, with a failure that has been put on record, or because the
allowance of nested rules is used up.  The allowance is chosen so that the last never happens.
-/

namespace ScriptLang.Parser

/-- Where a reader stands and what it has to remember. -/
structure State where
  /-- The tokens not yet left behind, the current one first. -/
  ahead : List Token
  /-- What has gone wrong so far, in order. -/
  diagnostics : List Diagnostic
  /-- How many blocks enclose the current token. -/
  blocks : Nat
  /-- How many hash literals have been opened and not closed. -/
  openHashes : Nat
  /-- How many statements have been given up. -/
  dropped : Nat
  deriving DecidableEq, Repr

namespace State

/-- The state in front of the first token. -/
def start (tokens : List Token) : State :=
  { ahead := tokens, diagnostics := [], blocks := 0, openHashes := 0, dropped := 0 }

/-- The current token.  Behind the last one stands the end of input. -/
def current (s : State) : Token := s.ahead.headD Token.endOfInput

/-- The token behind the current one. -/
def peek (s : State) : Token := s.ahead.tail.headD Token.endOfInput

/-- The state with the next token as the current one. -/
def forward (s : State) : State := { s with ahead := s.ahead.tail }

end State

/-- How a rule ends. -/
inductive Reply (α : Type) where
  /-- The rule applied. -/
  | done (result : α) (state : State)
  /-- The rule did not apply, and the state says why. -/
  | failed (state : State)
  /-- The allowance of nested rules was too small. -/
  | exhausted
  deriving Repr

end Parser

/-- A rule of the grammar, as something that can be carried out. -/
def Parser (α : Type) : Type := Parser.State → Parser.Reply α

namespace Parser

instance : Monad Parser where
  pure a := fun s => .done a s
  bind rule next := fun s =>
    match rule s with
    | .done a t => next a t
    | .failed t => .failed t
    | .exhausted => .exhausted

/-- Ends for want of allowance. -/
def exhausted {α : Type} : Parser α := fun _ => .exhausted

/-- Puts a diagnostic on record and fails. -/
def reject {α : Type} (diagnostic : Diagnostic) : Parser α := fun s =>
  .failed { s with diagnostics := s.diagnostics ++ [diagnostic] }

/-- Fails and puts nothing on record. -/
def giveUp {α : Type} : Parser α := fun s => .failed s

/-- The current token. -/
def current : Parser Token := fun s => .done s.current s

/-- The kind of the token behind the current one. -/
def peekKind : Parser Token.Kind := fun s => .done s.peek.kind s

/-- Moves to the next token. -/
def advance : Parser Unit := fun s => .done () s.forward

/-- Moves to the next token if it is of the kind that has to come, and fails on the spot
otherwise. -/
def expect (kind : Token.Kind) : Parser Unit := fun s =>
  if s.peek.kind = kind then advance s else reject (.unexpected kind s.peek.kind) s

/-- Moves onto the semicolon behind a statement, if there is one. -/
def skipSemicolon : Parser Unit := fun s =>
  if s.peek.kind = .semicolon then advance s else .done () s

/-- Notes that a block begins. -/
def enterBlock : Parser Unit := fun s => .done () { s with blocks := s.blocks + 1 }

/-- Notes that a block ends. -/
def leaveBlock : Parser Unit := fun s => .done () { s with blocks := s.blocks - 1 }

/-- Notes that a hash literal begins. -/
def enterHash : Parser Unit := fun s => .done () { s with openHashes := s.openHashes + 1 }

/-- Notes that a hash literal ends. -/
def leaveHash : Parser Unit := fun s => .done () { s with openHashes := s.openHashes - 1 }

/-- The number of braces left open when a token is passed. -/
def braceDepth (depth : Nat) : Token.Kind → Nat
  | .lbrace => depth + 1
  | .rbrace => depth - 1
  | _ => depth

/-- What is left of the tokens once the rest of a broken statement is passed over.  Outside all
braces the search ends on a semicolon, or in front of the brace that closes the enclosing block if
there is one. -/
def passOver (inBlock : Bool) : Nat → List Token → List Token
  | _, [] => []
  | depth, token :: rest =>
      let behind := (rest.headD Token.endOfInput).kind
      if depth = 0 ∧ (token.kind = .semicolon ∨ (inBlock = true ∧ behind = .rbrace)) then
        token :: rest
      else
        passOver inBlock (braceDepth depth behind) rest

/-- Carries out the rule of a statement.  If it fails the statement is dropped, the hash literals
that it left open are forgotten, and what is left of it is passed over. -/
def orPassOver {α : Type} (rule : Parser α) : Parser (Option α) := fun s =>
  match rule s with
  | .done a t => .done (some a) t
  | .failed t =>
      .done none
        { t with
          ahead := passOver (decide (0 < t.blocks)) (t.openHashes - s.openHashes) t.ahead
          openHashes := s.openHashes
          dropped := t.dropped + 1 }
  | .exhausted => .exhausted

end Parser

end ScriptLang
