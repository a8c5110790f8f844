import ScriptLang.Program.Parser.State
import ScriptLang.Program.Precedence
import ScriptLang.Text.Decimal

/-!
The rules of the grammar.

A rule starts with the current token on the first token of what it reads and ends on the last one.
Rules call each other, and the first argument is the allowance: how deep calls may still nest.
-/

namespace ScriptLang.Parser

/-- The names behind the first one in a list of parameters, and the bracket that closes it. -/
def moreParameters : Nat → Parser (List String)
  | 0 => exhausted
  | n + 1 => do
      let next ← peekKind
      if next = .comma then do
        advance
        expect .ident
        let name ← current
        let names ← moreParameters n
        pure (name.literal :: names)
      else do
        expect .rparen
        pure []

/-- The parameters of a function, from the bracket that opens the list to the one that closes
it. -/
def parameters (n : Nat) : Parser (List String) := do
  let next ← peekKind
  if next = .rparen then do
    advance
    pure []
  else do
    expect .ident
    let name ← current
    let names ← moreParameters n
    pure (name.literal :: names)

mutual

/-- An expression, continued for as long as what follows binds tighter than `floor`. -/
def expression : Nat → Precedence → Parser Expr
  | 0, _ => exhausted
  | n + 1, floor => do
      let left ← operand n
      continued n floor left

/-- What can begin an expression. -/
def operand : Nat → Parser Expr
  | 0 => exhausted
  | n + 1 => do
      let token ← current
      match token.kind with
      | .ident => pure (.ident token.literal)
      | .int =>
          match Text.Decimal.read? token.literal with
          | some value => pure (.int value)
          | none => reject (.tooLarge token.literal)
      | .string => pure (.string token.literal)
      | .trueWord => pure (.bool true)
      | .falseWord => pure (.bool false)
      | .bang => do
          advance
          let right ← expression n .unary
          pure (.unary .not right)
      | .minus => do
          advance
          let right ← expression n .unary
          pure (.unary .negate right)
      | .lparen => do
          advance
          let inner ← expression n .lowest
          expect .rparen
          pure inner
      | .ifWord => do
          expect .lparen
          advance
          let condition ← expression n .lowest
          expect .rparen
          expect .lbrace
          let yes ← block n
          let next ← peekKind
          if next = .elseWord then do
            advance
            expect .lbrace
            let no ← block n
            pure (.cond condition yes (some no))
          else
            pure (.cond condition yes none)
      | .fnWord => do
          expect .lparen
          let params ← parameters n
          expect .lbrace
          let body ← block n
          pure (.fn () params body)
      | .lbracket => do
          let elements ← items n .rbracket
          pure (.array elements)
      | .lbrace => do
          enterHash
          let entries ← pairs n
          leaveHash
          pure (.hash entries)
      | found => reject (.noExpression found)

/-- An expression of which `left` has been read, with all that continues it. -/
def continued : Nat → Precedence → Expr → Parser Expr
  | 0, _, _ => exhausted
  | n + 1, floor, left => do
      let next ← peekKind
      if next ≠ .semicolon ∧ floor < .ofKind next then
        match Continuation.ofKind? next with
        | none => pure left
        | some continuation => do
            advance
            let larger ← continuedOnce n left continuation
            continued n floor larger
      else
        pure left

/-- An expression made of `left` and one continuation, from the token that announces it. -/
def continuedOnce : Nat → Expr → Continuation → Parser Expr
  | 0, _, _ => exhausted
  | n + 1, left, .operator => do
      let token ← current
      match BinaryOp.ofKind? token.kind with
      | none => giveUp
      | some op => do
          advance
          let right ← expression n (.ofKind token.kind)
          pure (.binary left op right)
  | n + 1, left, .call => do
      let args ← items n .rparen
      pure (.call left args)
  | n + 1, left, .index => do
      advance
      let position ← expression n .lowest
      expect .rbracket
      pure (.index left position)

/-- Expressions between brackets, from the opening bracket to the closing one. -/
def items : Nat → Token.Kind → Parser (List Expr)
  | 0, _ => exhausted
  | n + 1, close => do
      let next ← peekKind
      if next = close then do
        advance
        pure []
      else do
        advance
        let first ← expression n .lowest
        let others ← moreItems n
        expect close
        pure (first :: others)

/-- Expressions that a comma announces, for as long as there are commas. -/
def moreItems : Nat → Parser (List Expr)
  | 0 => exhausted
  | n + 1 => do
      let next ← peekKind
      if next = .comma then do
        advance
        advance
        let item ← expression n .lowest
        let others ← moreItems n
        pure (item :: others)
      else
        pure []

/-- The pairs of a hash literal up to the brace that closes it.  The last pair may have a comma
behind it. -/
def pairs : Nat → Parser (List (Expr × Expr))
  | 0 => exhausted
  | n + 1 => do
      let next ← peekKind
      if next = .rbrace then do
        advance
        pure []
      else do
        advance
        let key ← expression n .lowest
        expect .colon
        advance
        let value ← expression n .lowest
        let behind ← peekKind
        if behind = .rbrace then do
          let others ← pairs n
          pure ((key, value) :: others)
        else do
          expect .comma
          let others ← pairs n
          pure ((key, value) :: others)

/-- A block, from the brace that opens it to the brace that closes it or to the end of input. -/
def block : Nat → Parser Block
  | 0 => exhausted
  | n + 1 => do
      enterBlock
      advance
      let body ← statements n true
      leaveBlock
      pure body

/-- Statements one after the other, without those that are broken.  In a block a closing brace
ends them, and the end of input does so anywhere. -/
def statements : Nat → Bool → Parser (List Stmt)
  | 0, _ => exhausted
  | n + 1, inBlock => do
      let token ← current
      if token.kind = .eof ∨ (inBlock = true ∧ token.kind = .rbrace) then
        pure []
      else do
        let first ← orPassOver (statement n)
        advance
        let others ← statements n inBlock
        pure (first.toList ++ others)

/-- A statement, with the semicolon behind it if there is one. -/
def statement : Nat → Parser Stmt
  | 0 => exhausted
  | n + 1 => do
      let token ← current
      match token.kind with
      | .letWord => do
          expect .ident
          let name ← current
          expect .assign
          advance
          let value ← expression n .lowest
          skipSemicolon
          pure (.bind name.literal value)
      | .returnWord => do
          let next ← peekKind
          if next = .semicolon ∨ next = .rbrace ∨ next = .eof then do
            skipSemicolon
            pure (.ret none)
          else do
            advance
            let value ← expression n .lowest
            skipSemicolon
            pure (.ret (some value))
      | _ => do
          let value ← expression n .lowest
          skipSemicolon
          pure (.expr value)

end

end ScriptLang.Parser
