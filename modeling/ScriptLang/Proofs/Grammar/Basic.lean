import ScriptLang.Program.Basic
import ScriptLang.Text.Decimal
import ScriptLang.Token.Basic

/-!
The grammar of programs, as a relation between tokens and trees.

`Reads phrase tokens rest` says that the tokens begin with the phrase and that `rest` is what
stands behind it.  The rules say what can be read where and not how to find it.  Only three of
them look at what comes next: an expression goes on for as long as the next token can continue it,
a semicolon behind a statement belongs to it, and a `return` without a value stands before a
semicolon, a closing brace or the end of input.
-/

namespace ScriptLang

open ScriptLang.Text

def UnaryOp.kind : UnaryOp → Token.Kind
  | not => .bang
  | negate => .minus

def BinaryOp.kind : BinaryOp → Token.Kind
  | add => .plus
  | sub => .minus
  | mul => .asterisk
  | div => .slash
  | lt => .lt
  | gt => .gt
  | eq => .eq
  | notEq => .notEq

namespace Grammar

/-- The levels of expressions, from the loosest to the tightest.  An expression is applied when it
is called or indexed. -/
inductive Level where
  | equality
  | comparison
  | sum
  | product
  | unary
  | applied
  | atom
  deriving DecidableEq, Repr

namespace Level

def rank : Level → Nat
  | equality => 1
  | comparison => 2
  | sum => 3
  | product => 4
  | unary => 5
  | applied => 6
  | atom => 7

def next? : Level → Option Level
  | equality => some comparison
  | comparison => some sum
  | sum => some product
  | product => some unary
  | unary => some applied
  | applied => some atom
  | atom => none

end Level

/-- What can be read. -/
inductive Phrase where
  /-- An expression of a level. -/
  | level (level : Level) (e : Expr)
  /-- An expression in full. -/
  | expression (e : Expr)
  /-- Expressions behind an opening bracket, with the bracket that closes them. -/
  | items (close : Token.Kind) (es : List Expr)
  /-- Expressions behind another one in brackets. -/
  | moreItems (close : Token.Kind) (es : List Expr)
  /-- The names behind the bracket that opens a list of parameters. -/
  | params (names : List String)
  | moreParams (names : List String)
  /-- The pairs behind the brace that opens a hash. -/
  | pairs (ps : List (Expr × Expr))
  | morePairs (ps : List (Expr × Expr))
  | block (body : Block)
  | statements (ss : List Stmt)
  | statement (s : Stmt)

/-- The kind of the next token.  Behind the last one stands the end of input. -/
def kindAhead (tokens : List Token) : Token.Kind :=
  (tokens.headD Token.endOfInput).kind

/-- A token that makes the expression before it part of a larger one. -/
def Continues (kind : Token.Kind) : Prop :=
  (∃ op : BinaryOp, kind = op.kind) ∨ kind = .lparen ∨ kind = .lbracket

/-- The end of a statement: a semicolon is taken if there is one. -/
inductive Ends : List Token → List Token → Prop where
  | semicolon {text rest} : Ends (⟨.semicolon, text⟩ :: rest) rest
  | missing {rest} (h : kindAhead rest ≠ .semicolon) : Ends rest rest

end Grammar

def BinaryOp.level : BinaryOp → Grammar.Level
  | eq | notEq => .equality
  | lt | gt => .comparison
  | add | sub => .sum
  | mul | div => .product

namespace Grammar

/-- The tokens begin with the phrase, and `rest` follows it. -/
inductive Reads : Phrase → List Token → List Token → Prop where
  -- Expressions, level by level.  Operators of one level group to the left.
  | looser {level tighter e tokens rest} (hlevel : level.next? = some tighter)
      (h : Reads (.level tighter e) tokens rest) : Reads (.level level e) tokens rest
  | binary {left op right tighter text tokens behind rest}
      (hlevel : op.level.next? = some tighter)
      (hleft : Reads (.level op.level left) tokens (⟨op.kind, text⟩ :: behind))
      (hright : Reads (.level tighter right) behind rest) :
      Reads (.level op.level (.binary left op right)) tokens rest
  | unary {op operand text tokens rest} (h : Reads (.level .unary operand) tokens rest) :
      Reads (.level .unary (.unary op operand)) (⟨op.kind, text⟩ :: tokens) rest
  | call {callee args text tokens behind rest}
      (hcallee : Reads (.level .applied callee) tokens (⟨.lparen, text⟩ :: behind))
      (hargs : Reads (.items .rparen args) behind rest) :
      Reads (.level .applied (.call callee args)) tokens rest
  | index {collection position text text' tokens behind rest}
      (hcollection : Reads (.level .applied collection) tokens (⟨.lbracket, text⟩ :: behind))
      (hposition : Reads (.expression position) behind (⟨.rbracket, text'⟩ :: rest)) :
      Reads (.level .applied (.index collection position)) tokens rest
  | ident {name rest} : Reads (.level .atom (.ident name)) (⟨.ident, name⟩ :: rest) rest
  | int {digits rest} (h : Decimal.value digits ≤ Decimal.largest) :
      Reads (.level .atom (.int (Int64.ofNat (Decimal.value digits))))
        (⟨.int, digits⟩ :: rest) rest
  | string {text rest} : Reads (.level .atom (.string text)) (⟨.string, text⟩ :: rest) rest
  | trueWord {text rest} : Reads (.level .atom (.bool true)) (⟨.trueWord, text⟩ :: rest) rest
  | falseWord {text rest} : Reads (.level .atom (.bool false)) (⟨.falseWord, text⟩ :: rest) rest
  | group {e text text' tokens rest}
      (h : Reads (.expression e) tokens (⟨.rparen, text'⟩ :: rest)) :
      Reads (.level .atom e) (⟨.lparen, text⟩ :: tokens) rest
  | cond {condition yes text₁ text₂ text₃ tokens behind rest}
      (hcondition : Reads (.expression condition) tokens (⟨.rparen, text₃⟩ :: behind))
      (hyes : Reads (.block yes) behind rest) :
      Reads (.level .atom (.cond condition yes none))
        (⟨.ifWord, text₁⟩ :: ⟨.lparen, text₂⟩ :: tokens) rest
  | condElse {condition yes no text₁ text₂ text₃ text₄ tokens behind after rest}
      (hcondition : Reads (.expression condition) tokens (⟨.rparen, text₃⟩ :: behind))
      (hyes : Reads (.block yes) behind (⟨.elseWord, text₄⟩ :: after))
      (hno : Reads (.block no) after rest) :
      Reads (.level .atom (.cond condition yes (some no)))
        (⟨.ifWord, text₁⟩ :: ⟨.lparen, text₂⟩ :: tokens) rest
  | fn {params body text₁ text₂ tokens behind rest}
      (hparams : Reads (.params params) tokens behind)
      (hbody : Reads (.block body) behind rest) :
      Reads (.level .atom (.fn () params body))
        (⟨.fnWord, text₁⟩ :: ⟨.lparen, text₂⟩ :: tokens) rest
  | array {elements text tokens rest} (h : Reads (.items .rbracket elements) tokens rest) :
      Reads (.level .atom (.array elements)) (⟨.lbracket, text⟩ :: tokens) rest
  | hash {entries text tokens rest} (h : Reads (.pairs entries) tokens rest) :
      Reads (.level .atom (.hash entries)) (⟨.lbrace, text⟩ :: tokens) rest
  | expression {e tokens rest} (h : Reads (.level .equality e) tokens rest)
      (hend : ¬ Continues (kindAhead rest)) : Reads (.expression e) tokens rest
  -- Lists in brackets.  Only a hash may have a comma behind its last member.
  | noItems {close text rest} : Reads (.items close []) (⟨close, text⟩ :: rest) rest
  | items {close e es tokens behind rest} (hfirst : Reads (.expression e) tokens behind)
      (hmore : Reads (.moreItems close es) behind rest) :
      Reads (.items close (e :: es)) tokens rest
  | noMoreItems {close text rest} : Reads (.moreItems close []) (⟨close, text⟩ :: rest) rest
  | moreItems {close e es text tokens behind rest} (hfirst : Reads (.expression e) tokens behind)
      (hmore : Reads (.moreItems close es) behind rest) :
      Reads (.moreItems close (e :: es)) (⟨.comma, text⟩ :: tokens) rest
  | noParams {text rest} : Reads (.params []) (⟨.rparen, text⟩ :: rest) rest
  | params {name names tokens rest} (h : Reads (.moreParams names) tokens rest) :
      Reads (.params (name :: names)) (⟨.ident, name⟩ :: tokens) rest
  | noMoreParams {text rest} : Reads (.moreParams []) (⟨.rparen, text⟩ :: rest) rest
  | moreParams {name names text tokens rest} (h : Reads (.moreParams names) tokens rest) :
      Reads (.moreParams (name :: names)) (⟨.comma, text⟩ :: ⟨.ident, name⟩ :: tokens) rest
  | noPairs {text rest} : Reads (.pairs []) (⟨.rbrace, text⟩ :: rest) rest
  | pairs {key value ps text tokens behind after rest}
      (hkey : Reads (.expression key) tokens (⟨.colon, text⟩ :: behind))
      (hvalue : Reads (.expression value) behind after)
      (hmore : Reads (.morePairs ps) after rest) : Reads (.pairs ((key, value) :: ps)) tokens rest
  | noMorePairs {text rest} : Reads (.morePairs []) (⟨.rbrace, text⟩ :: rest) rest
  | morePairs {ps text tokens rest} (h : Reads (.pairs ps) tokens rest) :
      Reads (.morePairs ps) (⟨.comma, text⟩ :: tokens) rest
  -- Statements.  The end of input closes whatever blocks are open.
  | closed {body text text' tokens rest}
      (h : Reads (.statements body) tokens (⟨.rbrace, text'⟩ :: rest)) :
      Reads (.block body) (⟨.lbrace, text⟩ :: tokens) rest
  | unclosed {body text tokens} (h : Reads (.statements body) tokens []) :
      Reads (.block body) (⟨.lbrace, text⟩ :: tokens) []
  | noStatements {rest} : Reads (.statements []) rest rest
  | statements {s ss tokens behind rest} (hfirst : Reads (.statement s) tokens behind)
      (hmore : Reads (.statements ss) behind rest) : Reads (.statements (s :: ss)) tokens rest
  | bind {name value text₁ text₂ tokens behind rest}
      (hvalue : Reads (.expression value) tokens behind) (hend : Ends behind rest) :
      Reads (.statement (.bind name value))
        (⟨.letWord, text₁⟩ :: ⟨.ident, name⟩ :: ⟨.assign, text₂⟩ :: tokens) rest
  | bareReturn {text tokens rest} (hnext : kindAhead tokens = .semicolon ∨
      kindAhead tokens = .rbrace ∨ kindAhead tokens = .eof) (hend : Ends tokens rest) :
      Reads (.statement (.ret none)) (⟨.returnWord, text⟩ :: tokens) rest
  | ret {value text tokens behind rest} (hvalue : Reads (.expression value) tokens behind)
      (hend : Ends behind rest) :
      Reads (.statement (.ret (some value))) (⟨.returnWord, text⟩ :: tokens) rest
  | expr {value tokens behind rest} (hvalue : Reads (.expression value) tokens behind)
      (hend : Ends behind rest) : Reads (.statement (.expr value)) tokens rest

/-- The tokens are the statements of a program and the end of input. -/
def Spells (tokens : List Token) (program : Program) : Prop :=
  ∃ words, tokens = words ++ [Token.endOfInput] ∧ Reads (.statements program) words []

end Grammar

end ScriptLang
