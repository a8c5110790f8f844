namespace ScriptLang

/-- What a token is. -/
inductive Token.Kind where
  | illegal
  | eof
  | ident
  | int
  | string
  | assign
  | plus
  | minus
  | bang
  | asterisk
  | slash
  | lt
  | gt
  | eq
  | notEq
  | comma
  | semicolon
  | colon
  | lparen
  | rparen
  | lbrace
  | rbrace
  | lbracket
  | rbracket
  | fnWord
  | letWord
  | ifWord
  | elseWord
  | returnWord
  | trueWord
  | falseWord
  deriving DecidableEq, Repr

/-- A word of a program.  The literal of a string is the text it spells, the literal of any other
token is the token as written. -/
structure Token where
  kind : Token.Kind
  literal : String
  deriving DecidableEq, Repr

namespace Token

/-- The name of a kind, as listings and diagnostics show it. -/
def Kind.name : Kind → String
  | illegal => "ILLEGAL"
  | eof => "EOF"
  | ident => "IDENT"
  | int => "INT"
  | string => "STRING"
  | assign => "ASSIGN"
  | plus => "PLUS"
  | minus => "MINUS"
  | bang => "BANG"
  | asterisk => "ASTERISK"
  | slash => "SLASH"
  | lt => "LT"
  | gt => "GT"
  | eq => "EQ"
  | notEq => "NOT_EQ"
  | comma => "COMMA"
  | semicolon => "SEMICOLON"
  | colon => "COLON"
  | lparen => "LPAREN"
  | rparen => "RPAREN"
  | lbrace => "LBRACE"
  | rbrace => "RBRACE"
  | lbracket => "LBRACKET"
  | rbracket => "RBRACKET"
  | fnWord => "FUNCTION"
  | letWord => "LET"
  | ifWord => "IF"
  | elseWord => "ELSE"
  | returnWord => "RETURN"
  | trueWord => "TRUE"
  | falseWord => "FALSE"

/-- The token that stands behind the last word of every program. -/
def endOfInput : Token := ⟨.eof, ""⟩

/-- Seven words are keywords, every other word is a name. -/
def Kind.ofWord (word : String) : Kind :=
  if word = "fn" then .fnWord
  else if word = "let" then .letWord
  else if word = "if" then .ifWord
  else if word = "else" then .elseWord
  else if word = "return" then .returnWord
  else if word = "true" then .trueWord
  else if word = "false" then .falseWord
  else .ident

/-- The kind of a character that is a token by itself wherever it stands. -/
def Kind.ofMark? : Char → Option Kind
  | '+' => some .plus
  | '-' => some .minus
  | '*' => some .asterisk
  | '/' => some .slash
  | '<' => some .lt
  | '>' => some .gt
  | ',' => some .comma
  | ';' => some .semicolon
  | ':' => some .colon
  | '(' => some .lparen
  | ')' => some .rparen
  | '\x7b' => some .lbrace
  | '\x7d' => some .rbrace
  | '[' => some .lbracket
  | ']' => some .rbracket
  | _ => none

end Token

end ScriptLang
