/-!
# Tokens

The units a program text is made of.  A `Mark` is a unit with a fixed spelling: a
keyword, an operator or a piece of punctuation.  Numbers and identifiers are the
units with a spelling of their own, and the end of the input closes every token
list.

`Kind` is what the grammar asks of a token, `Lexeme` is a kind together with what
the token carries, and a `Token` is a lexeme on a line.  Tokens that come from
program text carry a value only when they are numbers or identifiers; a token
built by hand may carry a note on any kind, and an identifier may lack its name.
-/

namespace RillLang

/-- The units with a fixed spelling. -/
inductive Mark where
  | letWord | printWord | ifWord | elseWord | whileWord
  | plus | minus | star | slash
  | equal | equalEqual | bangEqual | less | lessEqual | greater | greaterEqual
  | leftParen | rightParen | leftBrace | rightBrace | semicolon
  deriving DecidableEq, Repr, Inhabited

namespace Mark

/-- How a mark is written in program text. -/
def spelling : Mark → String
  | letWord => "let" | printWord => "print" | ifWord => "if" | elseWord => "else"
  | whileWord => "while"
  | plus => "+" | minus => "-" | star => "*" | slash => "/"
  | equal => "=" | equalEqual => "==" | bangEqual => "!=" | less => "<" | lessEqual => "<="
  | greater => ">" | greaterEqual => ">="
  | leftParen => "(" | rightParen => ")" | leftBrace => "\x7b" | rightBrace => "\x7d"
  | semicolon => ";"

/-- The name of a mark in token listings. -/
def name : Mark → String
  | letWord => "LET" | printWord => "PRINT" | ifWord => "IF" | elseWord => "ELSE"
  | whileWord => "WHILE"
  | plus => "PLUS" | minus => "MINUS" | star => "STAR" | slash => "SLASH"
  | equal => "EQUAL" | equalEqual => "EQUAL_EQUAL" | bangEqual => "BANG_EQUAL"
  | less => "LESS" | lessEqual => "LESS_EQUAL"
  | greater => "GREATER" | greaterEqual => "GREATER_EQUAL"
  | leftParen => "LEFT_PAREN" | rightParen => "RIGHT_PAREN"
  | leftBrace => "LEFT_BRACE" | rightBrace => "RIGHT_BRACE"
  | semicolon => "SEMICOLON"

/-- Every mark, keywords first. -/
def all : List Mark :=
  [letWord, printWord, ifWord, elseWord, whileWord, plus, minus, star, slash, equal, equalEqual,
    bangEqual, less, lessEqual, greater, greaterEqual, leftParen, rightParen, leftBrace,
    rightBrace, semicolon]

/-- The marks that are spelled like words. -/
def keywords : List Mark := [letWord, printWord, ifWord, elseWord, whileWord]

end Mark

/-- What the grammar asks of a token. -/
inductive Kind where
  | number
  | identifier
  | mark (mark : Mark)
  | endOfInput
  deriving DecidableEq, Repr, Inhabited

namespace Kind

/-- The name of a kind in token listings. -/
def name : Kind → String
  | number => "NUMBER"
  | identifier => "IDENTIFIER"
  | mark m => m.name
  | endOfInput => "EOF"

/-- The name of a kind in messages: a mark is its spelling in quotes. -/
def displayName : Kind → String
  | number => "number"
  | identifier => "identifier"
  | mark m => "'" ++ m.spelling ++ "'"
  | endOfInput => "end of input"

/-- Every kind. -/
def all : List Kind := number :: identifier :: endOfInput :: Mark.all.map mark

/-- The kind with a given listing name. -/
def ofName? (text : String) : Option Kind := all.find? fun k => k.name == text

end Kind

/-- A kind together with what a token of that kind carries. -/
inductive Lexeme where
  | number (value : Int)
  | identifier (name : Option String)
  | mark (mark : Mark) (note : Option String)
  | endOfInput (note : Option String)
  deriving DecidableEq, Repr, Inhabited

namespace Lexeme

/-- The kind of a lexeme. -/
def kind : Lexeme → Kind
  | number _ => .number
  | identifier _ => .identifier
  | mark m _ => .mark m
  | endOfInput _ => .endOfInput

/-- The text of what a lexeme carries, if it carries anything. -/
def value? : Lexeme → Option String
  | number v => some (toString v)
  | identifier name => name
  | mark _ note => note
  | endOfInput note => note

end Lexeme

/-- The name an identifier stands for.  A nameless identifier stands for the name
`None`. -/
def identifierName (name : Option String) : String := name.getD "None"

/-- A lexeme on a line. -/
structure Token where
  /-- What the token is and carries. -/
  lexeme : Lexeme
  /-- The line the token starts on; the first line is 1. -/
  line : Int
  deriving DecidableEq, Repr, Inhabited

namespace Token

/-- The kind of a token. -/
def kind (t : Token) : Kind := t.lexeme.kind

/-- How a message refers to a token. -/
def describe (t : Token) : String :=
  match t.lexeme with
  | .number v => "number " ++ toString v
  | .identifier name => "identifier '" ++ identifierName name ++ "'"
  | lexeme => lexeme.kind.displayName

/-- A number token. -/
def number (value : Int) (line : Int) : Token := ⟨.number value, line⟩

/-- An identifier token. -/
def identifier (name : String) (line : Int) : Token := ⟨.identifier (some name), line⟩

/-- A mark token without a note. -/
def mark (m : Mark) (line : Int) : Token := ⟨.mark m none, line⟩

/-- The token that closes a list. -/
def endOfInput (line : Int) : Token := ⟨.endOfInput none, line⟩

end Token

end RillLang
