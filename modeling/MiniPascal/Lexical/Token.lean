import MiniPascal.Position

/-!
# Tokens

The lexical units of a program.  Operators, punctuation and reserved words have one spelling each;
identifiers, numbers and the end of the input have none.
-/

namespace MiniPascal

inductive TokenKind where
  | ident
  | number
  | plus
  | minus
  | times
  | divWord
  | modWord
  | equal
  | notEqual
  | less
  | greater
  | lessEqual
  | greaterEqual
  | leftParen
  | rightParen
  | assign
  | comma
  | semicolon
  | dot
  | colon
  | leftBracket
  | rightBracket
  | apostrophe
  | varWord
  | constWord
  | beginWord
  | endWord
  | ifWord
  | thenWord
  | elseWord
  | andWord
  | orWord
  | notWord
  | breakWord
  | whileWord
  | doWord
  | forWord
  | toWord
  | downtoWord
  | ofWord
  | programWord
  | functionWord
  | procedureWord
  | forwardWord
  | endOfInput
  deriving Repr, DecidableEq, Inhabited

namespace TokenKind

def spelling : TokenKind → Option String
  | ident | number | endOfInput => none
  | plus => "+"
  | minus => "-"
  | times => "*"
  | divWord => "div"
  | modWord => "mod"
  | equal => "="
  | notEqual => "<>"
  | less => "<"
  | greater => ">"
  | lessEqual => "<="
  | greaterEqual => ">="
  | leftParen => "("
  | rightParen => ")"
  | assign => ":="
  | comma => ","
  | semicolon => ";"
  | dot => "."
  | colon => ":"
  | leftBracket => "["
  | rightBracket => "]"
  | apostrophe => "'"
  | varWord => "var"
  | constWord => "const"
  | beginWord => "begin"
  | endWord => "end"
  | ifWord => "if"
  | thenWord => "then"
  | elseWord => "else"
  | andWord => "and"
  | orWord => "or"
  | notWord => "not"
  | breakWord => "break"
  | whileWord => "while"
  | doWord => "do"
  | forWord => "for"
  | toWord => "to"
  | downtoWord => "downto"
  | ofWord => "of"
  | programWord => "program"
  | functionWord => "function"
  | procedureWord => "procedure"
  | forwardWord => "forward"

def reserved : List TokenKind :=
  [varWord, constWord, beginWord, endWord, divWord, modWord, ifWord, thenWord, elseWord, andWord,
    orWord, notWord, breakWord, whileWord, doWord, forWord, toWord, downtoWord, ofWord,
    programWord, functionWord, procedureWord, forwardWord]

def ofSpelling (word : String) : TokenKind :=
  (reserved.find? fun kind => kind.spelling == some word).getD ident

def ofChar? : Char → Option TokenKind
  | '+' => plus
  | '-' => minus
  | '*' => times
  | '(' => leftParen
  | ')' => rightParen
  | '=' => equal
  | ',' => comma
  | ';' => semicolon
  | '.' => dot
  | '[' => leftBracket
  | ']' => rightBracket
  | '\'' => apostrophe
  | _ => none

def describe (kind : TokenKind) : String :=
  match kind.spelling with
  | some text => "'" ++ text ++ "'"
  | none =>
      match kind with
      | ident => "identifier"
      | number => "number"
      | _ => "end of input"

end TokenKind

/-- A lexical unit.  `text` is that of an identifier, `value` that of a number. -/
structure Token where
  kind : TokenKind
  text : String
  value : Int32
  position : Position
  deriving Repr, DecidableEq, Inhabited

namespace Token

def plain (kind : TokenKind) (position : Position) : Token := ⟨kind, "", 0, position⟩

def ident (text : String) (position : Position) : Token := ⟨.ident, text, 0, position⟩

def number (value : Int32) (position : Position) : Token := ⟨.number, "", value, position⟩

def word (text : String) (position : Position) : Token :=
  match TokenKind.ofSpelling text with
  | .ident => ident text position
  | kind => plain kind position

def describe (token : Token) : String :=
  match token.kind with
  | .ident => "identifier '" ++ token.text ++ "'"
  | .number => "number " ++ toString token.value
  | kind => kind.describe

end Token

end MiniPascal
