import MiniPascal.Position

/-!
# Lexical errors

The faults that can be found while text is cut into tokens.  Each knows where it was found; its
wording is `LexError.message`.
-/

namespace MiniPascal

def maxIdentifierLength : Nat := 32

inductive LexError where
  | invalidOctal (position : Position)
  | invalidHex (position : Position)
  | unterminatedComment (position : Position)
  | unterminatedString (position : Position)
  | invalidSymbol (char : Char) (position : Position)
  | identifierTooLong (position : Position)
  /-- A physical line is not well-formed UTF-8. -/
  | unreadable (position : Position)
  deriving Repr, DecidableEq, Inhabited

namespace LexError

def position : LexError → Position
  | invalidOctal p | invalidHex p | unterminatedComment p | unterminatedString p
  | invalidSymbol _ p | identifierTooLong p | unreadable p => p

def message : LexError → String
  | invalidOctal _ => "Invalid octal number"
  | invalidHex _ => "Invalid hexadecimal number"
  | unterminatedComment _ => "Unterminated comment"
  | unterminatedString _ => "String not terminated"
  | invalidSymbol char _ => "Invalid symbol '" ++ char.toString ++ "'"
  | identifierTooLong _ =>
      "Identifier longer than " ++ toString maxIdentifierLength ++ " characters"
  | unreadable _ => "Cannot read from input: stream did not contain valid UTF-8"

end LexError

end MiniPascal
