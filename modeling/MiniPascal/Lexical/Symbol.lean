import MiniPascal.Position

/-!
# Symbols

A symbol is what a reader hands out: one character of the text with its position, or the end of
the text.  Tokens are told apart by the class of their symbols.
-/

namespace MiniPascal

inductive SymbolClass where
  | letter
  | digit
  | whitespace
  | endOfText
  | other
  deriving Repr, DecidableEq, Inhabited

/-- Letters and digits are those of ASCII, and `_` is a letter.  Everything up to the space is
blank, so that control characters separate tokens. -/
def SymbolClass.ofChar (char : Char) : SymbolClass :=
  if char.isAlpha || char == '_' then .letter
  else if char.isDigit then .digit
  else if char ≤ ' ' then .whitespace
  else .other

structure Symbol where
  /-- Absent at the end of the text. -/
  char : Option Char
  position : Position
  deriving Repr, DecidableEq, Inhabited

namespace Symbol

def kind (symbol : Symbol) : SymbolClass :=
  match symbol.char with
  | some char => .ofChar char
  | none => .endOfText

def size (symbol : Symbol) : Nat :=
  match symbol.char with
  | some _ => 1
  | none => 0

end Symbol

end MiniPascal
