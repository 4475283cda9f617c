/-!
# Positions in a source text

A position names a line and a column, both counted from one.  `0:0` is no place in any text; it
marks what no source line declares.
-/

namespace MiniPascal

structure Position where
  line : Nat
  column : Nat
  deriving Repr, DecidableEq, Inhabited

namespace Position

/-- The position of things that come with the language itself. -/
def nowhere : Position := ⟨0, 0⟩

def before (first second : Position) : Bool :=
  first.line < second.line || (first.line == second.line && first.column < second.column)

end Position

end MiniPascal
