import MiniPascal.Text.Lines

/-!
# Console

What a program has printed, and the integers it has not read yet.
-/

namespace MiniPascal

structure Console where
  output : String
  input : List Int32
  deriving Repr, DecidableEq, Inhabited

namespace Console

def withInput (input : List Int32) : Console := ⟨"", input⟩

def print (console : Console) (text : String) : Console :=
  { console with output := console.output ++ text }

def read (console : Console) : Option Int32 × Console :=
  match console.input with
  | [] => (none, console)
  | value :: input => (some value, { console with input := input })

def lines (console : Console) : List String := Text.lines console.output

end Console

end MiniPascal
