import MiniPascal.IR.Basic

/-!
# Values of a running program

A register holds an integer or a pointer; truth values are the integers zero and one.
-/

namespace MiniPascal.Machine

inductive Pointer where
  /-- Counted in integers from the start of a global; it may lie outside of it. -/
  | global (id : IR.GlobalId) (offset : Int)
  | slot (index : Nat)
  deriving Repr, DecidableEq, Inhabited

inductive Word where
  | int (value : Int32)
  | pointer (pointer : Pointer)
  deriving Repr, DecidableEq, Inhabited

def Word.describe : Word → String
  | int value => "Int(" ++ toString value ++ ")"
  | pointer (.global id offset) =>
      "Ptr(Global \x7b id: GlobalId(" ++ toString id ++ "), offset: " ++ toString offset
        ++ " \x7d)"
  | pointer (.slot index) => "Ptr(Stack(" ++ toString index ++ "))"

end MiniPascal.Machine
