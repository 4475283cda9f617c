import MiniPascal.Machine.Value

/-!
# Run-time errors

What can stop a run.  Code has no positions, so errors name the function they come from.  A module
may also name functions, blocks, registers or globals that it does not have; a run that comes to one
of them is broken off at once, with no error to report.
-/

namespace MiniPascal.Machine

inductive Conversion where
  | integer
  | text
  deriving Repr, DecidableEq, Inhabited

def Conversion.char : Conversion → Char
  | integer => 'd'
  | text => 's'

def Conversion.ofChar? : Char → Option Conversion
  | 'd' => some .integer
  | 's' => some .text
  | _ => none

inductive FormatError where
  | missingFormat (function : String)
  /-- A text was expected where there is no pointer to a global. -/
  | notText
  /-- The character behind a percent sign, or none at the end. -/
  | unsupported (char : Option Char)
  | missingArgument
  | mismatch (conversion : Conversion) (argument : Word)
  deriving Repr, DecidableEq, Inhabited

def FormatError.message : FormatError → String
  | missingFormat function => function ++ " called without a format"
  | notText => "string argument is not a global"
  | unsupported char => "unsupported conversion %" ++ (char.getD ' ').toString
  | missingArgument => "not enough arguments for format string"
  | mismatch conversion argument =>
      "%" ++ conversion.char.toString ++ " does not accept " ++ argument.describe

inductive RunError where
  | noEntry (name : String)
  | missingBody (name : String)
  | divisionByZero (function : String)
  | invalidPointer (function : String)
  | outOfBounds (global : String) (offset : Int) (function : String)
  | writeToConstant (global function : String)
  | undefinedRegister (register : IR.Register) (function : String)
  | missingTerminator (block function : String)
  | noReturnValue (function : String)
  | invalidFormat (error : FormatError)
  | stepLimit (limit : Nat)
  | callDepth (limit : Nat)
  deriving Repr, DecidableEq, Inhabited

def RunError.message : RunError → String
  | noEntry name => "no function named " ++ name
  | missingBody name => "call to " ++ name ++ ", which has no body"
  | divisionByZero function => "division by zero in " ++ function
  | invalidPointer function => "invalid pointer in " ++ function
  | outOfBounds global offset function =>
      "index " ++ toString offset ++ " out of bounds of " ++ global ++ " in " ++ function
  | writeToConstant global function => "store to constant " ++ global ++ " in " ++ function
  | undefinedRegister register function =>
      "register %" ++ toString register ++ " used before definition in " ++ function
  | missingTerminator block function => "block " ++ block ++ " of " ++ function ++ " has no terminator"
  | noReturnValue function => function ++ " returned no value"
  | invalidFormat error => "bad format string: " ++ error.message
  | stepLimit limit => "step limit of " ++ toString limit ++ " exceeded"
  | callDepth limit => "call depth limit of " ++ toString limit ++ " exceeded"

/-- How a run ends that comes to no value. -/
inductive Halt where
  | failed (error : RunError)
  /-- Something was looked up under a number that nothing has. -/
  | panic
  deriving Repr, DecidableEq, Inhabited

def Halt.message : Halt → String
  | failed error => error.message
  | panic => "index out of bounds"

end MiniPascal.Machine
