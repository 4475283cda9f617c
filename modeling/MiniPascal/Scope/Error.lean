import MiniPascal.Position

/-!
# Semantic errors

What can be wrong with a program that is grammatical: names, shapes, scopes and constants.
-/

namespace MiniPascal

inductive NonConstant where
  | ident (name : String)
  | divisionByZero
  | literal
  | element
  | call
  /-- An expression, as printed, that has no integer value. -/
  | expression (text : String)
  deriving Repr, DecidableEq, Inhabited

def NonConstant.describe : NonConstant → String
  | ident name => "Var '" ++ name ++ "'"
  | divisionByZero => "division by zero"
  | literal => "string"
  | element => "array element"
  | call => "call"
  | expression text => text

inductive Construct where
  | conditional
  | whileLoop
  | forLoop
  | exit
  deriving Repr, DecidableEq, Inhabited

def Construct.name : Construct → String
  | conditional => "if"
  | whileLoop => "while"
  | forLoop => "for"
  | exit => "exit"

inductive SemanticError where
  | undeclared (name : String) (position : Position)
  | redeclared (name : String) (position : Position)
  | assignToConst (name : String) (position : Position)
  | notConstant (what : NonConstant) (position : Position)
  | notCallable (name : String) (position : Position)
  | wrongArity (name : String) (expected found : Nat) (position : Position)
  | notAnArray (name : String) (position : Position)
  | arrayAsScalar (name : String) (position : Position)
  | invalidArrayBounds (name : String) (low high : Int32) (position : Position)
  | procedureAsValue (name : String) (position : Position)
  | exitAsValue (position : Position)
  | outsideCallable (what : Construct) (position : Position)
  | forwardMismatch (name : String) (position : Position)
  | forwardNeverDefined (name : String) (position : Position)
  | notAssignable (name : String) (position : Position)
  | notDecrementable (name : String) (position : Position)
  | breakOutsideLoop (position : Position)
  deriving Repr, DecidableEq, Inhabited

namespace SemanticError

def position : SemanticError → Position
  | undeclared _ p | redeclared _ p | assignToConst _ p | notConstant _ p | notCallable _ p
  | wrongArity _ _ _ p | notAnArray _ p | arrayAsScalar _ p | invalidArrayBounds _ _ _ p
  | procedureAsValue _ p | exitAsValue p | outsideCallable _ p | forwardMismatch _ p
  | forwardNeverDefined _ p | notAssignable _ p | notDecrementable _ p | breakOutsideLoop p => p

def message : SemanticError → String
  | undeclared name _ => "Var '" ++ name ++ "' not declared"
  | redeclared name _ => "Var '" ++ name ++ "' already declared"
  | assignToConst name _ => "Var '" ++ name ++ "' is constant"
  | notConstant what _ => what.describe ++ " is not constant"
  | notCallable name _ => name ++ " is not callable"
  | wrongArity name _ found _ => name ++ " does not take " ++ toString found ++ " argument(s)"
  | notAnArray name _ => name ++ " is not an array"
  | arrayAsScalar name _ => "array " ++ name ++ " used as a scalar"
  | invalidArrayBounds name low high _ =>
      "invalid bounds " ++ toString low ++ ".." ++ toString high ++ " of array " ++ name
  | procedureAsValue name _ => name ++ " does not return a value"
  | exitAsValue _ => "exit cannot be used as a value"
  | outsideCallable what _ => what.name ++ " outside of a callable"
  | forwardMismatch name _ => name ++ " does not match its forward declaration"
  | forwardNeverDefined name _ => name ++ " is declared forward but never defined"
  | notAssignable name _ => name ++ " is not assignable"
  | notDecrementable name _ => name ++ " is not a variable that can be decremented"
  | breakOutsideLoop _ => "no loop to break"

end SemanticError

end MiniPascal
