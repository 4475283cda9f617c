import MiniPascal.Parser.Basic
import MiniPascal.Scope.Error
import MiniPascal.Text.Lines

/-!
# Diagnostics

A compile error is shown as its line number and message, followed by the line of the source it
points into.
-/

namespace MiniPascal

inductive ErrorClass where
  | lexical
  | grammatical
  | semantic
  deriving Repr, DecidableEq, Inhabited

def ErrorClass.name : ErrorClass → String
  | lexical => "lexical error"
  | grammatical => "syntax error"
  | semantic => "semantic error"

inductive CompileError where
  | parse (error : ParseError)
  | semantic (error : SemanticError)
  deriving Repr, DecidableEq, Inhabited

namespace CompileError

def errorClass : CompileError → ErrorClass
  | parse (.lexical _) => .lexical
  | parse _ => .grammatical
  | semantic _ => .semantic

def position : CompileError → Position
  | parse error => error.position
  | semantic error => error.position

def message : CompileError → String
  | parse error => error.message
  | semantic error => error.message

def render (error : CompileError) (source : String) : String :=
  let headline := "Error on line " ++ toString error.position.line ++ ": " ++ error.message
  match Text.line? source error.position.line with
  | some line => headline ++ "\n" ++ line
  | none => headline

end CompileError

end MiniPascal
