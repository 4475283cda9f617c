import MiniPascal.Lexical.Lexer
import MiniPascal.Tree.Basic

/-!
# Parsers with one token in hand

A parser holds the lexer, the current token and the number of the next loop.  All grammar rules are
built from `advance`, `expect` and `many`; `backtrack` undoes one `advance`.

Rules that contain themselves, and `many`, count down a fuel.  `Parser.fuel` is more than the number
of tokens left, so it never runs out: every round and every level takes a token.
-/

namespace MiniPascal

/-- The rules named in errors about a token that can begin none of their alternatives. -/
inductive Nonterminal where
  | factor
  | statement
  deriving Repr, DecidableEq, Inhabited

def Nonterminal.name : Nonterminal → String
  | factor => "Factor"
  | statement => "statement"

inductive ParseError where
  | lexical (error : LexError)
  | expected (wanted found : TokenKind) (position : Position)
  | expansion (rule : Nonterminal) (found : TokenKind) (position : Position)
  | invalidDataType (position : Position)
  /-- An array where only an integer may stand. -/
  | expectedOrdinary (position : Position)
  | breakOutsideLoop (position : Position)
  | invalidStatement (name : String) (position : Position)
  /-- The fuel ran out, which `Parse.program` makes impossible. -/
  | outOfFuel
  deriving Repr, DecidableEq, Inhabited

namespace ParseError

def position : ParseError → Position
  | lexical error => error.position
  | expected _ _ p | expansion _ _ p | invalidDataType p | expectedOrdinary p
  | breakOutsideLoop p | invalidStatement _ p => p
  | outOfFuel => .nowhere

def message : ParseError → String
  | lexical error => error.message
  | expected wanted found _ => "expected " ++ wanted.describe ++ ", got " ++ found.describe
  | expansion rule found _ => "expanding nonterminal " ++ rule.name ++ ", got " ++ found.describe
  | invalidDataType _ => "invalid data type"
  | expectedOrdinary _ => "expected ordinary type"
  | breakOutsideLoop _ => "no loop to break"
  | invalidStatement name _ => "invalid statement after identifier '" ++ name ++ "'"
  | outOfFuel => "out of fuel"

end ParseError

structure Parser where
  lexer : Lexer
  /-- The token that the next rule looks at. -/
  current : Token
  /-- Number of the next loop. -/
  nextLoop : Nat
  deriving Repr, DecidableEq, Inhabited

/-- A grammar rule.  The parser it leaves behind is known also after an error. -/
abbrev Parse := EStateM ParseError Parser

namespace Parser

def ofReader (reader : Reader) : Except ParseError Parser :=
  match (Lexer.ofReader reader).next with
  | .ok token lexer => .ok ⟨lexer, token, 0⟩
  | .error error _ => .error (.lexical error)

def ofText (text : String) : Except ParseError Parser := ofReader (Reader.ofText text)

end Parser

def Lexer.remaining (lexer : Lexer) : Nat :=
  lexer.returned.length + (if lexer.carry.isSome then 1 else 0) + lexer.reader.remaining

/-- One more than the tokens left, the current one included. -/
def Parser.fuel (parser : Parser) : Nat := parser.lexer.remaining + 2

namespace Parse

def draw {α : Type} (action : EStateM LexError Lexer α) : Parse α := fun parser =>
  match action parser.lexer with
  | .ok result lexer => .ok result { parser with lexer := lexer }
  | .error error lexer => .error (.lexical error) { parser with lexer := lexer }

def current : Parse Token := return (← get).current

def kind : Parse TokenKind := return (← current).kind

def position : Parse Position := return (← current).position

def advance : Parse Token := do
  let passed ← current
  let token ← draw Lexer.next
  modify fun parser => { parser with current := token }
  return passed

def unexpected {α : Type} (wanted : TokenKind) : Parse α := do
  let token ← current
  throw (.expected wanted token.kind token.position)

def cannotExpand {α : Type} (rule : Nonterminal) : Parse α := do
  let token ← current
  throw (.expansion rule token.kind token.position)

def expect (wanted : TokenKind) : Parse Token := do
  if (← kind) = wanted then advance else unexpected wanted

def name : Parse String := return (← expect .ident).text

def backtrack (passed : Token) : Parse Unit := do
  let token ← current
  modify fun parser => { parser with lexer := (parser.lexer.giveBack token).giveBack passed }
  let token ← draw Lexer.next
  modify fun parser => { parser with current := token }

def freshLoop : Parse LoopId := do
  let index := (← get).nextLoop
  modify fun parser => { parser with nextLoop := index + 1 }
  return ⟨index⟩

def many {α : Type} : Nat → Parse (Option α) → Parse (List α)
  | 0, _ => throw .outOfFuel
  | fuel + 1, item => do
      match ← item with
      | none => return []
      | some first => return first :: (← many fuel item)

end Parse

end MiniPascal
