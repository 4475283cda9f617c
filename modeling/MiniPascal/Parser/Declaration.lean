import MiniPascal.Parser.Statement

/-!
# Grammar of declarations and programs

    program  = ("program" ident ";")? (callable | vars | consts)*
               "begin" action* "end" "."
    vars     = "var" (ident ("," ident)* ":" type ";")+
    consts   = "const" (ident "=" expression ";")+
    type     = "integer" | "array" "[" expression "." "." expression "]" "of" "integer"
    callable = ("function" ident parameters? ":" "integer" | "procedure" ident parameters?) ";"
               ("forward" ";" | (vars | consts)* "begin" action* "end" ";")

`integer` and `array` are identifiers.  An identifier behind a semicolon continues a `var` block
only if a comma or a colon follows it, and a `const` block only if an equals sign does.
-/

namespace MiniPascal

namespace Parse

def ordinaryType : Parse DataType := do
  let token ← current
  if token.kind = .ident ∧ token.text = "integer" then
    let _ ← advance
    return .integer
  else if token.kind = .ident ∧ token.text = "array" then throw (.expectedOrdinary token.position)
  else throw (.invalidDataType token.position)

def dataType (fuel : Nat) : Parse DataType := do
  let token ← current
  if token.kind = .ident ∧ token.text = "array" then
    let _ ← advance
    let _ ← expect .leftBracket
    let low ← expression fuel
    let _ ← expect .dot
    let _ ← expect .dot
    let high ← expression fuel
    let _ ← expect .rightBracket
    let _ ← expect .ofWord
    let _ ← ordinaryType
    return .array low high
  else ordinaryType

def varGroup (fuel : Nat) (type : Parse DataType) (first : Token) : Parse VarGroup := do
  let others ← many fuel do
    if (← kind) = .comma then
      let _ ← advance
      return some (← name)
    else return none
  let _ ← expect .colon
  return ⟨first.text :: others, ← type, first.position⟩

def nextVarGroup? (fuel : Nat) : Parse (Option VarGroup) := do
  let _ ← expect .semicolon
  if (← kind) ≠ .ident then return none
  let token ← advance
  match ← kind with
  | .comma | .colon => return some (← varGroup fuel (dataType fuel) token)
  | _ =>
      backtrack token
      return none

def varBlock (fuel : Nat) : Parse (List Statement) := do
  let _ ← expect .varWord
  let first ← expect .ident
  let group ← varGroup fuel (dataType fuel) first
  let groups ← many fuel (nextVarGroup? fuel)
  return (group :: groups).map .vars

def constantItem (fuel : Nat) (token : Token) : Parse Statement := do
  let _ ← expect .equal
  let value ← expression fuel
  let _ ← expect .semicolon
  return .constant token.text value token.position

def nextConstant? (fuel : Nat) : Parse (Option Statement) := do
  if (← kind) ≠ .ident then return none
  let token ← advance
  if (← kind) = .equal then return some (← constantItem fuel token)
  else
    backtrack token
    return none

def constBlock (fuel : Nat) : Parse (List Statement) := do
  let _ ← expect .constWord
  let token ← expect .ident
  let first ← constantItem fuel token
  return first :: (← many fuel (nextConstant? fuel))

def storageBlock? (fuel : Nat) : Parse (Option (List Statement)) := do
  match ← kind with
  | .varWord => return some (← varBlock fuel)
  | .constWord => return some (← constBlock fuel)
  | _ => return none

def parameterGroup (fuel : Nat) : Parse VarGroup := do
  let first ← expect .ident
  varGroup fuel ordinaryType first

def parameters (fuel : Nat) : Parse (List VarGroup) := do
  let _ ← expect .leftParen
  if (← kind) = .rightParen then
    let _ ← advance
    return []
  let first ← parameterGroup fuel
  let others ← many fuel do
    if (← kind) = .semicolon then
      let _ ← advance
      return some (← parameterGroup fuel)
    else return none
  let _ ← expect .rightParen
  return first :: others

def heading (fuel : Nat) : Parse Heading := do
  let keyword ← advance
  let name ← name
  let parameters ← if (← kind) = .leftParen then parameters fuel else pure []
  if keyword.kind = .procedureWord then return ⟨name, parameters, none, keyword.position⟩
  let _ ← expect .colon
  return ⟨name, parameters, some (← ordinaryType), keyword.position⟩

def actions (fuel : Nat) : Parse (Position × List Statement) := do
  let token ← expect .beginWord
  let statements ← many fuel (statement? fuel none)
  let _ ← expect .endWord
  return (token.position, statements)

def callable (fuel : Nat) : Parse Statement := do
  let heading ← heading fuel
  let _ ← expect .semicolon
  if (← kind) = .forwardWord then
    let _ ← advance
    let _ ← expect .semicolon
    return .forward heading
  let declarations ← many fuel (storageBlock? fuel)
  let (_, statements) ← actions fuel
  let _ ← expect .semicolon
  return .callable heading (declarations.flatten ++ statements)

def programHeader : Parse (List Statement) := do
  if (← kind) = .programWord then
    let _ ← advance
    let name ← name
    let _ ← expect .semicolon
    return [.program name]
  else return []

def topLevel? (fuel : Nat) : Parse (Option (List Statement)) := do
  match ← kind with
  | .functionWord | .procedureWord => return some [← callable fuel]
  | _ => storageBlock? fuel

/-- The program's own body, as a callable. -/
def mainCallable (position : Position) (statements : List Statement) : Statement :=
  .callable ⟨mainName, [], some .integer, position⟩ statements

def programWith (fuel : Nat) : Parse Program := do
  let header ← programHeader
  let declarations ← many fuel (topLevel? fuel)
  let (position, statements) ← actions fuel
  let _ ← expect .dot
  let _ ← expect .endOfInput
  return ⟨header ++ declarations.flatten ++ [mainCallable position statements]⟩

def program : Parse Program := do
  programWith (← get).fuel

end Parse

def Program.parse (text : String) : Except ParseError Program :=
  match Parser.ofText text with
  | .error error => .error error
  | .ok parser =>
      match Parse.program parser with
      | .ok program _ => .ok program
      | .error error _ => .error error

end MiniPascal
