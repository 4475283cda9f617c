import MiniPascal.Lowering.Expression

/-!
# Translation of statements and declarations

A statement is translated into the block at the insert point and leaves the insert point where the
next statement goes.  `exit` and `break` end their block, and nothing is emitted behind them: a list
of statements stops there.  A conditional or a loop always ends in a block of its own, so it ends no
list.
-/

namespace MiniPascal

/-- How a statement ended its block. -/
inductive Ending where
  | exit
  | leave
  deriving Repr, DecidableEq, Inhabited

namespace Lower

def assign (assignment : Assignment) : Lower Unit := do
  let target := assignment.target
  match target.target? with
  | none => throw (.notAssignable target.render target.position)
  | some name =>
      let _ ← ask (·.notConstant name target.position)
      let pointer ← pointer target
      let value ← expression .running assignment.value
      build (IR.Build.store value pointer)

/-! ### Control flow -/

def condition (expr : Expr) : Lower IR.Operand := do
  let value ← expression .running expr
  build (IR.Build.compare .notEqual value (.bool false))

/-- Translates into a block and, unless that ends it, goes on to another one. -/
def intoBlock (block next : IR.BlockId) (body : Lower (Option Ending)) : Lower Unit := do
  build (IR.Build.setInsertPoint block)
  if (← body).isNone then build (IR.Build.jump next)

def conditional (test : Expr) (position : Position) (holds fails : Lower (Option Ending)) :
    Lower Unit := do
  let function ← currentFunction .conditional position
  let truth ← condition test
  let thenBlock ← build (IR.Build.appendBlock function "then")
  let elseBlock ← build (IR.Build.appendBlock function "else")
  let merge ← build (IR.Build.appendBlock function "ifcont")
  build (IR.Build.branch truth thenBlock elseBlock)
  intoBlock thenBlock merge holds
  intoBlock elseBlock merge fails
  build (IR.Build.setInsertPoint merge)

def loop (function : IR.FunctionId) (id : LoopId) (test : Lower IR.Operand)
    (body : Lower (Option Ending)) : Lower Unit := do
  let testBlock ← build (IR.Build.appendBlock function "condblock")
  let bodyBlock ← build (IR.Build.appendBlock function "loop")
  let after ← build (IR.Build.appendBlock function "afterloop")
  build (IR.Build.jump testBlock)
  build (IR.Build.setInsertPoint testBlock)
  let truth ← test
  build (IR.Build.branch truth bodyBlock after)
  modify fun state => { state with exits := (id, after) :: state.exits }
  intoBlock bodyBlock testBlock body
  build (IR.Build.setInsertPoint after)

def whileLoop (id : LoopId) (test : Expr) (position : Position) (body : Lower (Option Ending)) :
    Lower Unit := do
  let function ← currentFunction .whileLoop position
  loop function id (condition test) body

/-- Whether the counter of a `for` loop has not passed its limit, which is evaluated each time. -/
def withinLimit (counter : Expr) (direction : Direction) (limit : Expr) : Lower IR.Operand := do
  let limit ← expression .running limit
  let current ← expression .running counter
  match direction with
  | .upward => build (IR.Build.compare .lessEqual current limit)
  | .downward => build (IR.Build.compare .greaterEqual current limit)

def advanceCounter (counter : Expr) (direction : Direction) : Lower Unit := do
  let pointer ← pointer counter
  let current ← expression .running counter
  let next ←
    match direction with
    | .upward => build (IR.Build.arith .add current (.int 1))
    | .downward => build (IR.Build.arith .sub current (.int 1))
  build (IR.Build.store next pointer)

def forLoop (id : LoopId) (initial : Assignment) (direction : Direction) (limit : Expr)
    (position : Position) (body : Lower (Option Ending)) : Lower Unit := do
  let function ← currentFunction .forLoop position
  assign initial
  loop function id (withinLimit initial.target direction limit) do
    let ending ← body
    if ending.isNone then advanceCounter initial.target direction
    return ending

def leaveLoop (id : LoopId) (position : Position) : Lower Unit := do
  match (← get).exits.lookup id with
  | some exit => build (IR.Build.jump exit)
  | none => throw (.breakOutsideLoop position)

/-! ### Declarations -/

def shape : DataType → Lower Shape
  | .integer => return .integer
  | .array low high => do
      let low ← constantValue low
      let high ← constantValue high
      return .array low high

def vars (group : VarGroup) : Lower Unit := do
  let shape ← shape group.type
  group.names.forM (declareVariable shape group.position)

def constantDeclaration (name : String) (value : Expr) (position : Position) : Lower Unit := do
  let value ← constantValue value
  declareConstant name value position

def newFunction (heading : Heading) : Lower IR.FunctionId :=
  build (IR.Build.declareFunction heading.name heading.parameterCount heading.returns.isSome)

def forwardDeclaration (heading : Heading) : Lower Unit := do
  let name := heading.name
  let position := heading.position
  ask (·.notDeclaredForward name position)
  if (← get).symbols.globals.has name then throw (.redeclared name position)
  let function ← newFunction heading
  declareForward name heading.shape (.function function) position

/-- The function that a definition fills: the one of its forward declaration, or a new one. -/
def definedFunction (heading : Heading) : Lower IR.FunctionId := do
  let name := heading.name
  let position := heading.position
  match (← get).symbols.forwards.lookup name with
  | some entry =>
      if entry.shape ≠ heading.shape then throw (.forwardMismatch name position)
      match entry.storage with
      | .function function => return function
      | _ => throw (.notCallable name position)
  | none =>
      ask (·.notDeclared name position)
      newFunction heading

def declareResult (name : String) (position : Position) : Lower Unit := do
  declareVariable .integer position (resultName name)
  let pointer ← address (resultName name) position
  build (IR.Build.store (.int 0) pointer)

def declareParameters (first : Nat) : List (String × Position) → Lower Unit
  | [] => return
  | (name, position) :: others => do
      declareVariable .integer position name
      let pointer ← address name position
      build (IR.Build.store (.argument first) pointer)
      declareParameters (first + 1) others

def implicitReturn (heading : Heading) : Lower Unit := do
  if !(← build IR.Build.isTerminated) then
    if heading.returns.isSome then
      let value ← nameValue .running (resultName heading.name) heading.position
      build (IR.Build.ret (some value))
    else build (IR.Build.ret none)

def definition (heading : Heading) (body : Lower (Option Ending)) : Lower Unit := do
  let function ← definedFunction heading
  declareCallable heading.name heading.shape (.function function) heading.position
  let entry ← build (IR.Build.appendBlock function "body")
  build (IR.Build.setInsertPoint entry)
  modifySymbols (·.enter function heading.name)
  if heading.returns.isSome then declareResult heading.name heading.position
  declareParameters 0
    (heading.parameters.flatMap fun group => group.names.map fun name => (name, group.position))
  let _ ← body
  implicitReturn heading
  modifySymbols (·.leave)

/-! ### Statements -/

mutual

def statement : Statement → Lower (Option Ending)
  | .program _ => return none
  | .vars group => do
      vars group
      return none
  | .constant name value position => do
      constantDeclaration name value position
      return none
  | .forward heading => do
      forwardDeclaration heading
      return none
  | .callable heading body => do
      definition heading (statements body)
      return none
  | .call name arguments position => do
      match ← callStatement name arguments position with
      | .exited => return some .exit
      | _ => return none
  | .assign assignment => do
      assign assignment
      return none
  | .block body => statements body
  | .ifThen test holds position => do
      conditional test position (statement holds) (return none)
      return none
  | .ifThenElse test holds fails position => do
      conditional test position (statement holds) (statement fails)
      return none
  | .whileLoop id test body position => do
      whileLoop id test position (statement body)
      return none
  | .forLoop id initial direction limit body position => do
      forLoop id initial direction limit position (statement body)
      return none
  | .leave id position => do
      leaveLoop id position
      return some .leave

def statements : List Statement → Lower (Option Ending)
  | [] => return none
  | first :: others => do
      match ← statement first with
      | some ending => return some ending
      | none => statements others

end

/-- Complains about the forward declaration without a definition that stands first. -/
def finish : Lower Unit := do
  let undefined := (← get).symbols.undefinedForwards
  let earlier := fun (first second : String × Entry) =>
    if first.2.position.before second.2.position then first else second
  match undefined with
  | [] => return
  | first :: others =>
      let (name, entry) := others.foldl earlier first
      throw (.forwardNeverDefined name entry.position)

end Lower

def Program.lower (program : Program) (moduleName : String) : Except SemanticError IR.Module := do
  let state ← Lowering.start (IR.Builder.new moduleName)
  let translation := do
    let _ ← Lower.statements program.statements
    Lower.finish
  match translation state with
  | .ok _ state => return state.builder.ir
  | .error error _ => throw error

end MiniPascal
