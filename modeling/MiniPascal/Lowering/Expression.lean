import MiniPascal.Lowering.Basic
import MiniPascal.Tree.Printer

/-!
# Translation of expressions

An expression is translated to an operand that holds its value.  Where a constant is required, names
stand for declared constants, and text, calls, elements and a division by zero are refused; all else
folds while it is built.

A callable's name stands for its result so far if the callable takes arguments, and else for a call.
-/

namespace MiniPascal

/-- Whether an expression is evaluated by the translation or by the translated program. -/
inductive Stage where
  | constant
  | running
  deriving Repr, DecidableEq, Inhabited

inductive CallResult where
  | value (value : IR.Operand)
  | nothing
  /-- The callable has returned. -/
  | exited
  deriving Repr, DecidableEq, Inhabited

def BinaryOp.emit (op : BinaryOp) (left right : IR.Operand) : IR.Build IR.Operand :=
  match op with
  | add => IR.Build.arith .add left right
  | sub => IR.Build.arith .sub left right
  | mul => IR.Build.arith .mul left right
  | div => IR.Build.arith .div left right
  | mod => IR.Build.arith .rem left right
  | and => IR.Build.arith .and left right
  | or => IR.Build.arith .or left right
  | equal => IR.Build.compare .equal left right
  | notEqual => IR.Build.compare .notEqual left right
  | less => IR.Build.compare .less left right
  | greater => IR.Build.compare .greater left right
  | lessEqual => IR.Build.compare .lessEqual left right
  | greaterEqual => IR.Build.compare .greaterEqual left right

def BinaryOp.divides : BinaryOp → Bool
  | div | mod => true
  | _ => false

namespace SymbolTable

/-- The name whose value a name stands for: that of its result if it is a callable with arguments.
The result may bear the name of a callable in turn, at most as often as there are names. -/
def valueName (table : SymbolTable) : Nat → String → String
  | 0, name => name
  | bound + 1, name =>
      match table.get? name with
      | some ⟨.callable (_ + 1) _, _, _, _⟩ => table.valueName bound (resultName name)
      | _ => name

def size (table : SymbolTable) : Nat :=
  table.globals.length + table.locals.length + table.forwards.length

end SymbolTable

namespace Lower

def requireRunning (stage : Stage) (what : NonConstant) (position : Position) : Lower Unit :=
  match stage with
  | .running => return
  | .constant => throw (.notConstant what position)

/-! ### Storage -/

def address (name : String) (position : Position) : Lower IR.Operand :=
  ask fun symbols => do
    match (← symbols.declared name position).address? with
    | some pointer => return pointer
    | none => throw (.notAssignable name position)

/-- The pointer to what an assignment to a name sets.  For a callable this is its result. -/
def namePointer (name : String) (position : Position) : Lower IR.Operand := do
  match (← ask (·.declared name position)).shape with
  | .integer => address name position
  | .callable _ _ => address (resultName name) position
  | .array _ _ => throw (.arrayAsScalar name position)

/-- The pointer to an array element.  The index is not checked. -/
def elementPointer (array : String) (position : Position) (index : Lower IR.Operand) :
    Lower IR.Operand := do
  match (← ask (·.declared array position)).shape with
  | .array low _ =>
      let base ← address array position
      let index ← index
      let offset ← build (IR.Build.arith .sub index (.int low))
      build (IR.Build.element base offset)
  | _ => throw (.notAnArray array position)

/-! ### Calls -/

def asValue (callee : String) (position : Position) : CallResult → Lower IR.Operand
  | .value value => return value
  | .nothing => throw (.procedureAsValue callee position)
  | .exited => throw (.exitAsValue position)

def emitCall (callee : IR.FunctionId) (arguments : List IR.Operand) : Lower CallResult := do
  match ← build (IR.Build.call callee arguments) with
  | some value => return .value value
  | none => return .nothing

/-- A callable that takes a number of arguments and, if its value is used, has one. -/
def callee (name : String) (arguments : Nat) (position : Position) (used : Bool) :
    Lower Storage := do
  let entry ← ask (·.declared name position)
  match entry.shape with
  | .callable parameters returnsValue =>
      if arguments ≠ parameters then throw (.wrongArity name parameters arguments position)
      match entry.storage with
      | .builtin builtin =>
          if used && builtin = .exit then throw (.exitAsValue position)
          if used && !builtin.returnsValue then throw (.procedureAsValue name position)
          return .builtin builtin
      | .function id =>
          if used && !returnsValue then throw (.procedureAsValue name position)
          return .function id
      | .address _ => throw (.notCallable name position)
  | _ => throw (.notCallable name position)

/-! ### Names -/

def plainValue (name : String) (position : Position) : Lower IR.Operand := do
  match (← ask (·.declared name position)).shape with
  | .integer => build (IR.Build.load (← address name position))
  | .array _ _ => throw (.arrayAsScalar name position)
  | .callable _ _ =>
      match ← callee name 0 position true with
      | .function id => asValue name position (← emitCall id [])
      | _ => throw (.exitAsValue position)

def nameValue (stage : Stage) (name : String) (position : Position) : Lower IR.Operand := do
  match stage with
  | .constant =>
      match (← ask (·.constant name position)).constant with
      | some value => return .int value
      | none => throw (.notConstant (.ident name) position)
  | .running =>
      let symbols := (← get).symbols
      plainValue (symbols.valueName (symbols.size + 1) name) position

/-! ### Built-in callables -/

def requireReadable (target : Expr) : Lower Unit := do
  match target with
  | .ident name position =>
      let entry ← ask (·.notConstant name position)
      if entry.shape ≠ .integer then throw (.notAssignable target.render position)
  | .element array _ position =>
      let _ ← ask (·.notConstant array position)
  | _ => throw (.notAssignable target.render target.position)

def decrement (target : Expr) : Lower Unit := do
  match target with
  | .ident name position =>
      let entry ← ask (·.notConstant name position)
      if entry.shape ≠ .integer then throw (.notDecrementable name position)
      let pointer ← namePointer name position
      let value ← build (IR.Build.load pointer)
      let next ← build (IR.Build.arith .sub value (.int 1))
      build (IR.Build.store next pointer)
  | _ => throw (.notDecrementable target.render target.position)

def exitCallable (position : Position) : Lower Unit := do
  let symbols := (← get).symbols
  match symbols.enclosing, symbols.enclosingCallable? with
  | some enclosing, some entry =>
      match entry.shape with
      | .callable _ true =>
          let value ← nameValue .running (resultName enclosing.name) position
          build (IR.Build.ret (some value))
      | _ => build (IR.Build.ret none)
  | _, _ => throw (.outsideCallable .exit position)

def call (name : String) (arguments : List Expr) (position : Position) (used : Bool)
    (values : Lower (List IR.Operand)) (target : Lower IR.Operand) : Lower CallResult := do
  match ← callee name arguments.length position used with
  | .function id => emitCall id (← values)
  | .address _ => throw (.notCallable name position)
  | .builtin .writeln =>
      let values ← values
      let support := (← get).support
      emitCall support.printf (support.writelnFormat :: values)
  | .builtin .readln =>
      arguments.forM requireReadable
      let pointer ← target
      let support := (← get).support
      emitCall support.scanf [support.readlnFormat, pointer]
  | .builtin .write =>
      let values ← values
      let support := (← get).support
      let _ ← emitCall support.printf (support.writeFormat :: values)
      return .nothing
  | .builtin .dec =>
      arguments.forM decrement
      return .nothing
  | .builtin .exit =>
      exitCallable position
      return .exited

/-! ### Expressions -/

mutual

def expression (stage : Stage) : Expr → Lower IR.Operand
  | .ident name position => nameValue stage name position
  | .number value _ => return .int value
  | .literal text position => do
      requireRunning stage .literal position
      build (IR.Build.addText text)
  | .binary op left right position => do
      let left ← expression stage left
      let right ← expression stage right
      if stage = .constant ∧ op.divides ∧ right = .int 0 then
        throw (.notConstant .divisionByZero position)
      build (op.emit left right)
  | .negate operand _ => do
      let value ← expression stage operand
      build (IR.Build.arith .sub (.int 0) value)
  | .not operand _ => do
      let value ← expression stage operand
      build (IR.Build.arith .xor value (.bool true))
  | .element array index position => do
      requireRunning stage .element position
      let pointer ← elementPointer array position (expression .running index)
      build (IR.Build.load pointer)
  | .call name arguments position => do
      requireRunning stage .call position
      let result ←
        call name arguments position true (expressions arguments) (firstPointer arguments)
      asValue name position result

def pointer : Expr → Lower IR.Operand
  | .ident name position => namePointer name position
  | .element array index position =>
      elementPointer array position (expression .running index)
  | target => throw (.notAssignable target.render target.position)

def expressions : List Expr → Lower (List IR.Operand)
  | [] => return []
  | first :: others => do
      let value ← expression .running first
      return value :: (← expressions others)

def firstPointer : List Expr → Lower IR.Operand
  | [] => return .int 0
  | first :: _ => pointer first

end

def constantValue (expr : Expr) : Lower Int32 := do
  match ← expression .constant expr with
  | .int value => return value
  | _ => throw (.notConstant (.expression expr.render) expr.position)

def callStatement (name : String) (arguments : List Expr) (position : Position) :
    Lower CallResult :=
  call name arguments position false (expressions arguments) (firstPointer arguments)

end Lower

end MiniPascal
