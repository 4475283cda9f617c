import MiniPascal.IR.Builder
import MiniPascal.Scope.Table
import MiniPascal.Tree.Basic

/-!
# State of a translation

Trees are translated in one pass that looks names up and emits instructions.  `Lowering` is what the
pass knows, and `Lower` a step of it, after which the state is known even if the step failed.
-/

namespace MiniPascal

/-- The suffix that makes the name of a callable the name of its result. -/
def resultName (callable : String) : String := callable ++ "_return"

def textGlobalName : String := ".str"

def Heading.shape (heading : Heading) : Shape :=
  .callable heading.parameterCount heading.returns.isSome

structure Support where
  printf : IR.FunctionId
  scanf : IR.FunctionId
  writelnFormat : IR.Operand
  readlnFormat : IR.Operand
  writeFormat : IR.Operand
  deriving Repr, DecidableEq, Inhabited

structure Lowering where
  builder : IR.Builder
  symbols : SymbolTable
  /-- The block behind each loop translated so far, the last in front. -/
  exits : List (LoopId × IR.BlockId)
  support : Support
  deriving Repr, DecidableEq, Inhabited

abbrev Lower := EStateM SemanticError Lowering

def IR.Build.addText (text : String) : IR.Build IR.Operand :=
  IR.Build.addGlobal textGlobalName (.bytes text) true .internal

def Support.declare : IR.Build Support := do
  let writelnFormat ← IR.Build.addText "%d\n"
  let readlnFormat ← IR.Build.addText "%d"
  let writeFormat ← IR.Build.addText "%s"
  let printf ← IR.Build.declareExternal "printf" 1 true true
  let scanf ← IR.Build.declareExternal "scanf" 1 true true
  return ⟨printf, scanf, writelnFormat, readlnFormat, writeFormat⟩

namespace Lower

def build {α : Type} (action : IR.Build α) : Lower α := fun state =>
  let (result, builder) := action.run state.builder
  .ok result { state with builder := builder }

def ask {α : Type} (question : SymbolTable → Except SemanticError α) : Lower α := fun state =>
  match question state.symbols with
  | .ok answer => .ok answer state
  | .error error => .error error state

def modifySymbols (change : SymbolTable → SymbolTable) : Lower Unit :=
  modify fun state => { state with symbols := change state.symbols }

def currentFunction (what : Construct) (position : Position) : Lower IR.FunctionId :=
  ask fun symbols =>
    match symbols.enclosing with
    | some enclosing => .ok enclosing.function
    | none => .error (.outsideCallable what position)

/-! ### Declarations

A declaration looks whether its name is free before it makes the storage: a stack slot for a local
integer, a global for anything else. -/

/-- Makes room for a variable.  Arrays are global also inside of callables. -/
def allocate (name : String) (shape : Shape) (position : Position) : Lower IR.Operand := do
  match shape with
  | .integer =>
      if (← get).symbols.enclosing.isSome then build (IR.Build.alloca name)
      else build (IR.Build.addGlobal name (.int 0) false .external)
  | .array low high =>
      if low < high then
        build (IR.Build.addGlobal name (.array (SymbolTable.arrayLength low high)) false .common)
      else throw (.invalidArrayBounds name low high position)
  | .callable _ _ => throw (.notAssignable name position)

def declareVariable (shape : Shape) (position : Position) (name : String) : Lower Unit := do
  ask (·.notDeclared name position)
  let pointer ← allocate name shape position
  modifySymbols (·.add name ⟨shape, .address pointer, none, position⟩)

def declareConstant (name : String) (value : Int32) (position : Position) : Lower Unit := do
  ask (·.notDeclared name position)
  let pointer ← build (IR.Build.addGlobal name (.int value) true .external)
  modifySymbols (·.add name ⟨.integer, .address pointer, some value, position⟩)

def declareCallable (name : String) (shape : Shape) (storage : Storage) (position : Position) :
    Lower Unit := do
  ask (·.notDeclared name position)
  modifySymbols (·.add name ⟨shape, storage, none, position⟩)

def declareForward (name : String) (shape : Shape) (storage : Storage) (position : Position) :
    Lower Unit := do
  ask (·.notDeclaredForward name position)
  modifySymbols (·.addForward name ⟨shape, storage, none, position⟩)

/-- Declares the built-in callables, which have no position of their own. -/
def declareBuiltins : Lower Unit :=
  Builtin.all.forM fun builtin =>
    declareCallable builtin.name (.callable builtin.parameterCount builtin.returnsValue)
      (.builtin builtin) .nowhere

end Lower

def Lowering.start (builder : IR.Builder) : Except SemanticError Lowering :=
  let (support, builder) := Support.declare.run builder
  match Lower.declareBuiltins ⟨builder, .empty, [], support⟩ with
  | .ok _ state => .ok state
  | .error error _ => .error error

end MiniPascal
