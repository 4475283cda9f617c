import MiniPascal.IR.Fold

/-!
# Building modules

A builder appends instructions to the block at its insert point.  Operations on constants are
carried out at once and append nothing.  A block that ends in a terminator takes no more
instructions, and without an insert point nothing is appended anywhere.
-/

namespace MiniPascal.IR

structure Builder where
  ir : Module
  /-- The block that instructions go to. -/
  insertPoint : Option BlockId
  deriving Repr, DecidableEq, Inhabited

abbrev Build := StateM Builder

def numberedName (name : String) (number : Nat) : String := name ++ "." ++ toString number

/-- The first of the numbered names that is free, from a number on and among so many. -/
def freeName (taken : List String) (name : String) : Nat → Nat → String
  | 0, number => numberedName name number
  | bound + 1, number =>
      if numberedName name number ∈ taken then freeName taken name bound (number + 1)
      else numberedName name number

/-- The name, or the first of `name.1`, `name.2`, … that is free.  Of as many names as are taken and
the one in question, one is free. -/
def uniqueName (taken : List String) (name : String) : String :=
  if name ∈ taken then freeName taken name taken.length 1 else name

namespace Builder

def new (name : String) : Builder := ⟨.empty name, none⟩

def modifyFunction (builder : Builder) (id : FunctionId) (change : Function → Function) :
    Builder :=
  { builder with ir := { builder.ir with functions := builder.ir.functions.modify id change } }

def modifyBlock (builder : Builder) (id : BlockId) (change : Block → Block) : Builder :=
  builder.modifyFunction id.function fun function =>
    { function with blocks := function.blocks.modify id.index change }

end Builder

namespace Block

def append (block : Block) (instruction : Instruction) : Block :=
  if block.isTerminated then block
  else { block with instructions := block.instructions.push instruction }

/-- Puts an `alloca` behind the ones that the block begins with. -/
def insertAlloca (block : Block) (instruction : Instruction) : Block :=
  let (allocas, others) := block.instructions.toList.span (·.isAlloca)
  { block with instructions := (allocas ++ instruction :: others).toArray }

end Block

namespace Build

def addFunction (name : String) (parameters : Nat) (returnsValue variadic : Bool) :
    Build FunctionId := do
  let functions := (← get).ir.functions
  let unique := uniqueName (functions.toList.map (·.name)) name
  modify fun builder =>
    { builder with
      ir := { builder.ir with
        functions :=
          builder.ir.functions.push ⟨unique, parameters, returnsValue, variadic, #[], 0⟩ } }
  return functions.size

def declareFunction (name : String) (parameters : Nat) (returnsValue : Bool) : Build FunctionId :=
  addFunction name parameters returnsValue false

def declareExternal (name : String) (parameters : Nat) (returnsValue variadic : Bool) :
    Build FunctionId :=
  addFunction name parameters returnsValue variadic

def addGlobal (name : String) (content : Content) (constant : Bool) (linkage : Linkage) :
    Build Operand := do
  let globals := (← get).ir.globals
  let unique := uniqueName (globals.toList.map (·.name)) name
  modify fun builder =>
    { builder with
      ir := { builder.ir with
        globals := builder.ir.globals.push ⟨unique, content, constant, linkage⟩ } }
  return .global globals.size

def appendBlock (function : FunctionId) (name : String) : Build BlockId := do
  let count :=
    match (← get).ir.functions[function]? with
    | some function => function.blocks.size
    | none => 0
  modify fun builder =>
    builder.modifyFunction function fun function =>
      { function with blocks := function.blocks.push ⟨name, #[]⟩ }
  return ⟨function, count⟩

def setInsertPoint (block : BlockId) : Build Unit :=
  modify fun builder => { builder with insertPoint := some block }

def isTerminated : Build Bool := do
  let builder ← get
  return (builder.insertPoint.bind builder.ir.block?).any (·.isTerminated)

def freshRegister : Build (Option Register) := do
  let builder ← get
  match builder.insertPoint with
  | none => return none
  | some block =>
      set (builder.modifyFunction block.function fun function =>
        { function with registers := function.registers + 1 })
      return builder.ir.functions[block.function]?.map (·.registers)

def emit (instruction : Instruction) : Build Unit :=
  modify fun builder =>
    match builder.insertPoint with
    | some block => builder.modifyBlock block fun block => block.append instruction
    | none => builder

/-- Emits an instruction that defines a register; without an insert point the value is zero. -/
def emitValue (instruction : Register → Instruction) : Build Operand := do
  match ← freshRegister with
  | none => return .int 0
  | some register =>
      emit (instruction register)
      return .register register

def arith (op : ArithOp) (left right : Operand) : Build Operand := do
  match op.fold? left right with
  | some folded => return folded
  | none => emitValue fun result => .arith result op left right

def compare (predicate : Predicate) (left right : Operand) : Build Operand := do
  match predicate.fold? left right with
  | some folded => return folded
  | none => emitValue fun result => .compare result predicate left right

/-- A stack slot, made in the first block of the function at the insert point. -/
def alloca (name : String) : Build Operand := do
  match (← get).insertPoint, ← freshRegister with
  | some block, some register =>
      modify fun builder =>
        builder.modifyBlock ⟨block.function, 0⟩ fun entry =>
          entry.insertAlloca (.alloca register name)
      return .register register
  | _, _ => return .int 0

def load (pointer : Operand) : Build Operand := emitValue fun result => .load result pointer

def store (value pointer : Operand) : Build Unit := emit (.store value pointer)

def element (base index : Operand) : Build Operand :=
  emitValue fun result => .element result base index

def call (callee : FunctionId) (arguments : List Operand) : Build (Option Operand) := do
  if (← get).ir.functions[callee]?.any (·.returnsValue) then
    return some (← emitValue fun result => .call (some result) callee arguments)
  else
    emit (.call none callee arguments)
    return none

def jump (target : BlockId) : Build Unit := emit (.jump target)

def branch (condition : Operand) (holds fails : BlockId) : Build Unit :=
  emit (.branch condition holds fails)

def ret (value : Option Operand) : Build Unit := emit (.ret value)

end Build

end MiniPascal.IR
