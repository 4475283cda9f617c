/-!
# Intermediate code

A module holds globals and functions; a function is a list of basic blocks, whose instructions work
on numbered registers of 32 bits.  Storage is reached through pointers: globals, stack slots made by
`alloca`, and elements of a global array.
-/

namespace MiniPascal.IR

abbrev Register := Nat

abbrev FunctionId := Nat

abbrev GlobalId := Nat

structure BlockId where
  function : FunctionId
  index : Nat
  deriving Repr, DecidableEq, Inhabited

inductive Operand where
  | int (value : Int32)
  | bool (value : Bool)
  | register (register : Register)
  /-- An argument of the function. -/
  | argument (index : Nat)
  /-- The address of a global. -/
  | global (id : GlobalId)
  deriving Repr, DecidableEq, Inhabited

inductive ArithOp where
  | add
  | sub
  | mul
  | div
  | rem
  | and
  | or
  | xor
  deriving Repr, DecidableEq, Inhabited

inductive Predicate where
  | equal
  | notEqual
  | less
  | greater
  | lessEqual
  | greaterEqual
  deriving Repr, DecidableEq, Inhabited

inductive Instruction where
  | arith (result : Register) (op : ArithOp) (left right : Operand)
  | compare (result : Register) (predicate : Predicate) (left right : Operand)
  /-- A stack slot, there until the function returns.  The name is only shown. -/
  | alloca (result : Register) (name : String)
  | load (result : Register) (pointer : Operand)
  | store (value pointer : Operand)
  /-- The address of an element of the array at `base`. -/
  | element (result : Register) (base index : Operand)
  | call (result : Option Register) (callee : FunctionId) (arguments : List Operand)
  | jump (target : BlockId)
  | branch (condition : Operand) (holds fails : BlockId)
  | ret (value : Option Operand)
  deriving Repr, DecidableEq, Inhabited

namespace Instruction

def isTerminator : Instruction → Bool
  | jump _ | branch _ _ _ | ret _ => true
  | _ => false

def isAlloca : Instruction → Bool
  | alloca _ _ => true
  | _ => false

def result? : Instruction → Option Register
  | arith result _ _ _ | compare result _ _ _ | alloca result _ | load result _
  | element result _ _ => some result
  | call result _ _ => result
  | store _ _ | jump _ | branch _ _ _ | ret _ => none

end Instruction

structure Block where
  name : String
  instructions : Array Instruction
  deriving Repr, DecidableEq, Inhabited

def Block.isTerminated (block : Block) : Bool := block.instructions.back?.any (·.isTerminator)

structure Function where
  name : String
  parameters : Nat
  returnsValue : Bool
  /-- Takes any number of further arguments. -/
  variadic : Bool
  /-- Empty if the function is defined elsewhere. -/
  blocks : Array Block
  /-- Registers given out so far. -/
  registers : Nat
  deriving Repr, DecidableEq, Inhabited

def Function.isDeclaration (function : Function) : Bool := function.blocks.isEmpty

inductive Linkage where
  | external
  /-- Merged with globals of the same name elsewhere. -/
  | common
  | internal
  deriving Repr, DecidableEq, Inhabited

inductive Content where
  | int (value : Int32)
  /-- That many integers, all zero. -/
  | array (length : Nat)
  /-- The bytes of a text, with a zero behind them. -/
  | bytes (text : String)
  deriving Repr, DecidableEq, Inhabited

structure Global where
  name : String
  content : Content
  constant : Bool
  linkage : Linkage
  deriving Repr, DecidableEq, Inhabited

structure Module where
  name : String
  functions : Array Function
  globals : Array Global
  deriving Repr, DecidableEq, Inhabited

namespace Module

def empty (name : String) : Module := ⟨name, #[], #[]⟩

def block? (ir : Module) (id : BlockId) : Option Block := do
  (← ir.functions[id.function]?).blocks[id.index]?

def functionNamed? (ir : Module) (name : String) : Option FunctionId :=
  ir.functions.findIdx? (·.name == name)

def globalNamed? (ir : Module) (name : String) : Option GlobalId :=
  ir.globals.findIdx? (·.name == name)

def functionName (ir : Module) (id : FunctionId) : String :=
  match ir.functions[id]? with
  | some function => function.name
  | none => ""

def globalName (ir : Module) (id : GlobalId) : String :=
  match ir.globals[id]? with
  | some global => global.name
  | none => ""

end Module

end MiniPascal.IR
