import MiniPascal.IR.Builder

/-!
# Well-formed modules

A function is coherent if each of its instructions may stand where it stands: what it reads is
defined, what it jumps to exists, and what it calls takes its arguments.  It is well-formed if its
blocks are also complete, that is, end in their only terminator.
-/

namespace MiniPascal.IR

namespace Instruction

def operands : Instruction → List Operand
  | arith _ _ left right | compare _ _ left right => [left, right]
  | alloca _ _ | jump _ => []
  | load _ pointer => [pointer]
  | store value pointer => [value, pointer]
  | element _ base index => [base, index]
  | call _ _ arguments => arguments
  | branch condition _ _ => [condition]
  | ret value => value.toList

def targets : Instruction → List BlockId
  | jump target => [target]
  | branch _ holds fails => [holds, fails]
  | _ => []

end Instruction

def defined (instructions : List Instruction) : List Register :=
  instructions.filterMap (·.result?)

/-- The last instruction is a terminator, and the only one. -/
def Block.IsComplete (block : Block) : Prop :=
  ∃ body last, block.instructions.toList = body ++ [last] ∧ last.isTerminator ∧
    ∀ instruction ∈ body, ¬ instruction.isTerminator

namespace Function

/-- The registers that hold stack slots: those of the `alloca`s of the first block. -/
def slots (function : Function) : List Register :=
  match function.blocks[0]? with
  | some entry => defined (entry.instructions.toList.filter (·.isAlloca))
  | none => []

def definedRegisters (function : Function) : List Register :=
  function.blocks.toList.flatMap fun block => defined block.instructions.toList

end Function

def Operand.Fits (ir : Module) (function : Function) (before : List Instruction) :
    Operand → Prop
  | .int _ | .bool _ => True
  | .register slot => slot ∈ defined before ∨ slot ∈ function.slots
  | .argument index => index < function.parameters
  | .global id => id < ir.globals.size

structure Instruction.Fits (ir : Module) (id : FunctionId) (function : Function) (block : Nat)
    (before : List Instruction) (instruction : Instruction) : Prop where
  operands : ∀ operand ∈ instruction.operands, operand.Fits ir function before
  targets : ∀ target ∈ instruction.targets,
    target.function = id ∧ 0 < target.index ∧ target.index < function.blocks.size
  alloca : instruction.isAlloca → block = 0 ∧ ∀ other ∈ before, other.isAlloca
  call : ∀ result callee arguments, instruction = .call result callee arguments →
    ∃ called, ir.functions[callee]? = some called ∧
      (if called.variadic then called.parameters ≤ arguments.length
        else arguments.length = called.parameters) ∧
      result.isSome = called.returnsValue
  ret : ∀ value, instruction = .ret value → value.isSome = function.returnsValue

/-- Every register is defined by exactly one instruction, and every instruction fits its place. -/
structure Function.Coherent (ir : Module) (id : FunctionId) (function : Function) : Prop where
  registers : function.definedRegisters.Perm (List.range function.registers)
  instruction : ∀ (index : Nat) (block : Block), function.blocks[index]? = some block →
    ∀ (before : List Instruction) (instruction : Instruction) (after : List Instruction), 
      block.instructions.toList = before ++ instruction :: after →
        instruction.Fits ir id function index before

structure Function.WellFormed (ir : Module) (id : FunctionId) (function : Function) : Prop
    extends function.Coherent ir id where
  complete : ∀ block ∈ function.blocks, block.IsComplete

/-- Every function that has a body is well-formed. -/
def Module.WellFormed (ir : Module) : Prop :=
  ∀ (id : FunctionId) (function : Function), ir.functions[id]? = some function → ¬ function.isDeclaration →
    function.WellFormed ir id

end MiniPascal.IR
