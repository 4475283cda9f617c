import MiniPascal.IR.Fold
import MiniPascal.Machine.External

/-!
# Running modules

`Run.execute` carries out one instruction of the innermost active function, and `Run.go` repeats it
until the outermost one returns.  A run has a budget of instructions, which it counts down, so it
always ends.  `State.runFunction` finds the stack as the last call found it, also if that failed.

A run panics where it comes to a block, a callee, a global or the register of a result that does not
exist.  What else would stop the same instruction comes first, and an operand that does not exist is
an error.  Nobody gets to see a machine behind a panic.
-/

namespace MiniPascal.Machine

/-- How much a run may do: instructions over all calls, and functions active at a time. -/
structure Limits where
  steps : Nat
  depth : Nat
  deriving Repr, DecidableEq, Inhabited

def Limits.standard : Limits := ⟨10000000, 1000⟩

/-! ### Operands -/

namespace Frame

def word (ir : IR.Module) (frame : Frame) (operand : IR.Operand) : Except Halt Word :=
  match operand with
  | .int value => .ok (.int value)
  | .bool value => .ok (.int (IR.boolToInt value))
  | .register register =>
      match frame.registers[register]? with
      | some (some word) => .ok word
      | _ => .error (.failed (.undefinedRegister register (ir.functionName frame.function)))
  | .argument index =>
      match frame.arguments[index]? with
      | some word => .ok word
      | none => .error (.failed (.invalidPointer (ir.functionName frame.function)))
  | .global id => .ok (.pointer (.global id 0))

def int (ir : IR.Module) (frame : Frame) (operand : IR.Operand) : Except Halt Int32 :=
  match frame.word ir operand with
  | .ok (.int value) => .ok value
  | .ok (.pointer _) => .error (.failed (.invalidPointer (ir.functionName frame.function)))
  | .error halt => .error halt

def pointer (ir : IR.Module) (frame : Frame) (operand : IR.Operand) : Except Halt Pointer :=
  match frame.word ir operand with
  | .ok (.pointer pointer) => .ok pointer
  | .ok (.int _) => .error (.failed (.invalidPointer (ir.functionName frame.function)))
  | .error halt => .error halt

/-- The next instruction; there must be one, since only a terminator leaves a block. -/
def fetch (ir : IR.Module) (frame : Frame) : Except Halt IR.Instruction :=
  match ir.block? frame.block with
  | some block =>
      match block.instructions[frame.next]? with
      | some instruction => .ok instruction
      | none => .error (.failed (.missingTerminator block.name (ir.functionName frame.function)))
  | none => .error .panic

end Frame

/-! ### Instructions -/

inductive Flow where
  | next (frame : Frame)
  /-- The outermost function has returned. -/
  | done (value : Option Word)

namespace Run

def call (ir : IR.Module) (limits : Limits) (callee : IR.FunctionId) (arguments : List Word)
    (depth : Nat) (result : Option IR.Register) : Run (Frame ⊕ Word) := do
  match ir.functions[callee]? with
  | none => throw .panic
  | some function =>
      if function.isDeclaration then return .inr (← callExternal ir callee arguments)
      else if limits.depth ≤ depth then throw (.failed (.callDepth limits.depth))
      else
        let base := (← get).stack.size
        return .inl
          { function := callee, block := ⟨callee, 0⟩, next := 0,
            registers := Array.replicate function.registers none, arguments := arguments.toArray,
            base := base, depth := depth + 1, result := result }

def returnFrom (ir : IR.Module) (frame : Frame) (value : Option Word) : Run Flow := fun state =>
  let state := state.dropSlots frame.base
  match state.callers with
  | [] => .ok (.done value) state
  | caller :: callers =>
      let state := { state with callers := callers }
      match frame.result, value with
      | none, _ => .ok (.next caller) state
      | some register, some word => (Flow.next <$> assign caller register word) state
      | some _, none => .error (.failed (.noReturnValue (ir.functionName frame.function))) state

def suspend (frame : Frame) : Run Unit := fun state =>
  .ok () { state with callers := frame :: state.callers }

def proceed (frame : Frame) (result : IR.Register) (word : Word) : Run Flow :=
  return .next (← assign frame result word).advance

def execute (ir : IR.Module) (limits : Limits) (frame : Frame) : IR.Instruction → Run Flow
  | .arith result op left right => do
      let left ← ofExcept (frame.int ir left)
      let right ← ofExcept (frame.int ir right)
      match op.evaluate? left right with
      | some value => proceed frame result (.int value)
      | none => throw (.failed (.divisionByZero (ir.functionName frame.function)))
  | .compare result predicate left right => do
      let left ← ofExcept (frame.int ir left)
      let right ← ofExcept (frame.int ir right)
      let holds := IR.boolToInt (predicate.evaluate left right)
      proceed frame result (.int holds)
  | .alloca result _ => do
      let index ← pushSlot
      proceed frame result (.pointer (.slot index))
  | .load result pointer => do
      let pointer ← ofExcept (frame.pointer ir pointer)
      let value ← load ir frame.function pointer
      proceed frame result (.int value)
  | .store value pointer => do
      let value ← ofExcept (frame.int ir value)
      let pointer ← ofExcept (frame.pointer ir pointer)
      store ir frame.function pointer value
      return .next frame.advance
  | .element result base index => do
      let index ← ofExcept (frame.int ir index)
      match ← ofExcept (frame.pointer ir base) with
      | .global id offset =>
          let element := Pointer.global id (offset + index.toInt)
          proceed frame result (.pointer element)
      | .slot _ => throw (.failed (.invalidPointer (ir.functionName frame.function)))
  | .call result callee arguments => do
      let arguments ← ofExcept (arguments.mapM (frame.word ir))
      match ← call ir limits callee arguments frame.depth result with
      | .inl body =>
          suspend frame.advance
          return .next body
      | .inr value =>
          match result with
          | some register => proceed frame register value
          | none => return .next frame.advance
  | .jump target => return .next (frame.jump target)
  | .branch condition holds fails => do
      let condition ← ofExcept (frame.int ir condition)
      return .next (frame.jump (if condition ≠ 0 then holds else fails))
  | .ret none => returnFrom ir frame none
  | .ret (some value) => do
      let value ← ofExcept (frame.word ir value)
      returnFrom ir frame (some value)

/-- Runs on until the outermost function returns, for as many instructions as the budget has. -/
def go (ir : IR.Module) (limits : Limits) : Nat → Frame → Run (Option Word)
  | 0, frame => do
      let _ ← ofExcept (frame.fetch ir)
      count
      throw (.failed (.stepLimit limits.steps))
  | budget + 1, frame => do
      let instruction ← ofExcept (frame.fetch ir)
      count
      match ← execute ir limits frame instruction with
      | .next frame => go ir limits budget frame
      | .done value => return value

def unwind (height : Nat) (state : State) : State :=
  { state.dropSlots height with callers := [] }

/-- Calls a function without arguments.  Its value must be an integer, and none counts as zero. -/
def function (ir : IR.Module) (limits : Limits) (name : String) : Run Int32 := do
  match ir.functionNamed? name with
  | none => throw (.failed (.noEntry name))
  | some id =>
      let value ←
        match ← call ir limits id [] 0 none with
        | .inr word => pure (some word)
        | .inl body => go ir limits (limits.steps - (← get).steps) body
      match value with
      | some (.int value) => return value
      | some (.pointer _) => throw (.failed (.invalidPointer name))
      | none => return 0

end Run

namespace State

/-- Calls a function and leaves nothing of a call that fails. -/
def runFunction (ir : IR.Module) (limits : Limits) (name : String) (state : State) :
    Except Halt Int32 × State :=
  let height := state.stack.size
  match Run.function ir limits name state with
  | .ok value state => (.ok value, state)
  | .error halt state => (.error halt, Run.unwind height state)

/-- Calls functions one after the other, whether or not they fail, but none behind a panic. -/
def runFunctions (ir : IR.Module) (limits : Limits) :
    List String → State → List (Except Halt Int32) × State
  | [], state => ([], state)
  | name :: names, state =>
      match state.runFunction ir limits name with
      | (.error .panic, state) => ([.error .panic], state)
      | (first, state) =>
          let (others, state) := runFunctions ir limits names state
          (first :: others, state)

end State

end MiniPascal.Machine
