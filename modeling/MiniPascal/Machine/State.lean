import Std.Data.TreeMap
import MiniPascal.Machine.Console
import MiniPascal.Machine.Error
import MiniPascal.Text.Utf8

/-!
# State of a running program

Each global has its own cells, which read zero until they are written, so that a long array costs
only what is used of it.  Stack slots lie on one stack, of which each active function has the part
above its base.  A slot that is gone, an argument that was not given and a place outside of a global
are errors; a global or a register that the module does not have is a panic.
-/

namespace MiniPascal.Machine

structure Cells where
  size : Nat
  /-- What has been written, by index. -/
  written : Std.TreeMap Nat Int32

namespace Cells

def get (cells : Cells) (index : Nat) : Int32 := cells.written.getD index 0

def set (cells : Cells) (index : Nat) (value : Int32) : Cells :=
  { cells with written := cells.written.insert index value }

def ofList (values : List Int32) : Cells :=
  let cells := values.foldl (fun (cells, index) value => (cells.set index value, index + 1))
    (⟨values.length, ∅⟩, 0)
  cells.1

/-- What a global holds at first.  A text has a zero behind its bytes. -/
def ofContent : IR.Content → Cells
  | .int value => ofList [value]
  | .array length => ⟨length, ∅⟩
  | .bytes text => ofList (text.toUTF8.toList.map (fun byte => Int32.ofNat byte.toNat) ++ [0])

/-- The low bytes of the cells from an index up to the first zero. -/
def bytesFrom (cells : Cells) (index : Nat) : List UInt8 :=
  if index < cells.size then
    let value := cells.get index
    if value = 0 then [] else value.toUInt32.toUInt8 :: cells.bytesFrom (index + 1)
  else []
termination_by cells.size - index

def text (cells : Cells) (offset : Int) : String :=
  if offset < 0 then "" else Text.decode (cells.bytesFrom offset.toNat)

end Cells

structure Frame where
  function : IR.FunctionId
  block : IR.BlockId
  /-- The next instruction of the block. -/
  next : Nat
  registers : Array (Option Word)
  arguments : Array Word
  /-- Height of the stack when the function was called. -/
  base : Nat
  /-- How many functions are active, this one included. -/
  depth : Nat
  /-- The register of the caller that takes the value returned. -/
  result : Option IR.Register

namespace Frame

def define (frame : Frame) (register : IR.Register) (word : Word) : Frame :=
  { frame with registers := frame.registers.setIfInBounds register (some word) }

def advance (frame : Frame) : Frame := { frame with next := frame.next + 1 }

def jump (frame : Frame) (block : IR.BlockId) : Frame := { frame with block := block, next := 0 }

end Frame

structure State where
  globals : Array Cells
  stack : Array Int32
  /-- The functions that wait for a call to return, the innermost in front. -/
  callers : List Frame
  console : Console
  /-- Instructions counted so far. -/
  steps : Nat

namespace State

def start (ir : IR.Module) (console : Console) : State :=
  ⟨ir.globals.map fun global => Cells.ofContent global.content, #[], [], console, 0⟩

def dropSlots (state : State) (height : Nat) : State :=
  { state with stack := state.stack.shrink height }

end State

/-- A piece of a run.  The state it leaves behind is known also where it comes to no value. -/
abbrev Run := EStateM Halt State

namespace Run

def ofExcept {α : Type} : Except Halt α → Run α
  | .ok value => pure value
  | .error halt => throw halt

def count : Run Unit := fun state => .ok () { state with steps := state.steps + 1 }

def print (text : String) : Run Unit := fun state =>
  .ok () { state with console := state.console.print text }

def readInt : Run (Option Int32) := fun state =>
  let (value, console) := state.console.read
  .ok value { state with console := console }

def pushSlot : Run Nat := fun state =>
  let index := state.stack.size
  .ok index { state with stack := state.stack.push 0 }

def assign (frame : Frame) (register : IR.Register) (word : Word) : Run Frame :=
  if register < frame.registers.size then return frame.define register word else throw .panic

def checkBounds (ir : IR.Module) (function : IR.FunctionId) (id : IR.GlobalId) (offset : Int)
    (size : Nat) : Except Halt Nat :=
  if 0 ≤ offset ∧ offset < size then .ok offset.toNat
  else .error (.failed (.outOfBounds (ir.globalName id) offset (ir.functionName function)))

def load (ir : IR.Module) (function : IR.FunctionId) (pointer : Pointer) : Run Int32 := fun state =>
  match pointer with
  | .slot index =>
      match state.stack[index]? with
      | some value => .ok value state
      | none => .error (.failed (.invalidPointer (ir.functionName function))) state
  | .global id offset =>
      match state.globals[id]? with
      | none => .error .panic state
      | some cells =>
          match checkBounds ir function id offset cells.size with
          | .ok index => .ok (cells.get index) state
          | .error halt => .error halt state

def store (ir : IR.Module) (function : IR.FunctionId) (pointer : Pointer) (value : Int32) :
    Run Unit := fun state =>
  match pointer with
  | .slot index =>
      if index < state.stack.size then
        .ok () { state with stack := state.stack.setIfInBounds index value }
      else .error (.failed (.invalidPointer (ir.functionName function))) state
  | .global id offset =>
      match (state.globals[id]?.map (·.size)) with
      | none => .error .panic state
      | some size =>
          match checkBounds ir function id offset size with
          | .error halt => .error halt state
          | .ok index =>
              if ir.globals[id]?.any (·.constant) then
                .error (.failed (.writeToConstant (ir.globalName id) (ir.functionName function)))
                  state
              else
                .ok () { state with globals := state.globals.modify id (·.set index value) }

def text (word : Word) : Run String := fun state =>
  match word with
  | .pointer (.global id offset) =>
      match state.globals[id]? with
      | some cells => .ok (cells.text offset) state
      | none => .error .panic state
  | _ => .error (.failed (.invalidFormat .notText)) state

end Run

end MiniPascal.Machine
