import MiniPascal.Proofs.Lowering.Control
import MiniPascal.Proofs.Machine.Instructions
import MiniPascal.Proofs.Simulation.Memory

/-!
# Bodies while they run

`Context.Here` says that the machine stands where the translation of a body has got to: at the end of
the code so far, with the variables of the evaluation in its slots.  The names of the translation
mean what the names of the evaluation mean.
-/

namespace MiniPascal

open Evaluation (Memory Place Names Scope Meaning)
open IR (BlockId Operand Instruction)
open Machine (Config Frame Limits State Word Pointer)

/-! ### Names -/

def Plan.Addresses (plan : Plan) (slots : List Place) : Place → Operand → Prop
  | .global name, .global id => plan.owner id = some (.scalar name)
  | .local name, .register slot => slots[slot]? = some (.local name)
  | .result, .register slot => slots[slot]? = some .result
  | _, _ => False

/-- What the symbol table says of a name is what the name means. -/
def Plan.Means (plan : Plan) (slots : List Place) (name : String) (entry : Entry) : Meaning → Prop
  | .constant value =>
      entry.shape = .integer ∧ entry.constant = some value ∧
        ∃ id global, entry.storage = .address (.global id) ∧
          plan.ir.globals[id]? = some global ∧ global.content = .int value ∧ global.constant = true
  | .scalar place =>
      entry.shape = .integer ∧ entry.constant = none ∧
        ∃ pointer, entry.storage = .address pointer ∧ plan.Addresses slots place pointer
  | .array array low high =>
      entry.shape = .array low high ∧ entry.constant = none ∧
        ∃ id global, entry.storage = .address (.global id) ∧
          plan.owner id = some (.array array) ∧ plan.ir.globals[id]? = some global ∧
          global.content = .array (Evaluation.elements low high)
  | .callable heading body =>
      heading.name = name ∧ entry.shape = heading.shape ∧ entry.constant = none ∧
        Builtin.ofName? name = none ∧ ∃ id, entry.storage = .function id ∧ plan.code id heading body
  | .builtin builtin =>
      builtin.name = name ∧ entry.shape = .callable builtin.parameterCount builtin.returnsValue ∧
        entry.constant = none ∧ entry.storage = .builtin builtin

namespace Plan.Means

variable {plan : Plan} {slots : List Place} {name : String} {entry : Entry} {meaning : Meaning}

theorem of_integer (means : plan.Means slots name entry meaning) (isShape : entry.shape = .integer) :
    (∃ value, meaning = .constant value) ∨ ∃ place, meaning = .scalar place := by
  cases meaning with
  | constant value => exact .inl ⟨value, rfl⟩
  | scalar place => exact .inr ⟨place, rfl⟩
  | array array low high => cases isShape.symm.trans means.1
  | callable heading body | builtin builtin => cases isShape.symm.trans means.2.1

theorem of_array {low high : Int32} (means : plan.Means slots name entry meaning)
    (isShape : entry.shape = .array low high) : ∃ array, meaning = .array array low high := by
  cases meaning with
  | array array low' high' =>
      obtain ⟨rfl, rfl⟩ := Shape.array.inj (isShape.symm.trans means.1)
      exact ⟨array, rfl⟩
  | constant value | scalar place => cases isShape.symm.trans means.1
  | callable heading body | builtin builtin => cases isShape.symm.trans means.2.1

theorem of_callable {parameters : Nat} {returnsValue : Bool}
    (means : plan.Means slots name entry meaning)
    (isShape : entry.shape = .callable parameters returnsValue) :
    (∃ heading body, meaning = .callable heading body) ∨ ∃ builtin, meaning = .builtin builtin := by
  cases meaning with
  | callable heading body => exact .inl ⟨heading, body, rfl⟩
  | builtin builtin => exact .inr ⟨builtin, rfl⟩
  | constant value | scalar place | array array low high => cases isShape.symm.trans means.1

theorem of_register {slot : IR.Register} (means : plan.Means slots name entry meaning)
    (isStorage : entry.storage = .address (.register slot)) :
    ∃ place, meaning = .scalar place ∧ plan.Addresses slots place (.register slot) := by
  cases meaning with
  | scalar place =>
      obtain ⟨-, -, pointer, isAddress, addresses⟩ := means
      obtain rfl : .register slot = pointer := Storage.address.inj (isStorage.symm.trans isAddress)
      exact ⟨place, rfl, addresses⟩
  | constant value | array array low high =>
      obtain ⟨-, -, id, global, isAddress, -⟩ := means
      cases isStorage.symm.trans isAddress
  | callable heading body =>
      obtain ⟨-, -, -, -, id, isFunction, -⟩ := means
      cases isStorage.symm.trans isFunction
  | builtin builtin => cases isStorage.symm.trans means.2.2.2

end Plan.Means

structure Context where
  plan : Plan
  symbols : SymbolTable
  support : Support
  scope : Scope
  /-- The variables of the body, each with a slot of the stack. -/
  slots : List Place

def IR.Module.IsExternal (ir : IR.Module) (id : IR.FunctionId) (name : String) : Prop :=
  ∃ function, ir.functions[id]? = some function ∧ function.name = name ∧
    function.isDeclaration = true

def IR.Module.IsText (ir : IR.Module) (operand : Operand) (text : String) : Prop :=
  ∃ id global, operand = .global id ∧ ir.globals[id]? = some global ∧ global.content = .bytes text ∧
    global.constant = true

structure Support.Fair (ir : IR.Module) (support : Support) : Prop where
  printf : ir.IsExternal support.printf "printf"
  scanf : ir.IsExternal support.scanf "scanf"
  writelnFormat : ir.IsText support.writelnFormat "%d\n"
  readlnFormat : ir.IsText support.readlnFormat "%d"
  writeFormat : ir.IsText support.writeFormat "%s"

structure Context.Fair (context : Context) : Prop where
  plan : context.plan.Fair
  support : context.support.Fair context.plan.ir
  nodup : context.slots.Nodup
  names : ∀ name entry, context.symbols.get? name = some entry →
    ∃ meaning, context.scope.find? name = some meaning ∧
      context.plan.Means context.slots name entry meaning
  /-- The name of a result is not used for anything else. -/
  results : ∀ callable entry, context.symbols.get? (resultName callable) = some entry →
    context.scope.find? (resultName callable) = some (.scalar .result) ∧
      (∃ own, context.scope.callable = some own ∧ own.name = callable ∧ own.returns.isSome) ∧
      ∀ builtin, context.scope.find? callable ≠ some (.builtin builtin)
  enclosing : ∃ id own entry, context.symbols.enclosing = some ⟨id, own.name⟩ ∧
    context.scope.callable = some own ∧ context.symbols.getOuter? own.name = some entry ∧
    entry.shape = own.shape
  bodies : ∀ id heading body, context.plan.code id heading body →
    ∃ function, context.plan.ir.functions[id]? = some function ∧ function.isDeclaration = false

theorem Context.Fair.meansResult {context : Context} (fair : context.Fair) {callable : String}
    {entry : Entry} (isEntry : context.symbols.get? (resultName callable) = some entry) :
    context.plan.Means context.slots (resultName callable) entry (.scalar .result) := by
  obtain ⟨isMeaning, -, -⟩ := fair.results callable entry isEntry
  obtain ⟨meaning, isOther, means⟩ := fair.names _ entry isEntry
  obtain rfl := Option.some.inj (isOther.symm.trans isMeaning)
  exact means

/-! ### Positions -/

/-- The frame has reached the end of the code so far of a block. -/
structure Lowering.At (state : Lowering) (here : BlockId) (frame : Frame) : Prop where
  block : frame.block = here
  next : frame.next = (state.builder.ir.code here).length

structure Activation.Owns (activation : Activation) (registers slots : Nat) (frame : Frame) :
    Prop where
  base : frame.base = activation.below.length
  depth : frame.depth = activation.depth
  result : frame.result = activation.result
  size : frame.registers.size = registers
  slots : ∀ slot < slots,
    frame.registers[slot]? = some (some (.pointer (.slot (activation.below.length + slot))))

/-- The machine stands where the translation has got to. -/
structure Context.Here (context : Context) (activation : Activation) (state : Lowering)
    (here : BlockId) (memory : Memory) (config : Config) : Prop where
  isAt : state.At here config.frame
  owns : activation.Owns (context.plan.ir.registers here.function) context.slots.length config.frame
  room : context.slots.length ≤ state.builder.ir.registers here.function
  holds : context.plan.Holds activation context.slots memory config.state

structure Context.Enters (context : Context) (activation : Activation) (here : BlockId)
    (memory : Memory) (config : Config) : Prop where
  block : config.frame.block = here
  next : config.frame.next = 0
  owns : activation.Owns (context.plan.ir.registers here.function) context.slots.length config.frame
  holds : context.plan.Holds activation context.slots memory config.state

theorem Activation.Owns.keeps {activation : Activation} {registers slots bound : Nat}
    {frame later : Frame} (owns : activation.Owns registers slots frame)
    (keeps : frame.Keeps bound later) (room : slots ≤ bound) :
    activation.Owns registers slots later where
  base := keeps.base.trans owns.base
  depth := keeps.depth.trans owns.depth
  result := keeps.result.trans owns.result
  size := keeps.size.trans owns.size
  slots slot isSlot :=
    (keeps.registers slot (Nat.lt_of_lt_of_le isSlot room)).trans (owns.slots slot isSlot)

def IR.Operand.Below (bound : Nat) : Operand → Prop
  | .register number => number < bound
  | _ => True

theorem IR.Operand.Below.mono {operand : Operand} {few many : Nat} (below : operand.Below few)
    (le : few ≤ many) : operand.Below many := by
  cases operand with
  | register register => exact Nat.lt_of_lt_of_le below le
  | _ => trivial

namespace Machine.Frame

structure Reads (ir : IR.Module) (frame : Frame) (bound : Nat) (operand : Operand) (word : Word) :
    Prop where
  word : frame.word ir operand = .ok word
  below : operand.Below bound

variable {ir : IR.Module} {frame later : Frame} {bound : Nat} {operand : Operand} {word : Word}

theorem Reads.keeps (reads : frame.Reads ir bound operand word) (keeps : frame.Keeps bound later)
    {more : Nat} (le : bound ≤ more) : later.Reads ir more operand word := by
  refine ⟨?_, reads.below.mono le⟩
  rw [← reads.word]
  cases operand with
  | register register =>
      have isRead := reads.word
      have same := keeps.registers register reads.below
      cases isRegister : frame.registers[register]? with
      | none => simp [Frame.word, isRegister] at isRead
      | some value =>
          cases value with
          | none => simp [Frame.word, isRegister] at isRead
          | some word => simp only [Frame.word, same, isRegister]
  | argument index =>
      have isRead := reads.word
      cases isArgument : frame.arguments[index]? with
      | none => simp [Frame.word, isArgument] at isRead
      | some value => simp only [Frame.word, keeps.arguments, isArgument]
  | _ => rfl

theorem Reads.int {value : Int32} (reads : frame.Reads ir bound operand (.int value)) :
    frame.int ir operand = .ok value := int_eq_ok.2 reads.word

theorem Reads.pointer {pointer : Pointer} (reads : frame.Reads ir bound operand (.pointer pointer)) :
    frame.pointer ir operand = .ok pointer := pointer_eq_ok.2 reads.word

end Machine.Frame

/-! ### Steps of building -/

namespace Lowering

variable {state state' : Lowering} {here : BlockId} {pending : List Nat} {instruction : Instruction}
  {count : Nat}

structure Emits (state : Lowering) (here : BlockId) (instruction : Instruction) (count : Nat)
    (state' : Lowering) : Prop where
  code : state'.builder.ir.code here = state.builder.ir.code here ++ [instruction]
  registers : state'.builder.ir.registers here.function =
    state.builder.ir.registers here.function + count

theorem Ready.emits (ready : state.Ready here pending) (instruction : Instruction) :
    Ensures (Lower.build (IR.Build.emit instruction))
      (fun _ state' => state.Emits here instruction 0 state') state := by
  obtain ⟨function, isFunction, -⟩ := ready.function
  obtain ⟨block, isBlock, isOpen⟩ := ready.block isFunction
  rw [Lower.ensures_build, IR.Build.emit_eq _ ready.insertPoint]
  exact ⟨IR.Builder.code_push isFunction isBlock isOpen _ _, IR.Builder.registers_push isFunction _ _⟩

theorem Ready.emitsValue (ready : state.Ready here pending)
    (instruction : IR.Register → Instruction) :
    Ensures (Lower.build (IR.Build.emitValue instruction)) (fun operand state' =>
      operand = .register (state.builder.ir.registers here.function) ∧
        state.Emits here (instruction (state.builder.ir.registers here.function)) 1 state') state := by
  obtain ⟨function, isFunction, -⟩ := ready.function
  obtain ⟨block, isBlock, isOpen⟩ := ready.block isFunction
  rw [Lower.ensures_build, IR.Build.emitValue_eq _ ready.insertPoint isFunction,
    IR.Module.registers_of_function isFunction]
  refine ⟨rfl, IR.Builder.code_push isFunction isBlock isOpen _ _, ?_⟩
  exact IR.Builder.registers_push isFunction _ _

theorem fetch_of_code {ir : IR.Module} {frame : Frame}
    (isNext : (ir.code frame.block)[frame.next]? = some instruction) :
    frame.fetch ir = .ok instruction := by
  unfold IR.Module.code at isNext
  unfold Frame.fetch
  cases isBlock : ir.block? frame.block with
  | none => simp [isBlock] at isNext
  | some block =>
      simp only [isBlock, Array.getElem?_toList] at isNext
      simp only [isNext]

variable {ir : IR.Module} {frame : Frame}

theorem Emits.fetch (emits : state.Emits here instruction count state')
    (part : state'.builder.ir.Part here.function ir) (isAt : state.At here frame) :
    frame.fetch ir = .ok instruction := by
  refine fetch_of_code ?_
  obtain ⟨others, isWhole⟩ := part.code here.index
  rw [isAt.block, isAt.next, ← isWhole, emits.code, List.append_assoc,
    List.getElem?_append_right (Nat.le_refl _), Nat.sub_self]
  rfl

theorem Emits.isAt (emits : state.Emits here instruction count state') {later : Frame}
    (isAt : state.At here frame) (block : later.block = frame.block)
    (next : later.next = frame.next + 1) : state'.At here later := by
  refine ⟨block.trans isAt.block, ?_⟩
  rw [next, isAt.next, emits.code, List.length_append, List.length_singleton]

theorem Straight.part (straight : state.Straight state')
    (isHere : state.builder.insertPoint = some here)
    (part : state'.builder.ir.Part here.function ir) : state.builder.ir.Part here.function ir :=
  (straight.grows here isHere).part.trans part

theorem Straight.registers (straight : state.Straight state')
    (isHere : state.builder.insertPoint = some here) :
    state.builder.ir.registers here.function ≤ state'.builder.ir.registers here.function :=
  (straight.grows here isHere).part.registers

theorem Moves.part {next : Nat} {there : BlockId} (moves : state.Moves there next state')
    (same : there.function = here.function) (part : state'.builder.ir.Part here.function ir) :
    state.builder.ir.Part here.function ir := by
  rw [← same] at part ⊢
  exact moves.grows.part.trans part

theorem IsEmpty.code {target : BlockId} (isEmpty : state.IsEmpty target) :
    state.builder.ir.code target = [] := by
  obtain ⟨function, block, isFunction, isBlock, noInstruction⟩ := isEmpty
  rw [IR.Module.code_of_block target isFunction isBlock, noInstruction]

end Lowering

end MiniPascal
