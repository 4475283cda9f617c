import MiniPascal.Proofs.IR.WellFormed
import MiniPascal.Proofs.Machine.Pointers
import MiniPascal.Proofs.Machine.Sessions

/-!
# Runs without a panic

A run panics only if the module names something that it does not have.  If it names nothing of that
kind, every pointer that turns up on the machine is to a global that exists, every function stays in
blocks that exist, and it has the registers that their instructions define.
-/

namespace MiniPascal

namespace IR

/-- All that an instruction of a function names exists.  The block that it goes on in may be one of
another function, but not of one with more registers. -/
structure Instruction.IsClosed (ir : Module) (function : Function) (instruction : Instruction) :
    Prop where
  result : ∀ register, instruction.result? = some register → register < function.registers
  operands : ∀ id, Operand.global id ∈ instruction.operands → id < ir.globals.size
  targets : ∀ target ∈ instruction.targets, ∃ other, ir.functions[target.function]? = some other ∧
    target.index < other.blocks.size ∧ other.registers ≤ function.registers
  callee : ∀ result callee arguments, instruction = .call result callee arguments →
    callee < ir.functions.size

def Module.IsClosed (ir : Module) : Prop :=
  ∀ function ∈ ir.functions, ∀ block ∈ function.blocks, ∀ instruction ∈ block.instructions,
    instruction.IsClosed ir function

theorem Module.WellFormed.isClosed {ir : Module} (wellFormed : ir.WellFormed) : ir.IsClosed := by
  intro function isFunction block isBlock instruction isInstruction
  obtain ⟨id, isHere⟩ := Array.mem_iff_getElem?.1 isFunction
  obtain ⟨index, isAt⟩ := Array.mem_iff_getElem?.1 isBlock
  have hasBody : ¬ function.isDeclaration := by
    rw [Function.isDeclaration, Array.isEmpty_iff]
    rintro isEmpty
    simp [isEmpty] at isBlock
  obtain ⟨before, after, areInstructions⟩ := List.append_of_mem (Array.mem_toList_iff.2 isInstruction)
  have coherent := (wellFormed id function isHere hasBody).toCoherent
  have fits := coherent.instruction index block isAt before instruction after areInstructions
  constructor
  · intro register isResult
    have isDefined : register ∈ function.definedRegisters :=
      List.mem_flatMap.2 ⟨block, Array.mem_toList_iff.2 isBlock,
        List.mem_filterMap.2 ⟨instruction, Array.mem_toList_iff.2 isInstruction, isResult⟩⟩
    exact List.mem_range.1 (coherent.registers.mem_iff.1 isDefined)
  · exact fun global isOperand => fits.operands _ isOperand
  · intro target isTarget
    obtain ⟨rfl, -, inside⟩ := fits.targets target isTarget
    exact ⟨function, isHere, inside, Nat.le_refl _⟩
  · intro result callee arguments isCall
    obtain ⟨called, isCalled, -⟩ := fits.call result callee arguments isCall
    exact (Array.getElem?_eq_some_iff.1 isCalled).1

end IR

namespace Machine

variable {ir : IR.Module} {limits : Limits}

theorem Halt.failed_ne_panic (error : RunError) : Halt.failed error ≠ .panic := nofun

def Word.Exists (ir : IR.Module) (word : Word) : Prop :=
  ∀ id offset, word = .pointer (.global id offset) → id < ir.globals.size

theorem Word.exists_int (value : Int32) : (Word.int value).Exists ir := nofun

theorem Word.exists_slot (index : Nat) : (Word.pointer (.slot index)).Exists ir := nofun

/-! ### Steps -/

namespace Run

variable {α β : Type}

/-- A step does not panic; it leaves all globals of the module there, and what it gives is such a
result. -/
def GoesAt (ir : IR.Module) (action : Run α) (post : α → Prop) (state : State) : Prop :=
  match action state with
  | .ok value after => post value ∧ after.globals.size = ir.globals.size
  | .error halt after => halt ≠ .panic ∧ after.globals.size = ir.globals.size

def Goes (ir : IR.Module) (action : Run α) (post : α → Prop) : Prop :=
  ∀ state, state.globals.size = ir.globals.size → GoesAt ir action post state

variable {action : Run α} {post : α → Prop} {state after : State}

namespace Goes

theorem of_ok (goes : Goes ir action post) {value : α} (ran : action state = .ok value after)
    (whole : state.globals.size = ir.globals.size) :
    post value ∧ after.globals.size = ir.globals.size := by
  have := goes state whole
  rwa [GoesAt, ran] at this

theorem of_error (goes : Goes ir action post) {halt : Halt} (ran : action state = .error halt after)
    (whole : state.globals.size = ir.globals.size) :
    halt ≠ .panic ∧ after.globals.size = ir.globals.size := by
  have := goes state whole
  rwa [GoesAt, ran] at this

theorem pure {value : α} (isPost : post value) : Goes ir (pure value : Run α) post :=
  fun _ whole => ⟨isPost, whole⟩

theorem throw (error : RunError) : Goes ir (throw (.failed error) : Run α) post :=
  fun _ whole => ⟨Halt.failed_ne_panic _, whole⟩

theorem bind {next : α → Run β} {post' : β → Prop} (first : Goes ir action post)
    (others : ∀ value, post value → Goes ir (next value) post') : Goes ir (action >>= next) post' := by
  intro state whole
  cases ran : action state with
  | error halt after =>
      rw [GoesAt, bind_of_error next ran]
      exact first.of_error ran whole
  | ok value between =>
      obtain ⟨isPost, whole'⟩ := first.of_ok ran whole
      rw [GoesAt, bind_of_ok next ran]
      exact others value isPost between whole'

end Goes

theorem goes_ofExcept {value : Except Halt α} (noPanic : value ≠ .error .panic)
    (isPost : ∀ a, value = .ok a → post a) : Goes ir (ofExcept value) post := by
  cases value with
  | ok value => exact .pure (isPost value rfl)
  | error halt =>
      cases halt with
      | failed error => exact .throw error
      | panic => exact absurd rfl noPanic

/-! ### Memory and console -/

theorem goes_print (text : String) : Goes ir (print text) fun _ => True :=
  fun _ whole => ⟨trivial, whole⟩

theorem goes_readInt : Goes ir readInt fun _ => True := fun _ whole => ⟨trivial, whole⟩

theorem goes_pushSlot : Goes ir pushSlot fun _ => True := fun _ whole => ⟨trivial, whole⟩

variable {pointer : Pointer}

theorem cells_of_exists {id : IR.GlobalId} {offset : Int}
    (isThere : (Word.pointer (.global id offset)).Exists ir)
    (whole : state.globals.size = ir.globals.size) : ∃ cells, state.globals[id]? = some cells :=
  ⟨_, Array.getElem?_eq_getElem (whole ▸ isThere id offset rfl)⟩

theorem goes_load (function : IR.FunctionId) (isThere : (Word.pointer pointer).Exists ir) :
    Goes ir (load ir function pointer) fun _ => True := by
  intro state whole
  cases pointer with
  | slot index =>
      cases isSlot : state.stack[index]? <;> simp only [GoesAt, load, isSlot]
      · exact ⟨Halt.failed_ne_panic _, whole⟩
      · exact ⟨trivial, whole⟩
  | global id offset =>
      obtain ⟨cells, isCells⟩ := cells_of_exists isThere whole
      by_cases inside : 0 ≤ offset ∧ offset < cells.size
      · simp only [GoesAt, load, isCells, checkBounds, if_pos inside]
        exact ⟨trivial, whole⟩
      · rw [GoesAt, load_outside isCells inside]
        exact ⟨Halt.failed_ne_panic _, whole⟩

theorem goes_store (function : IR.FunctionId) (value : Int32)
    (isThere : (Word.pointer pointer).Exists ir) :
    Goes ir (store ir function pointer value) fun _ => True := by
  intro state whole
  cases pointer with
  | slot index =>
      by_cases inside : index < state.stack.size
      · simp only [GoesAt, store, if_pos inside]
        exact ⟨trivial, whole⟩
      · simp only [GoesAt, store, if_neg inside]
        exact ⟨Halt.failed_ne_panic _, whole⟩
  | global id offset =>
      obtain ⟨cells, isCells⟩ := cells_of_exists isThere whole
      by_cases inside : 0 ≤ offset ∧ offset < cells.size
      · simp only [GoesAt, store, isCells, Option.map_some, checkBounds, if_pos inside]
        by_cases isConstant : ir.globals[id]?.any (·.constant)
        · simp only [if_pos isConstant]
          exact ⟨Halt.failed_ne_panic _, whole⟩
        · simp only [if_neg isConstant]
          exact ⟨trivial, by simp only [Array.size_modify, whole]⟩
      · rw [GoesAt, store_outside isCells inside]
        exact ⟨Halt.failed_ne_panic _, whole⟩

theorem goes_text {word : Word} (isThere : word.Exists ir) : Goes ir (text word) fun _ => True := by
  intro state whole
  match word with
  | .int _ | .pointer (.slot _) => exact ⟨Halt.failed_ne_panic _, whole⟩
  | .pointer (.global id offset) =>
      obtain ⟨cells, isCells⟩ := cells_of_exists isThere whole
      simp only [GoesAt, text, isCells]
      exact ⟨trivial, whole⟩

/-! ### Functions outside of the module -/

theorem goes_convert (conversion : Conversion) {argument : Word} (isThere : argument.Exists ir) :
    Goes ir (convert conversion argument) fun _ => True := by
  cases conversion <;> cases argument
  case integer.int value => exact .pure trivial
  case text.pointer pointer => exact goes_text isThere
  all_goals exact .throw _

theorem goes_format (chars : List Char) {arguments : List Word}
    (areThere : ∀ argument ∈ arguments, argument.Exists ir) :
    Goes ir (format chars arguments) fun _ => True := by
  fun_induction format chars arguments with
  | case1 => exact .pure trivial
  | case2 char rest arguments notPercent ih => exact (ih areThere).bind fun _ _ => .pure trivial
  | case3 | case5 | case6 => exact .throw _
  | case4 char arguments _ rest ih => exact (ih areThere).bind fun _ _ => .pure trivial
  | case7 char _ letter rest _ conversion argument arguments _ ih =>
      obtain ⟨isThere, areThere⟩ := List.forall_mem_cons.1 areThere
      exact (goes_convert conversion isThere).bind fun _ _ =>
        (ih areThere).bind fun _ _ => .pure trivial

theorem goes_scan (function : IR.FunctionId) (done : Int32) {arguments : List Word}
    (areThere : ∀ argument ∈ arguments, argument.Exists ir) :
    Goes ir (scan ir function done arguments) (Word.Exists ir) := by
  induction arguments generalizing done with
  | nil => exact .pure (Word.exists_int _)
  | cons argument arguments ih =>
      obtain ⟨isThere, othersThere⟩ := List.forall_mem_cons.1 areThere
      cases argument with
      | int value => exact .throw _
      | pointer pointer =>
          refine goes_readInt.bind fun value? _ => ?_
          cases value? with
          | none => exact .pure (Word.exists_int _)
          | some value => exact (goes_store function value isThere).bind fun _ _ => ih _ othersThere

theorem goes_callExternal (function : IR.FunctionId) {arguments : List Word}
    (areThere : ∀ argument ∈ arguments, argument.Exists ir) :
    Goes ir (callExternal ir function arguments) (Word.Exists ir) := by
  cases arguments with
  | nil => exact .throw _
  | cons first others =>
      obtain ⟨isThere, areThere⟩ := List.forall_mem_cons.1 areThere
      refine (goes_text isThere).bind fun text _ => ?_
      simp only
      split
      · exact (goes_format _ areThere).bind fun _ _ => (goes_print _).bind fun _ _ =>
          .pure (Word.exists_int _)
      · split
        · exact goes_scan _ _ fun argument isTaken => areThere argument (List.mem_of_mem_take isTaken)
        · exact .throw _

end Run

/-! ### Functions -/

/-- The function is in a block that exists, it has the registers that this block defines, and what it
holds exists. -/
structure Frame.Stands (ir : IR.Module) (frame : Frame) : Prop where
  block : ∃ function, ir.functions[frame.block.function]? = some function ∧
    frame.block.index < function.blocks.size ∧ function.registers ≤ frame.registers.size
  registers : ∀ (register : IR.Register) (word : Word),
    frame.registers[register]? = some (some word) → word.Exists ir
  arguments : ∀ word ∈ frame.arguments, word.Exists ir

namespace Frame

variable {frame : Frame}

theorem Stands.fetch (closed : ir.IsClosed) (stands : frame.Stands ir) :
    frame.fetch ir ≠ .error .panic ∧ ∀ instruction, frame.fetch ir = .ok instruction →
      ∃ function, function.registers ≤ frame.registers.size ∧ instruction.IsClosed ir function := by
  obtain ⟨function, isFunction, inside, enough⟩ := stands.block
  have isBlock : ir.block? frame.block = some function.blocks[frame.block.index] := by
    simp [IR.Module.block?, isFunction, inside]
  simp only [Frame.fetch, isBlock]
  cases isNext : function.blocks[frame.block.index].instructions[frame.next]? with
  | none => exact ⟨nofun, nofun⟩
  | some instruction =>
      refine ⟨nofun, ?_⟩
      rintro _ ⟨⟩
      exact ⟨function, enough, closed function (Array.mem_of_getElem? isFunction) _
        (Array.getElem_mem inside) instruction (Array.mem_of_getElem? isNext)⟩

theorem Stands.define (stands : frame.Stands ir) (register : IR.Register) {word : Word}
    (isThere : word.Exists ir) : (frame.define register word).advance.Stands ir where
  block := by simpa [Frame.define, advance] using stands.block
  registers other held isHeld := by
    simp only [Frame.define, advance, Array.getElem?_setIfInBounds] at isHeld
    split at isHeld
    · split at isHeld
      · cases isHeld
        exact isThere
      · cases isHeld
    · exact stands.registers other held isHeld
  arguments := stands.arguments

theorem Stands.advance (stands : frame.Stands ir) : frame.advance.Stands ir :=
  ⟨stands.block, stands.registers, stands.arguments⟩

/-! ### Operands -/

variable {operand : IR.Operand}

theorem word_ne_panic (frame : Frame) (operand : IR.Operand) :
    frame.word ir operand ≠ .error .panic := by
  unfold word
  split
  case h_3 | h_4 => split <;> nofun
  all_goals nofun

theorem int_ne_panic (frame : Frame) (operand : IR.Operand) :
    frame.int ir operand ≠ .error .panic := by
  unfold int
  split
  · nofun
  · nofun
  · rename_i isError
    rintro ⟨⟩
    exact word_ne_panic frame operand isError

theorem pointer_ne_panic (frame : Frame) (operand : IR.Operand) :
    frame.pointer ir operand ≠ .error .panic := by
  unfold Frame.pointer
  split
  · nofun
  · nofun
  · rename_i isError
    rintro ⟨⟩
    exact word_ne_panic frame operand isError

theorem Stands.word (stands : frame.Stands ir)
    (isThere : ∀ id, operand = .global id → id < ir.globals.size) {word : Word}
    (isWord : frame.word ir operand = .ok word) : word.Exists ir := by
  cases operand with
  | int _ | bool _ =>
      cases isWord
      exact Word.exists_int _
  | register register =>
      simp only [Frame.word] at isWord
      split at isWord <;> cases isWord
      exact stands.registers register _ (by assumption)
  | argument index =>
      simp only [Frame.word] at isWord
      split at isWord <;> cases isWord
      exact stands.arguments _ (Array.mem_of_getElem? (by assumption))
  | global id =>
      cases isWord
      rintro _ _ ⟨⟩
      exact isThere id rfl

theorem Stands.pointer (stands : frame.Stands ir)
    (isThere : ∀ id, operand = .global id → id < ir.globals.size) {pointer : Pointer}
    (isPointer : frame.pointer ir operand = .ok pointer) : (Word.pointer pointer).Exists ir :=
  stands.word isThere (pointer_eq_ok.1 isPointer)

theorem words_ne_panic (frame : Frame) (operands : List IR.Operand) :
    operands.mapM (frame.word ir) ≠ .error .panic := by
  intro fails
  obtain ⟨operand, -, isError⟩ := exists_of_mapM_eq_error fails
  exact word_ne_panic frame operand isError

theorem Stands.words (stands : frame.Stands ir) {operands : List IR.Operand}
    (areThere : ∀ id, .global id ∈ operands → id < ir.globals.size) {words : List Word}
    (areWords : operands.mapM (frame.word ir) = .ok words) : ∀ word ∈ words, word.Exists ir := by
  rw [mapM_eq_ok_iff] at areWords
  induction areWords with
  | nil => nofun
  | cons isWord _ ih =>
      have isThere := stands.word (fun id isGlobal => areThere id (isGlobal ▸ .head _)) isWord
      exact List.forall_mem_cons.2 ⟨isThere, ih fun id isOther => areThere id (.tail _ isOther)⟩

end Frame

namespace Run

variable {frame : Frame} {instruction : IR.Instruction} {function : IR.Function}

theorem goes_proceed (stands : frame.Stands ir) {result : IR.Register}
    (inside : result < frame.registers.size) {word : Word} (isThere : word.Exists ir) :
    Goes ir (proceed frame result word) fun flow => ∃ later, flow = .next later ∧ later.Stands ir := by
  rw [proceed_inside inside]
  exact .pure ⟨_, rfl, stands.define result isThere⟩

theorem goes_int (frame : Frame) (operand : IR.Operand) :
    Goes ir (ofExcept (frame.int ir operand)) fun _ => True :=
  goes_ofExcept (Frame.int_ne_panic frame operand) fun _ _ => trivial

theorem goes_pointer (stands : frame.Stands ir) {operand : IR.Operand}
    (isThere : ∀ id, operand = .global id → id < ir.globals.size) :
    Goes ir (ofExcept (frame.pointer ir operand)) fun pointer => (Word.pointer pointer).Exists ir :=
  goes_ofExcept (Frame.pointer_ne_panic frame operand) fun _ isPointer =>
    stands.pointer isThere isPointer

theorem goes_execute (isPlain : instruction.isPlain) (closed : instruction.IsClosed ir function)
    (enough : function.registers ≤ frame.registers.size) (stands : frame.Stands ir) :
    Goes ir (execute ir limits frame instruction) fun flow =>
      ∃ later, flow = .next later ∧ later.Stands ir := by
  have room {result : IR.Register} (isResult : instruction.result? = some result) :
      result < frame.registers.size := Nat.lt_of_lt_of_le (closed.result result isResult) enough
  have there {operand : IR.Operand} (isOperand : operand ∈ instruction.operands) :
      ∀ id, operand = .global id → id < ir.globals.size :=
    fun id isGlobal => closed.operands id (isGlobal ▸ isOperand)
  have jumps {target : IR.BlockId} (isTarget : target ∈ instruction.targets) :
      (frame.jump target).Stands ir := by
    obtain ⟨other, isOther, inside, fewer⟩ := closed.targets target isTarget
    exact ⟨⟨other, isOther, inside, Nat.le_trans fewer enough⟩, stands.registers, stands.arguments⟩
  cases instruction with
  | call _ _ _ | ret _ => cases isPlain
  | arith result op left right =>
      refine (goes_int frame left).bind fun x _ => (goes_int frame right).bind fun y _ => ?_
      cases op.evaluate? x y with
      | some value => exact goes_proceed stands (room rfl) (Word.exists_int value)
      | none => exact .throw _
  | compare result predicate left right =>
      exact (goes_int frame left).bind fun x _ => (goes_int frame right).bind fun y _ =>
        goes_proceed stands (room rfl) (Word.exists_int _)
  | alloca result name =>
      exact goes_pushSlot.bind fun index _ => goes_proceed stands (room rfl) (Word.exists_slot index)
  | load result pointer =>
      exact (goes_pointer stands (there (.head _))).bind fun pointer isThere =>
        (goes_load frame.function isThere).bind fun value _ =>
          goes_proceed stands (room rfl) (Word.exists_int value)
  | store value pointer =>
      exact (goes_int frame value).bind fun value _ =>
        (goes_pointer stands (there (.tail _ (.head _)))).bind fun pointer isThere =>
          (goes_store frame.function value isThere).bind fun _ _ => .pure ⟨_, rfl, stands.advance⟩
  | element result base index =>
      refine (goes_int frame index).bind fun index _ =>
        (goes_pointer stands (there (.head _))).bind fun pointer isThere => ?_
      cases pointer with
      | slot _ => exact .throw _
      | global id offset =>
          have isThere : (Word.pointer (.global id (offset + index.toInt))).Exists ir := by
            rintro _ _ ⟨⟩
            exact isThere id offset rfl
          exact goes_proceed stands (room rfl) isThere
  | jump target => exact .pure ⟨_, rfl, jumps (.head _)⟩
  | branch condition holds fails =>
      refine (goes_int frame condition).bind fun value _ => .pure ⟨_, rfl, ?_⟩
      split
      · exact jumps (.head _)
      · exact jumps (.tail _ (.head _))

end Run

/-! ### Whole runs -/

def Task.Stands (ir : IR.Module) : Task → Prop
  | call callee arguments _ => callee < ir.functions.size ∧ ∀ word ∈ arguments, word.Exists ir
  | body frame => frame.Stands ir

structure Nested.Returned (ir : IR.Module) (last : Nested) (outcome : Except Halt (Option Word)) :
    Prop where
  whole : last.state.globals.size = ir.globals.size
  noPanic : outcome ≠ .error .panic
  word : ∀ word, outcome = .ok (some word) → word.Exists ir

theorem Run.stands_entryFrame {callee : IR.FunctionId} {function : IR.Function}
    {arguments : List Word} (isFunction : ir.functions[callee]? = some function)
    (hasBody : function.isDeclaration = false) (areThere : ∀ word ∈ arguments, word.Exists ir)
    (base depth : Nat) (result : Option IR.Register) :
    (entryFrame function callee arguments base depth result).Stands ir := by
  have notEmpty : 0 < function.blocks.size := by
    simpa [IR.Function.isDeclaration, Array.size_pos_iff] using hasBody
  refine ⟨⟨function, isFunction, notEmpty, by simp [entryFrame]⟩, fun register word isHeld => ?_, ?_⟩
  · simp [entryFrame, Array.getElem?_replicate] at isHeld
  · simpa [entryFrame] using areThere

theorem Frame.Stands.returned {frame : Frame} (stands : frame.Stands ir) {operand : Option IR.Operand}
    (isThere : ∀ id, .global id ∈ operand.toList → id < ir.globals.size) {last : Nested}
    (whole : last.state.globals.size = ir.globals.size) :
    last.Returned ir (frame.returned ir operand) := by
  refine ⟨whole, ?_, ?_⟩
  · cases operand with
    | none => nofun
    | some operand =>
        cases isWord : frame.word ir operand with
        | ok word => simp [Frame.returned, isWord, Except.map]
        | error halt =>
            simp only [Frame.returned, isWord, Except.map]
            rintro ⟨⟩
            exact word_ne_panic frame operand isWord
  · intro word isReturned
    cases operand with
    | none => cases isReturned
    | some operand =>
        cases isWord : frame.word ir operand with
        | error halt => simp [Frame.returned, isWord, Except.map] at isReturned
        | ok other =>
            simp only [Frame.returned, isWord, Except.map] at isReturned
            cases isReturned
            exact stands.word (fun id isGlobal => isThere id (by simp [isGlobal])) isWord

section
variable {frame later : Frame} {result : Option IR.Register} {callee : IR.FunctionId}
  {between : Nested} {given : Except Halt (Option Word)}

theorem Frame.Stands.resume (stands : frame.Stands ir) (returned : between.Returned ir given)
    (resumed : given.bind (frame.resume ir callee result) = .ok later) : later.Stands ir := by
  cases given with
  | error halt => cases resumed
  | ok value =>
      have resumed : frame.resume ir callee result value = .ok later := resumed
      unfold Frame.resume at resumed
      split at resumed
      · cases resumed
        exact stands.advance
      · split at resumed <;> cases resumed
        exact stands.define _ (returned.word _ rfl)
      · cases resumed

theorem Frame.resume_ne_panic (returned : between.Returned ir given)
    (inside : ∀ register, result = some register → register < frame.registers.size) :
    given.bind (frame.resume ir callee result) ≠ .error .panic := by
  cases given with
  | error halt =>
      rintro ⟨⟩
      exact returned.noPanic rfl
  | ok value =>
      change frame.resume ir callee result value ≠ .error .panic
      unfold Frame.resume
      split
      · nofun
      · rw [if_pos (inside _ rfl)]
        nofun
      · nofun

end

theorem Task.Runs.returned {task : Task} {machine last : Nested}
    {outcome : Except Halt (Option Word)} {effects : Nat}
    (runs : task.Runs ir limits machine outcome effects last) (closed : ir.IsClosed)
    (stands : task.Stands ir) (whole : machine.state.globals.size = ir.globals.size) :
    last.Returned ir outcome := by
  induction runs with
  | unknown noFunction =>
      exact absurd stands.1 (Nat.not_lt_of_le (Array.getElem?_eq_none_iff.1 noFunction))
  | external _ _ called =>
      obtain ⟨isThere, whole⟩ := (Run.goes_callExternal _ stands.2).of_ok called whole
      refine ⟨whole, nofun, ?_⟩
      rintro _ ⟨⟩
      exact isThere
  | externalFails _ _ called =>
      obtain ⟨noPanic, whole⟩ := (Run.goes_callExternal _ stands.2).of_error called whole
      exact ⟨whole, fun isPanic => noPanic (Except.error.inj isPanic), nofun⟩
  | tooDeep | outOfSteps => exact ⟨whole, nofun, nofun⟩
  | enters isFunction hasBody _ _ ih =>
      have body := ih (Run.stands_entryFrame isFunction hasBody stands.2 _ _ _) whole
      exact ⟨body.whole, body.noPanic, body.word⟩
  | unfinished notFetched =>
      refine ⟨whole, ?_, nofun⟩
      rintro ⟨⟩
      exact (stands.fetch closed).1 notFetched
  | goesOn fetched _ isPlain executed _ ih =>
      obtain ⟨function, enough, isClosed⟩ := (stands.fetch closed).2 _ fetched
      obtain ⟨⟨_, ⟨⟩, laterStands⟩, whole⟩ :=
        (Run.goes_execute isPlain isClosed enough stands).of_ok executed whole
      exact ih laterStands whole
  | fails fetched _ isPlain executed =>
      obtain ⟨function, enough, isClosed⟩ := (stands.fetch closed).2 _ fetched
      obtain ⟨noPanic, whole⟩ :=
        (Run.goes_execute isPlain isClosed enough stands).of_error executed whole
      exact ⟨whole, fun isPanic => noPanic (Except.error.inj isPanic), nofun⟩
  | returns fetched _ =>
      obtain ⟨function, -, isClosed⟩ := (stands.fetch closed).2 _ fetched
      exact stands.returned isClosed.operands whole
  | notCalled fetched _ noArguments =>
      refine ⟨whole, ?_, nofun⟩
      rintro ⟨⟩
      exact Frame.words_ne_panic _ _ noArguments
  | calls fetched _ areArguments _ resumed _ ihCall ihOthers =>
      obtain ⟨function, enough, isClosed⟩ := (stands.fetch closed).2 _ fetched
      have areThere := stands.words isClosed.operands areArguments
      have given := ihCall ⟨isClosed.callee _ _ _ rfl, areThere⟩ whole
      exact ihOthers (stands.resume given resumed) given.whole
  | callFails fetched _ areArguments _ notResumed ihCall =>
      obtain ⟨function, enough, isClosed⟩ := (stands.fetch closed).2 _ fetched
      have areThere := stands.words isClosed.operands areArguments
      have given := ihCall ⟨isClosed.callee _ _ _ rfl, areThere⟩ whole
      have inside register (isResult : _ = some register) :=
        Nat.lt_of_lt_of_le (isClosed.result register isResult) enough
      refine ⟨given.whole, ?_, nofun⟩
      rintro ⟨⟩
      exact Frame.resume_ne_panic given inside notResumed

section
variable {machine last : Nested} (closed : ir.IsClosed)
include closed

theorem Call.Runs.returns {call : Call} (runs : call.Runs ir limits machine last)
    (whole : machine.state.globals.size = ir.globals.size) :
    call.result ≠ .error .panic ∧ last.state.globals.size = ir.globals.size := by
  cases runs with
  | noEntry => exact ⟨nofun, whole⟩
  | @ran name id _ _ outcome _ isNamed runs =>
      have isThere : id < ir.functions.size := (Array.findIdx?_eq_some_iff_getElem.1 isNamed).1
      obtain ⟨whole, noPanic, -⟩ := runs.returned closed ⟨isThere, nofun⟩ whole
      refine ⟨?_, whole⟩
      rcases outcome with halt | _ | _ | _
      · exact fun isPanic => noPanic (congrArg Except.error (Except.error.inj isPanic))
      all_goals nofun

theorem Calls.return {names : List String} {calls : List Call}
    (runs : Calls ir limits machine names calls last)
    (whole : machine.state.globals.size = ir.globals.size) :
    calls.map (·.name) = names ∧ (∀ call ∈ calls, call.result ≠ .error .panic) ∧
      last.state.globals.size = ir.globals.size := by
  induction runs with
  | nil => exact ⟨rfl, nofun, whole⟩
  | cons first returns _ ih =>
      obtain ⟨names, others, whole⟩ := ih (first.returns closed whole).2
      exact ⟨congrArg _ names, List.forall_mem_cons.2 ⟨returns, others⟩, whole⟩
  | panics _ first isPanic => exact absurd isPanic (first.returns closed whole).1

end

/-- A jump to a block that does not exist. -/
example :
    let ir : IR.Module := ⟨"m", #[⟨"main", 0, false, false, #[⟨"body", #[.jump ⟨0, 1⟩]⟩], 0⟩], #[]⟩
    ((State.start ir (.withInput [])).runFunctions ir ⟨9, 1⟩ ["main", "main"]).1 =
      [.error .panic] := by
  decide +kernel

end Machine

end MiniPascal
