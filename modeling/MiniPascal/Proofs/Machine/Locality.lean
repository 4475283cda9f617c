import MiniPascal.Proofs.Ensures
import MiniPascal.Proofs.Machine.Alike
import MiniPascal.Proofs.Machine.Instructions

/-!
# What a function does by itself

Most steps of a run concern the innermost function only.  They count nothing, leave the stack at its
height, and see neither the functions that wait for a call to return nor how the cells of a global
have come to hold what they hold.
-/

namespace MiniPascal

def IR.Instruction.isPlain : IR.Instruction → Bool
  | .call _ _ _ | .ret _ => false
  | _ => true

namespace Machine

/-- What only a limit of the machine is the reason for. -/
def Halt.isLimit : Halt → Bool
  | failed (.stepLimit _) | failed (.callDepth _) => true
  | _ => false

namespace State

variable {first second third : State}

structure Holds (old new : State) : Prop where
  callers : new.callers = old.callers
  steps : new.steps = old.steps
  height : new.stack.size = old.stack.size

theorem Holds.refl (state : State) : state.Holds state := ⟨rfl, rfl, rfl⟩

theorem Holds.trans (h₁ : first.Holds second) (h₂ : second.Holds third) : first.Holds third :=
  ⟨h₂.callers.trans h₁.callers, h₂.steps.trans h₁.steps, h₂.height.trans h₁.height⟩

structure Grows (old new : State) : Prop where
  callers : new.callers = old.callers
  steps : new.steps = old.steps
  height : old.stack.size ≤ new.stack.size

theorem Grows.trans (h₁ : first.Grows second) (h₂ : second.Grows third) : first.Grows third :=
  ⟨h₂.callers.trans h₁.callers, h₂.steps.trans h₁.steps, Nat.le_trans h₁.height h₂.height⟩

theorem Holds.grows (holds : first.Holds second) : first.Grows second :=
  ⟨holds.callers, holds.steps, Nat.le_of_eq holds.height.symm⟩

theorem grows_push (state : State) :
    state.Grows { state with stack := state.stack.push 0 } := ⟨rfl, rfl, by simp⟩

end State

namespace Run

variable {α β : Type}

def EndsAlike (action : Run α) (ended : State → EStateM.Result Halt State α)
    (state after : State) : Prop :=
  ∀ alike, State.IsCongruence alike → ∀ other, alike state other →
    ∃ last, action other = ended last ∧ alike after last

/-- The step holds what belongs to other functions, fails for no limit, and does the same on machines
that are alike. -/
def IsLocalAt (action : Run α) (state : State) : Prop :=
  match action state with
  | .ok value after => state.Holds after ∧ EndsAlike action (.ok value) state after
  | .error halt after => state.Holds after ∧ halt.isLimit = false ∧
      EndsAlike action (.error halt) state after

def IsLocal (action : Run α) : Prop := ∀ state, IsLocalAt action state

theorem EndsAlike.under {action : Run α} {ended : State → EStateM.Result Halt State α}
    {state after : State} (endsAlike : EndsAlike action ended state after) (callers : List Frame) :
    action (state.under callers) = ended (after.under callers) := by
  obtain ⟨last, ran, rfl⟩ := endsAlike _ (State.isCongruence_under callers) _ rfl
  exact ran

theorem EndsAlike.alike {action : Run α} {ended : State → EStateM.Result Halt State α}
    {state after other : State} (endsAlike : EndsAlike action ended state after)
    (isAlike : state.Alike other) : ∃ last, action other = ended last ∧ after.Alike last :=
  endsAlike _ State.isCongruence_alike other isAlike

theorem EndsAlike.bind {action : Run α} {next : α → Run β} {value : α}
    {ended : State → EStateM.Result Halt State β} {state middle after : State}
    (first : EndsAlike action (.ok value) state middle)
    (second : EndsAlike (next value) ended middle after) :
    EndsAlike (action >>= next) ended state after := by
  intro alike isCongruence other isAlike
  obtain ⟨between, ran, isAlike⟩ := first alike isCongruence other isAlike
  obtain ⟨last, goesOn, isAlike⟩ := second alike isCongruence between isAlike
  exact ⟨last, (bind_of_ok next ran).trans goesOn, isAlike⟩

theorem EndsAlike.bind_error {action : Run α} (next : α → Run β) {halt : Halt}
    {state after : State} (fails : EndsAlike action (.error halt) state after) :
    EndsAlike (action >>= next) (.error halt) state after := by
  intro alike isCongruence other isAlike
  obtain ⟨last, ran, isAlike⟩ := fails alike isCongruence other isAlike
  exact ⟨last, bind_of_error next ran, isAlike⟩

theorem IsLocal.of_ok {action : Run α} {value : α} {state after : State}
    (isLocal : IsLocal action) (ran : action state = .ok value after) :
    state.Holds after ∧ EndsAlike action (.ok value) state after := by
  have := isLocal state
  rwa [IsLocalAt, ran] at this

theorem IsLocal.of_error {action : Run α} {halt : Halt} {state after : State}
    (isLocal : IsLocal action) (ran : action state = .error halt after) :
    state.Holds after ∧ halt.isLimit = false ∧ EndsAlike action (.error halt) state after := by
  have := isLocal state
  rwa [IsLocalAt, ran] at this

theorem IsLocalAt.ok {action : Run α} {value : α} {state after : State}
    (ran : action state = .ok value after) (holds : state.Holds after)
    (endsAlike : EndsAlike action (.ok value) state after) : IsLocalAt action state := by
  rw [IsLocalAt, ran]
  exact ⟨holds, endsAlike⟩

theorem IsLocalAt.gives {action : Run α} {state : State} (value : α)
    (same : ∀ other, state.Shows other → action other = .ok value other) :
    IsLocalAt action state :=
  .ok (same state (.refl state)) (.refl state) fun _ isCongruence other isAlike =>
    ⟨other, same other (isCongruence.shows_ isAlike), isAlike⟩

theorem IsLocalAt.fails {action : Run α} {state : State} (halt : Halt)
    (notLimit : halt.isLimit = false)
    (same : ∀ other, state.Shows other → action other = .error halt other) :
    IsLocalAt action state := by
  rw [IsLocalAt, same state (.refl state)]
  exact ⟨.refl state, notLimit, fun _ isCongruence other isAlike =>
    ⟨other, same other (isCongruence.shows_ isAlike), isAlike⟩⟩

theorem isLocal_pure (value : α) : IsLocal (pure value : Run α) :=
  fun _ => .gives value fun _ _ => rfl

theorem isLocal_throw {halt : Halt} (notLimit : halt.isLimit = false) :
    IsLocal (throw halt : Run α) :=
  fun _ => .fails halt notLimit fun _ _ => rfl

theorem IsLocal.bind {action : Run α} {next : α → Run β} (isLocal : IsLocal action)
    (areLocal : ∀ value, IsLocal (next value)) : IsLocal (action >>= next) := by
  intro state
  cases ran : action state with
  | error halt after =>
      obtain ⟨holds, notLimit, same⟩ := isLocal.of_error ran
      rw [IsLocalAt, bind_of_error next ran]
      exact ⟨holds, notLimit, same.bind_error next⟩
  | ok value middle =>
      obtain ⟨holds, same⟩ := isLocal.of_ok ran
      rw [IsLocalAt, bind_of_ok next ran]
      cases goesOn : next value middle with
      | error halt after =>
          obtain ⟨others, notLimit, alike⟩ := (areLocal value).of_error goesOn
          exact ⟨holds.trans others, notLimit, same.bind alike⟩
      | ok result after =>
          obtain ⟨others, alike⟩ := (areLocal value).of_ok goesOn
          exact ⟨holds.trans others, same.bind alike⟩

theorem isLocal_ofExcept {value : Except Halt α}
    (notLimit : ∀ halt, value = .error halt → halt.isLimit = false) :
    IsLocal (ofExcept value) := by
  cases value with
  | ok value => exact isLocal_pure value
  | error halt => exact isLocal_throw (notLimit halt rfl)

/-! ### Memory and console -/

theorem checkBounds_error {ir : IR.Module} {function : IR.FunctionId} {id : IR.GlobalId}
    {offset : Int} {size : Nat} {halt : Halt}
    (fails : checkBounds ir function id offset size = .error halt) :
    halt.isLimit = false := by
  unfold checkBounds at fails
  split at fails <;> cases fails
  rfl

theorem checkBounds_lt {ir : IR.Module} {function : IR.FunctionId} {id : IR.GlobalId} {offset : Int}
    {size index : Nat} (isIndex : checkBounds ir function id offset size = .ok index) :
    index < size := by
  unfold checkBounds at isIndex
  split at isIndex <;> cases isIndex
  omega

theorem isLocal_load (ir : IR.Module) (function : IR.FunctionId) (pointer : Pointer) :
    IsLocal (load ir function pointer) := by
  intro state
  cases pointer with
  | slot index =>
      cases isValue : state.stack[index]? with
      | none =>
          refine .fails (.failed (.invalidPointer (ir.functionName function))) rfl fun other same => ?_
          simp only [load, same.stack, isValue]
      | some value =>
          refine .gives value fun other same => ?_
          simp only [load, same.stack, isValue]
  | global id offset =>
      cases isGlobal : state.globals[id]? with
      | none =>
          refine .fails .panic rfl fun other same => ?_
          simp only [load, same.globals.getElem?_eq_none isGlobal]
      | some cells =>
          cases isIndex : checkBounds ir function id offset cells.size with
          | error halt =>
              refine .fails halt (checkBounds_error isIndex) fun other same => ?_
              obtain ⟨others, isOther, alike⟩ := same.globals.cells id cells isGlobal
              simp only [load, isOther, alike.size, isIndex]
          | ok index =>
              refine .gives (cells.get index) fun other same => ?_
              obtain ⟨others, isOther, alike⟩ := same.globals.cells id cells isGlobal
              simp only [load, isOther, alike.size, isIndex, alike.get index (checkBounds_lt isIndex)]

theorem isLocal_store (ir : IR.Module) (function : IR.FunctionId) (pointer : Pointer)
    (value : Int32) : IsLocal (store ir function pointer value) := by
  intro state
  cases pointer with
  | slot index =>
      by_cases inside : index < state.stack.size
      · have stores {other : State} (same : state.Shows other) :
            store ir function (.slot index) value other = .ok () { other with
              stack := state.stack.setIfInBounds index value } := by
          simp only [store, same.stack, inside, ↓reduceIte]
        refine .ok (stores (.refl state)) ⟨rfl, rfl, by simp⟩ fun _ isCongruence other isAlike => ?_
        exact ⟨_, stores (isCongruence.shows_ isAlike), isCongruence.setStack isAlike _⟩
      · refine .fails (.failed (.invalidPointer (ir.functionName function))) rfl fun other same => ?_
        simp only [store, same.stack, inside, ↓reduceIte]
  | global id offset =>
      cases isGlobal : state.globals[id]? with
      | none =>
          refine .fails .panic rfl fun other same => ?_
          simp only [store, same.globals.getElem?_eq_none isGlobal, Option.map_none]
      | some cells =>
          have isSize {other : State} (same : state.Shows other) :
              other.globals[id]?.map (·.size) = some cells.size := by
            obtain ⟨others, isOther, alike⟩ := same.globals.cells id cells isGlobal
            rw [isOther, Option.map_some, alike.size]
          cases isIndex : checkBounds ir function id offset cells.size with
          | error halt =>
              refine .fails halt (checkBounds_error isIndex) fun other same => ?_
              simp only [store, isSize same, isIndex]
          | ok index =>
              by_cases isConstant : ir.globals[id]?.any (·.constant)
              · refine .fails (.failed (.writeToConstant (ir.globalName id) (ir.functionName function)))
                  rfl fun other same => ?_
                simp only [store, isSize same, isIndex, isConstant, ↓reduceIte]
              · have stores {other : State} (same : state.Shows other) :
                    store ir function (.global id offset) value other = .ok () { other with
                      globals := other.globals.modify id (·.set index value) } := by
                  simp only [store, isSize same, isIndex, isConstant]
                  rfl
                refine .ok (stores (.refl state)) ⟨rfl, rfl, rfl⟩ ?_
                intro _ isCongruence other isAlike
                exact ⟨_, stores (isCongruence.shows_ isAlike), isCongruence.setCell isAlike _ _ _⟩

theorem isLocal_text (word : Word) : IsLocal (text word) := by
  intro state
  cases word with
  | int value => exact .fails (.failed (.invalidFormat .notText)) rfl fun _ _ => rfl
  | pointer pointer =>
      cases pointer with
      | slot index => exact .fails (.failed (.invalidFormat .notText)) rfl fun _ _ => rfl
      | global id offset =>
          cases isGlobal : state.globals[id]? with
          | none =>
              refine .fails .panic rfl fun other same => ?_
              simp only [text, same.globals.getElem?_eq_none isGlobal]
          | some cells =>
              refine .gives (cells.text offset) fun other same => ?_
              obtain ⟨others, isOther, alike⟩ := same.globals.cells id cells isGlobal
              simp only [text, isOther, alike.text]

theorem isLocal_print (output : String) : IsLocal (print output) := by
  refine fun state => .ok rfl ⟨rfl, rfl, rfl⟩ fun _ isCongruence other isAlike => ?_
  have console := (isCongruence.shows_ isAlike).console
  exact ⟨_, by rw [print, console], isCongruence.setConsole isAlike _⟩

theorem isLocal_readInt : IsLocal readInt := by
  refine fun state => .ok rfl ⟨rfl, rfl, rfl⟩ fun _ isCongruence other isAlike => ?_
  have console := (isCongruence.shows_ isAlike).console
  exact ⟨_, by rw [readInt, console]; rfl, isCongruence.setConsole isAlike _⟩

/-! ### Functions outside of the module -/

theorem isLocal_convert (conversion : Conversion) (argument : Word) :
    IsLocal (convert conversion argument) := by
  cases conversion <;> cases argument
  case integer.int value => exact isLocal_pure _
  case text.pointer pointer => exact isLocal_text _
  all_goals exact isLocal_throw rfl

theorem isLocal_format (chars : List Char) (arguments : List Word) :
    IsLocal (format chars arguments) := by
  fun_induction format chars arguments with
  | case1 => exact isLocal_pure _
  | case2 char rest arguments notPercent ih => exact ih.bind fun _ => isLocal_pure _
  | case3 => exact isLocal_throw rfl
  | case4 char arguments _ rest ih => exact ih.bind fun _ => isLocal_pure _
  | case5 => exact isLocal_throw rfl
  | case6 => exact isLocal_throw rfl
  | case7 char _ letter rest _ conversion argument arguments _ ih =>
      exact (isLocal_convert conversion argument).bind fun _ => ih.bind fun _ => isLocal_pure _

theorem isLocal_scan (ir : IR.Module) (function : IR.FunctionId) (done : Int32)
    (arguments : List Word) : IsLocal (scan ir function done arguments) := by
  induction arguments generalizing done with
  | nil => exact isLocal_pure _
  | cons argument arguments ih =>
      cases argument with
      | int value => exact isLocal_throw rfl
      | pointer pointer =>
          refine isLocal_readInt.bind fun value? => ?_
          cases value? with
          | none => exact isLocal_pure _
          | some value => exact (isLocal_store ir function pointer value).bind fun _ => ih (done + 1)

theorem isLocal_callExternal (ir : IR.Module) (function : IR.FunctionId) (arguments : List Word) :
    IsLocal (callExternal ir function arguments) := by
  cases arguments with
  | nil => exact isLocal_throw rfl
  | cons first others =>
      refine (isLocal_text first).bind fun text => ?_
      simp only
      split
      · exact (isLocal_format _ others).bind fun output =>
          (isLocal_print _).bind fun _ => isLocal_pure _
      · split
        · exact isLocal_scan ir function 0 _
        · exact isLocal_throw rfl

end Run

/-! ### Instructions -/

namespace Frame

variable {ir : IR.Module} {frame : Frame} {halt : Halt}

theorem word_error {operand : IR.Operand} (fails : frame.word ir operand = .error halt) :
    halt.isLimit = false := by
  unfold word at fails
  split at fails
  case h_3 | h_4 => split at fails <;> cases fails; rfl
  all_goals cases fails

theorem words_error {operands : List IR.Operand}
    (noArguments : operands.mapM (frame.word ir) = .error halt) : halt.isLimit = false := by
  obtain ⟨operand, -, isError⟩ := exists_of_mapM_eq_error noArguments
  exact word_error isError

theorem int_error {operand : IR.Operand} (fails : frame.int ir operand = .error halt) :
    halt.isLimit = false := by
  unfold int at fails
  split at fails
  · cases fails
  · cases fails
    rfl
  · rename_i isError
    cases fails
    exact word_error isError

theorem fetch_error (fails : frame.fetch ir = .error halt) : halt.isLimit = false := by
  unfold fetch at fails
  split at fails
  · split at fails <;> cases fails
    rfl
  · cases fails
    rfl

theorem pointer_error {operand : IR.Operand} (fails : frame.pointer ir operand = .error halt) :
    halt.isLimit = false := by
  unfold Frame.pointer at fails
  split at fails
  · cases fails
  · cases fails
    rfl
  · rename_i isError
    cases fails
    exact word_error isError

end Frame

namespace Run

variable {ir : IR.Module} {limits : Limits} {frame : Frame} {instruction : IR.Instruction}

theorem isLocal_proceed (frame : Frame) (result : IR.Register) (word : Word) :
    IsLocal (proceed frame result word) := by
  by_cases inside : result < frame.registers.size
  · rw [proceed_inside inside]
    exact isLocal_pure _
  · rw [proceed_outside inside]
    exact isLocal_throw rfl

theorem isLocal_execute (isPlain : instruction.isPlain) (notAlloca : instruction.isAlloca = false) :
    IsLocal (execute ir limits frame instruction) := by
  cases instruction with
  | alloca _ _ => cases notAlloca
  | call _ _ _ | ret _ => cases isPlain
  | arith result op left right =>
      refine (isLocal_ofExcept fun _ => Frame.int_error).bind fun x => ?_
      refine (isLocal_ofExcept fun _ => Frame.int_error).bind fun y => ?_
      cases op.evaluate? x y with
      | some value => exact isLocal_proceed _ _ _
      | none => exact isLocal_throw rfl
  | compare result predicate left right =>
      exact (isLocal_ofExcept fun _ => Frame.int_error).bind fun _ =>
        (isLocal_ofExcept fun _ => Frame.int_error).bind fun _ => isLocal_proceed _ _ _
  | load result pointer =>
      exact (isLocal_ofExcept fun _ => Frame.pointer_error).bind fun pointer =>
        (isLocal_load ir frame.function pointer).bind fun _ => isLocal_proceed _ _ _
  | store value pointer =>
      exact (isLocal_ofExcept fun _ => Frame.int_error).bind fun value =>
        (isLocal_ofExcept fun _ => Frame.pointer_error).bind fun pointer =>
          (isLocal_store ir frame.function pointer value).bind fun _ => isLocal_pure _
  | element result base index =>
      refine (isLocal_ofExcept fun _ => Frame.int_error).bind fun index => ?_
      refine (isLocal_ofExcept fun _ => Frame.pointer_error).bind fun pointer => ?_
      cases pointer with
      | global id offset => exact isLocal_proceed _ _ _
      | slot index => exact isLocal_throw rfl
  | jump target => exact isLocal_pure _
  | branch condition holds fails =>
      exact (isLocal_ofExcept fun _ => Frame.int_error).bind fun _ => isLocal_pure _

theorem ensures_proceed (frame : Frame) (result : IR.Register) (word : Word) (state : State) :
    Ensures (proceed frame result word)
      (fun flow _ => ∃ later, flow = .next later ∧ frame.Keeps 0 later) state := by
  by_cases inside : result < frame.registers.size
  · rw [proceed_inside inside]
    exact ensures_pure.2 ⟨_, rfl,
      (Frame.Keeps.refl frame 0).trans (frame.keeps_define result word) (Nat.zero_le _)⟩
  · rw [proceed_outside inside]
    exact ensures_throw.2 trivial

/-- An instruction that is no transfer leaves the function where it is: in the same activation, at
some other place of its code. -/
theorem ensures_execute (isPlain : instruction.isPlain) (state : State) :
    Ensures (execute ir limits frame instruction)
      (fun flow _ => ∃ later, flow = .next later ∧ frame.Keeps 0 later) state := by
  have jumps (target : IR.BlockId) : frame.Keeps 0 (frame.jump target) :=
    ⟨rfl, rfl, rfl, rfl, rfl, rfl, fun _ _ => rfl⟩
  cases instruction with
  | call _ _ _ | ret _ => cases isPlain
  | alloca result name =>
      simp only [execute, ensures_bind]
      exact fun _ _ _ => ensures_proceed _ _ _ _
  | jump target =>
      rintro flow after ⟨⟩
      exact ⟨_, rfl, jumps target⟩
  | branch condition holds fails =>
      simp only [execute, ensures_bind, ensures_pure]
      exact fun _ _ _ => ⟨_, rfl, jumps _⟩
  | compare result predicate left right =>
      simp only [execute, ensures_bind]
      exact fun _ _ _ _ _ _ => ensures_proceed _ _ _ _
  | load result pointer =>
      simp only [execute, ensures_bind]
      exact fun _ _ _ _ _ _ => ensures_proceed _ _ _ _
  | store value pointer =>
      simp only [execute, ensures_bind, ensures_pure]
      exact fun _ _ _ _ _ _ _ _ _ => ⟨_, rfl, frame.keeps_advance 0⟩
  | arith result op left right =>
      simp only [execute, ensures_bind]
      intro x _ _ y _ _
      cases op.evaluate? x y with
      | some value => exact ensures_proceed _ _ _ _
      | none => exact ensures_throw.2 trivial
  | element result base index =>
      simp only [execute, ensures_bind]
      intro index _ _ pointer _ _
      cases pointer with
      | global id offset => exact ensures_proceed _ _ _ _
      | slot index => exact ensures_throw.2 trivial

theorem endsAlike_pushSlot (state : State) :
    EndsAlike pushSlot (.ok state.stack.size) state { state with stack := state.stack.push 0 } := by
  intro alike isCongruence other isAlike
  have stack := (isCongruence.shows_ isAlike).stack
  refine ⟨{ other with stack := state.stack.push 0 }, ?_, isCongruence.setStack isAlike _⟩
  rw [← stack]
  rfl

theorem execute_ok (isPlain : instruction.isPlain) {state after : State} {flow : Flow}
    (executed : execute ir limits frame instruction state = .ok flow after) :
    (∃ later, flow = .next later ∧ frame.Keeps 0 later) ∧ state.Grows after ∧
      EndsAlike (execute ir limits frame instruction) (.ok flow) state after := by
  refine ⟨ensures_execute isPlain state flow after executed, ?_⟩
  cases isAlloca : instruction.isAlloca with
  | false =>
      obtain ⟨holds, same⟩ := (isLocal_execute isPlain isAlloca).of_ok executed
      exact ⟨holds.grows, same⟩
  | true =>
      cases instruction <;> cases isAlloca
      obtain ⟨holds, same⟩ := (isLocal_proceed frame _ _).of_ok executed
      exact ⟨(State.grows_push state).trans holds.grows, (endsAlike_pushSlot state).bind same⟩

theorem execute_error (isPlain : instruction.isPlain) {state after : State} {halt : Halt}
    (executed : execute ir limits frame instruction state = .error halt after) :
    state.Grows after ∧ halt.isLimit = false ∧
      EndsAlike (execute ir limits frame instruction) (.error halt) state after := by
  cases isAlloca : instruction.isAlloca with
  | false =>
      obtain ⟨holds, notLimit, same⟩ := (isLocal_execute isPlain isAlloca).of_error executed
      exact ⟨holds.grows, notLimit, same⟩
  | true =>
      cases instruction <;> cases isAlloca
      obtain ⟨holds, notLimit, same⟩ := (isLocal_proceed frame _ _).of_error executed
      exact ⟨(State.grows_push state).trans holds.grows, notLimit,
        (endsAlike_pushSlot state).bind same⟩

/-- Limits matter to calls only. -/
theorem execute_limits (isPlain : instruction.isPlain) (others : Limits) :
    execute ir limits frame instruction = execute ir others frame instruction := by
  cases instruction with
  | call _ _ _ | ret _ => cases isPlain
  | _ => rfl

end Run

end Machine

end MiniPascal
