import MiniPascal.Proofs.Ensures
import MiniPascal.Proofs.Machine.Alike
import MiniPascal.Proofs.Machine.Instructions

/-!
# What pointers point to

A load or a store that succeeds concerns one integer, in a global or on the stack, and all others stay
what they are.  A global never has more or fewer integers than its module says.
-/

namespace MiniPascal.Machine

def Pointer.Writable (ir : IR.Module) : Pointer → Prop
  | .global id _ => ∀ global : IR.Global, ir.globals[id]? = some global → global.constant = false
  | .slot _ => True

namespace State

def uncounted (state : State) : State := { state with steps := 0 }

def value? (state : State) : Pointer → Option Int32
  | .slot index => state.stack[index]?
  | .global id offset =>
      match state.globals[id]? with
      | some cells => if 0 ≤ offset ∧ offset < cells.size then some (cells.get offset.toNat) else none
      | none => none

def write (state : State) (pointer : Pointer) (value : Int32) : State :=
  match pointer with
  | .slot index => { state with stack := state.stack.setIfInBounds index value }
  | .global id offset =>
      { state with globals := state.globals.modify id (·.set offset.toNat value) }

variable {state : State} {pointer other : Pointer} {value old : Int32} {ir : IR.Module}

@[simp] theorem value?_uncounted (state : State) (pointer : Pointer) :
    state.uncounted.value? pointer = state.value? pointer := by
  cases pointer <;> rfl

theorem uncounted_write (state : State) (pointer : Pointer) (value : Int32) :
    (state.write pointer value).uncounted = state.uncounted.write pointer value := by
  cases pointer <;> rfl

theorem value?_global {id : IR.GlobalId} {offset : Int}
    (isValue : state.value? (.global id offset) = some old) :
    ∃ cells, state.globals[id]? = some cells ∧ (0 ≤ offset ∧ offset < cells.size) ∧
      cells.get offset.toNat = old := by
  simp only [value?] at isValue
  split at isValue
  · split at isValue
    · exact ⟨_, by assumption, by assumption, Option.some.inj isValue⟩
    · cases isValue
  · cases isValue

theorem value?_write_self (isValue : state.value? pointer = some old) :
    (state.write pointer value).value? pointer = some value := by
  cases pointer with
  | slot index =>
      obtain ⟨inside, -⟩ := Array.getElem?_eq_some_iff.1 isValue
      simp [value?, write, inside]
  | global id offset =>
      obtain ⟨cells, isCells, inside, -⟩ := value?_global isValue
      simp [value?, write, Array.getElem?_modify, isCells, Cells.size_set, inside, Cells.get_set]

theorem value?_write_of_ne (isValue : state.value? pointer = some old) (different : other ≠ pointer) :
    (state.write pointer value).value? other = state.value? other := by
  cases pointer with
  | slot index =>
      cases other with
      | slot index' =>
          have apart : index ≠ index' := fun same => different (congrArg Pointer.slot same.symm)
          simp [value?, write, apart]
      | global id offset => rfl
  | global id offset =>
      cases other with
      | slot index => rfl
      | global id' offset' =>
          simp only [value?, write, Array.getElem?_modify]
          by_cases here : id = id'
          · subst here
            obtain ⟨cells, isCells, inside, -⟩ := value?_global isValue
            simp only [isCells, if_true, Option.map_some, Cells.size_set, Cells.get_set]
            split
            · have apart : offset'.toNat ≠ offset.toNat := fun same =>
                different (congrArg (Pointer.global id) (by omega))
              rw [if_neg apart]
            · rfl
          · rw [if_neg here]

end State

/-! ### Loads and stores -/

namespace Run

variable {state : State} {pointer : Pointer} {value old : Int32} {ir : IR.Module}
  {function : IR.FunctionId}

theorem load_of_value (isValue : state.value? pointer = some value) :
    load ir function pointer state = .ok value state := by
  cases pointer with
  | slot index =>
      have isSlot : state.stack[index]? = some value := isValue
      simp only [load, isSlot]
  | global id offset =>
      obtain ⟨cells, isCells, inside, rfl⟩ := State.value?_global isValue
      simp only [load, isCells, checkBounds, if_pos inside]

theorem store_of_value (isValue : state.value? pointer = some old) (writable : pointer.Writable ir) :
    store ir function pointer value state = .ok () (state.write pointer value) := by
  cases pointer with
  | slot index =>
      obtain ⟨inside, -⟩ := Array.getElem?_eq_some_iff.1 isValue
      simp only [store, if_pos inside]
      rfl
  | global id offset =>
      obtain ⟨cells, isCells, inside, -⟩ := State.value?_global isValue
      have notConstant : (ir.globals[id]?.any (·.constant)) = false := by
        cases isGlobal : ir.globals[id]? with
        | none => rfl
        | some global => exact writable global isGlobal
      simp only [store, isCells, Option.map_some, checkBounds, if_pos inside, notConstant]
      rfl

section
variable {id : IR.GlobalId} {offset : Int} {cells : Cells}

theorem load_outside (isCells : state.globals[id]? = some cells)
    (outside : ¬ (0 ≤ offset ∧ offset < cells.size)) :
    load ir function (.global id offset) state =
      .error (.failed (.outOfBounds (ir.globalName id) offset (ir.functionName function))) state := by
  simp only [load, isCells, checkBounds, if_neg outside]

theorem store_outside (isCells : state.globals[id]? = some cells)
    (outside : ¬ (0 ≤ offset ∧ offset < cells.size)) :
    store ir function (.global id offset) value state =
      .error (.failed (.outOfBounds (ir.globalName id) offset (ir.functionName function))) state := by
  simp only [store, isCells, Option.map_some, checkBounds, if_neg outside]

end

end Run

/-! ### The size of globals -/

def State.Laid (ir : IR.Module) (state : State) : Prop :=
  state.globals.map (·.size) = ir.globals.map fun global => (Cells.ofContent global.content).size

namespace State

variable {ir : IR.Module} {state after : State}

theorem laid_start (ir : IR.Module) (console : Console) : (start ir console).Laid ir := by
  simp [Laid, start, Function.comp_def]

theorem Laid.cells (laid : state.Laid ir) {id : IR.GlobalId} {global : IR.Global}
    (isGlobal : ir.globals[id]? = some global) :
    ∃ cells, state.globals[id]? = some cells ∧ cells.size = (Cells.ofContent global.content).size := by
  have sizes := congrArg (·[id]?) laid
  simp only [Array.getElem?_map, isGlobal, Option.map_some, Option.map_eq_some_iff] at sizes
  exact sizes

end State

namespace Run

variable {α β : Type} {ir : IR.Module} {limits : Limits}

def KeepsSizes (action : Run α) : Prop :=
  ∀ state, Ensures action (fun _ after => after.globals.map (·.size) = state.globals.map (·.size)) state

theorem KeepsSizes.bind {action : Run α} {next : α → Run β} (first : KeepsSizes action)
    (others : ∀ value, KeepsSizes (next value)) : KeepsSizes (action >>= next) := by
  intro state
  rw [ensures_bind]
  refine (first state).mono fun value between same => ?_
  exact (others value between).mono fun _ after same' => same'.trans same

theorem keepsSizes_pure (value : α) : KeepsSizes (pure value : Run α) := by simp [KeepsSizes]

theorem keepsSizes_throw (halt : Halt) : KeepsSizes (throw halt : Run α) := by simp [KeepsSizes]

theorem keepsSizes_of_ok {action : Run α}
    (h : ∀ state value after, action state = .ok value after → after.globals = state.globals) :
    KeepsSizes action := fun state value after isOk =>
  congrArg (·.map (·.size)) (h state value after isOk)

theorem keepsSizes_ofExcept (value : Except Halt α) : KeepsSizes (ofExcept value) := by
  cases value with
  | ok value => exact keepsSizes_pure value
  | error halt => exact keepsSizes_throw halt

theorem keepsSizes_assign (frame : Frame) (register : IR.Register) (word : Word) :
    KeepsSizes (assign frame register word) :=
  keepsSizes_of_ok fun _ _ _ isOk => by
    obtain ⟨-, -, rfl⟩ := (assign_eq_ok _).1 isOk
    rfl

theorem keepsSizes_proceed (frame : Frame) (result : IR.Register) (word : Word) :
    KeepsSizes (proceed frame result word) :=
  (keepsSizes_assign frame result word).bind fun _ => keepsSizes_pure _

theorem keepsSizes_load (function : IR.FunctionId) (pointer : Pointer) :
    KeepsSizes (load ir function pointer) := by
  refine keepsSizes_of_ok fun state value after isOk => ?_
  unfold load at isOk
  repeat' split at isOk
  all_goals cases isOk
  all_goals rfl

theorem keepsSizes_store (function : IR.FunctionId) (pointer : Pointer) (value : Int32) :
    KeepsSizes (store ir function pointer value) := by
  intro state _ after isOk
  unfold store at isOk
  repeat' split at isOk
  all_goals cases isOk
  · rfl
  · refine Array.ext_getElem? fun index => ?_
    simp only [Array.getElem?_map, Array.getElem?_modify]
    split
    · cases state.globals[index]? <;> rfl
    · rfl

theorem keepsSizes_text (word : Word) : KeepsSizes (text word) := by
  refine keepsSizes_of_ok fun state value after isOk => ?_
  unfold text at isOk
  repeat' split at isOk
  all_goals cases isOk
  rfl

theorem keepsSizes_print (text : String) : KeepsSizes (print text) :=
  keepsSizes_of_ok fun _ _ _ isOk => by
    cases isOk
    rfl

theorem keepsSizes_readInt : KeepsSizes readInt :=
  keepsSizes_of_ok fun _ _ _ isOk => by
    cases isOk
    rfl

theorem keepsSizes_format (chars : List Char) (arguments : List Word) :
    KeepsSizes (format chars arguments) := by
  fun_induction format chars arguments with
  | case1 => exact keepsSizes_pure _
  | case2 char rest arguments notPercent ih => exact ih.bind fun _ => keepsSizes_pure _
  | case3 | case5 | case6 => exact keepsSizes_throw _
  | case4 char arguments _ rest ih => exact ih.bind fun _ => keepsSizes_pure _
  | case7 char _ letter rest _ conversion argument arguments _ ih =>
      refine KeepsSizes.bind ?_ fun _ => ih.bind fun _ => keepsSizes_pure _
      cases conversion <;> cases argument
      case integer.int value => exact keepsSizes_pure _
      case text.pointer pointer => exact keepsSizes_text _
      all_goals exact keepsSizes_throw _

theorem keepsSizes_scan (function : IR.FunctionId) (done : Int32) (arguments : List Word) :
    KeepsSizes (scan ir function done arguments) := by
  induction arguments generalizing done with
  | nil => exact keepsSizes_pure _
  | cons argument arguments ih =>
      cases argument with
      | int value => exact keepsSizes_throw _
      | pointer pointer =>
          refine keepsSizes_readInt.bind fun value? => ?_
          cases value? with
          | none => exact keepsSizes_pure _
          | some value => exact (keepsSizes_store _ _ _).bind fun _ => ih _

theorem keepsSizes_callExternal (function : IR.FunctionId) (arguments : List Word) :
    KeepsSizes (callExternal ir function arguments) := by
  cases arguments with
  | nil => exact keepsSizes_throw _
  | cons first others =>
      refine (keepsSizes_text first).bind fun text => ?_
      simp only
      split
      · exact (keepsSizes_format _ others).bind fun _ => (keepsSizes_print _).bind fun _ =>
          keepsSizes_pure _
      · split
        · exact keepsSizes_scan _ _ _
        · exact keepsSizes_throw _

theorem keepsSizes_call (callee : IR.FunctionId) (arguments : List Word) (depth : Nat)
    (result : Option IR.Register) : KeepsSizes (call ir limits callee arguments depth result) := by
  unfold call
  split
  · exact keepsSizes_throw _
  · split
    · exact (keepsSizes_callExternal _ _).bind fun _ => keepsSizes_pure _
    · split
      · exact keepsSizes_throw _
      · exact keepsSizes_of_ok fun _ _ _ isOk => by
          cases isOk
          rfl

theorem keepsSizes_returnFrom (frame : Frame) (value : Option Word) :
    KeepsSizes (returnFrom ir frame value) := by
  intro state flow after isOk
  unfold returnFrom at isOk
  dsimp only at isOk
  repeat' split at isOk
  case h_2 =>
    obtain ⟨later, assigned, -⟩ := map_eq_ok.1 isOk
    exact (keepsSizes_assign _ _ _ _ _ _ assigned :)
  all_goals cases isOk
  all_goals rfl

theorem keepsSizes_execute (frame : Frame) (instruction : IR.Instruction) :
    KeepsSizes (execute ir limits frame instruction) := by
  cases instruction with
  | arith result op left right =>
      refine (keepsSizes_ofExcept _).bind fun x => (keepsSizes_ofExcept _).bind fun y => ?_
      split
      · exact keepsSizes_proceed _ _ _
      · exact keepsSizes_throw _
  | compare result predicate left right =>
      exact (keepsSizes_ofExcept _).bind fun _ => (keepsSizes_ofExcept _).bind fun _ =>
        keepsSizes_proceed _ _ _
  | alloca result name =>
      refine KeepsSizes.bind (keepsSizes_of_ok fun _ _ _ isOk => ?_) fun _ =>
        keepsSizes_proceed _ _ _
      cases isOk
      rfl
  | load result pointer =>
      exact (keepsSizes_ofExcept _).bind fun _ => (keepsSizes_load _ _).bind fun _ =>
        keepsSizes_proceed _ _ _
  | store value pointer =>
      exact (keepsSizes_ofExcept _).bind fun _ => (keepsSizes_ofExcept _).bind fun _ =>
        (keepsSizes_store _ _ _).bind fun _ => keepsSizes_pure _
  | element result base index =>
      refine (keepsSizes_ofExcept _).bind fun _ => (keepsSizes_ofExcept _).bind fun pointer => ?_
      cases pointer with
      | global id offset => exact keepsSizes_proceed _ _ _
      | slot index => exact keepsSizes_throw _
  | call result callee arguments =>
      refine (keepsSizes_ofExcept _).bind fun _ => (keepsSizes_call _ _ _ _).bind fun called => ?_
      split
      · refine KeepsSizes.bind (keepsSizes_of_ok fun _ _ _ isOk => ?_) fun _ => keepsSizes_pure _
        cases isOk
        rfl
      · split
        · exact keepsSizes_proceed _ _ _
        · exact keepsSizes_pure _
  | jump target => exact keepsSizes_pure _
  | branch condition holds fails =>
      exact (keepsSizes_ofExcept _).bind fun _ => keepsSizes_pure _
  | ret value =>
      cases value with
      | none => exact keepsSizes_returnFrom _ _
      | some value => exact (keepsSizes_ofExcept _).bind fun _ => keepsSizes_returnFrom _ _

end Run

/-- The globals stay laid out as the module says however far a run goes. -/
theorem Config.Runs.laid {ir : IR.Module} {limits : Limits} {config last : Config} {count : Nat}
    (runs : config.Runs ir limits count last) (laid : config.state.Laid ir) : last.state.Laid ir := by
  induction runs with
  | refl config => exact laid
  | step fetched executed _ ih => exact ih ((Run.keepsSizes_execute _ _ _ _ _ executed).trans laid)

end MiniPascal.Machine
