import Mathlib.Data.List.Nodup
import MiniPascal.Proofs.Machine.Alike
import MiniPascal.Proofs.Simulation.Basic

/-!
# Memory of evaluations and machines

Each global variable and each array has a global of the module for its own, and each variable of a
call has a slot of the stack.  Under that relation reading and writing a place is loading and
storing through a pointer.
-/

namespace MiniPascal

open Evaluation (Stop Memory Eval Place ArrayName change)
open Machine (Cells Frame State Run Pointer Word)

/-- What a global of a module can be the storage of. -/
inductive Home where
  | scalar (name : String)
  | array (array : ArrayName)
  deriving DecidableEq

namespace Evaluation.Memory

def cell (memory : Memory) : Home → Nat → Int32
  | .scalar name, _ => memory.globals name
  | .array array, index => memory.arrays array index

def setCell (memory : Memory) (home : Home) (index : Nat) (value : Int32) : Memory :=
  match home with
  | .scalar name => { memory with globals := change memory.globals name value }
  | .array array =>
      { memory with arrays := change memory.arrays array (change (memory.arrays array) index value) }

def slot (memory : Memory) : Place → Int32
  | .local name => memory.locals name
  | .result => memory.result
  | _ => 0

end Evaluation.Memory

/-! ### Cells -/

namespace Machine.Cells

private theorem size_foldl (values : List Int32) (cells : Cells) (index : Nat) :
    (values.foldl (fun (cells, index) value => (cells.set index value, index + 1))
      (cells, index)).1.size = cells.size := by
  induction values generalizing cells index with
  | nil => rfl
  | cons value values ih => rw [List.foldl_cons, ih, size_set]

private theorem get_foldl (values : List Int32) (cells : Cells) (index other : Nat) :
    (values.foldl (fun (cells, index) value => (cells.set index value, index + 1))
      (cells, index)).1.get other =
        if index ≤ other then (values[other - index]?).getD (cells.get other)
        else cells.get other := by
  induction values generalizing cells index with
  | nil => simp
  | cons value values ih =>
      rw [List.foldl_cons, ih, get_set]
      by_cases isFirst : other = index
      · subst isFirst
        rw [if_neg (by omega), if_pos rfl, if_pos (Nat.le_refl _)]
        simp
      · by_cases isLater : index ≤ other
        · have isNext : other - index = (other - (index + 1)) + 1 := by omega
          rw [if_pos (by omega), if_pos isLater, if_neg isFirst, isNext,
            List.getElem?_cons_succ]
        · rw [if_neg (by omega), if_neg isLater, if_neg isFirst]

theorem size_ofList (values : List Int32) : (ofList values).size = values.length := by
  simp [ofList, size_foldl]

theorem get_ofList (values : List Int32) (index : Nat) :
    (ofList values).get index = (values[index]?).getD 0 := by
  refine (get_foldl values ⟨values.length, ∅⟩ 0 index).trans ?_
  simp [get]

end Machine.Cells

/-! ### The relation -/

/-- A module, what its globals are the storage of, and the callables that its functions are. -/
structure Plan where
  ir : IR.Module
  owner : IR.GlobalId → Option Home
  code : IR.FunctionId → Heading → List Statement → Prop

structure Plan.Fair (plan : Plan) : Prop where
  injective : ∀ id other home, plan.owner id = some home → plan.owner other = some home → id = other
  changes : ∀ id home, plan.owner id = some home → ∃ global, plan.ir.globals[id]? = some global ∧
    global.constant = false
  single : ∀ id name global, plan.owner id = some (.scalar name) →
    plan.ir.globals[id]? = some global → (Cells.ofContent global.content).size = 1

/-- What stays the same during a call: the stack below its slots, the calls it returns to, how many
they are, and the register there. -/
structure Activation where
  below : List Int32
  callers : List Frame
  depth : Nat
  result : Option IR.Register

def Plan.Globals (plan : Plan) (memory : Memory) (globals : Array Cells) : Prop :=
  ∀ (id : IR.GlobalId) (global : IR.Global), plan.ir.globals[id]? = some global →
    ∃ cells, globals[id]? = some cells ∧ cells.size = (Cells.ofContent global.content).size ∧
      (global.constant = true → cells = Cells.ofContent global.content) ∧
      ∀ home, plan.owner id = some home → ∀ index < cells.size, cells.get index = memory.cell home index

structure Plan.Holds (plan : Plan) (activation : Activation) (slots : List Place)
    (memory : Memory) (state : State) : Prop where
  globals : plan.Globals memory state.globals
  stack : state.stack.toList = activation.below ++ slots.map memory.slot
  callers : state.callers = activation.callers
  console : state.console = memory.console

theorem Plan.Holds.counted {plan : Plan} {activation : Activation} {slots : List Place}
    {memory : Memory} {state : State} (holds : plan.Holds activation slots memory state) :
    plan.Holds activation slots memory state.counted :=
  ⟨holds.globals, holds.stack, holds.callers, holds.console⟩

def Plan.Points (plan : Plan) (activation : Activation) (slots : List Place) :
    Place → Pointer → Prop
  | .global name, .global id offset => plan.owner id = some (.scalar name) ∧ offset = 0
  | .element array length offset, .global id offset' =>
      plan.owner id = some (.array array) ∧ offset' = offset ∧
        ∃ global, plan.ir.globals[id]? = some global ∧
          (Cells.ofContent global.content).size = length
  | .local name, .slot index =>
      ∃ slot, slots[slot]? = some (.local name) ∧ index = activation.below.length + slot
  | .result, .slot index =>
      ∃ slot, slots[slot]? = some .result ∧ index = activation.below.length + slot
  | _, _ => False

section

variable {plan : Plan} {activation : Activation} {slots : List Place} {memory : Memory}
  {state : State}

private theorem getElem?_stack (holds : plan.Holds activation slots memory state) {slot : Nat}
    {place : Place} (isSlot : slots[slot]? = some place) :
    state.stack[activation.below.length + slot]? = some (memory.slot place) := by
  rw [← Array.getElem?_toList, holds.stack, List.getElem?_append_right (by omega)]
  simp [isSlot]

private theorem checkBounds_inside {ir : IR.Module} {function : IR.FunctionId} {id : IR.GlobalId}
    {offset : Int} {size : Nat} (inside : 0 ≤ offset ∧ offset < size) :
    Run.checkBounds ir function id offset size = .ok offset.toNat := if_pos inside

private theorem checkBounds_outside {ir : IR.Module} {function : IR.FunctionId} {id : IR.GlobalId}
    {offset : Int} {size : Nat} (outside : ¬ (0 ≤ offset ∧ offset < size)) :
    Run.checkBounds ir function id offset size =
      .error (.failed (.outOfBounds (ir.globalName id) offset (ir.functionName function))) :=
  if_neg outside

private theorem load_cell (holds : plan.Holds activation slots memory state) {id : IR.GlobalId}
    {home : Home} {global : IR.Global} (isOwner : plan.owner id = some home)
    (isGlobal : plan.ir.globals[id]? = some global) {offset : Int}
    (inside : 0 ≤ offset ∧ offset < (Cells.ofContent global.content).size)
    (function : IR.FunctionId) :
    Run.load plan.ir function (.global id offset) state =
      .ok (memory.cell home offset.toNat) state := by
  obtain ⟨cells, isCells, size, -, content⟩ := holds.globals id global isGlobal
  rw [← size] at inside
  simp only [Run.load, isCells, checkBounds_inside inside]
  rw [content home isOwner offset.toNat (by omega)]

private theorem load_slot (holds : plan.Holds activation slots memory state) {slot : Nat}
    {place : Place} (isSlot : slots[slot]? = some place) (function : IR.FunctionId) :
    Run.load plan.ir function (.slot (activation.below.length + slot)) state =
      .ok (memory.slot place) state := by
  simp [Run.load, getElem?_stack holds isSlot]

theorem load_of_points (fair : plan.Fair) (holds : plan.Holds activation slots memory state) {place : Place}
    {pointer : Pointer} (points : plan.Points activation slots place pointer)
    (function : IR.FunctionId) :
    (∃ value, Evaluation.read place memory = .ok value memory ∧
      Run.load plan.ir function pointer state = .ok value state) ∨
    (Evaluation.read place memory = .error .outOfBounds memory ∧ ∃ name offset,
      Run.load plan.ir function pointer state =
        .error (.failed (.outOfBounds name offset (plan.ir.functionName function))) state) := by
  cases place with
  | global name =>
      cases pointer with
      | slot index => exact points.elim
      | global id offset =>
          obtain ⟨isOwner, rfl⟩ := points
          obtain ⟨global, isGlobal, -⟩ := fair.changes id _ isOwner
          have isOne := fair.single id name global isOwner isGlobal
          exact .inl ⟨memory.globals name, rfl,
            load_cell holds isOwner isGlobal (by omega) function⟩
  | element array length offset =>
      cases pointer with
      | slot index => exact points.elim
      | global id offset' =>
          obtain ⟨isOwner, rfl, global, isGlobal, rfl⟩ := points
          -- the machine checks the bounds of the global, which are those of the array
          by_cases inside : 0 ≤ offset' ∧ offset' < (Cells.ofContent global.content).size
          · refine .inl ⟨memory.arrays array offset'.toNat, ?_,
              load_cell holds isOwner isGlobal inside function⟩
            simp only [Evaluation.read, Evaluation.checkOffset, if_pos inside, pure_bind]
            rfl
          · refine .inr ⟨?_, plan.ir.globalName id, offset', ?_⟩
            · simp only [Evaluation.read, Evaluation.checkOffset, if_neg inside]
              rfl
            · obtain ⟨cells, isCells, size, -⟩ := holds.globals id global isGlobal
              rw [← size] at inside
              simp only [Run.load, isCells, checkBounds_outside inside]
  | «local» name =>
      cases pointer with
      | global id offset => exact points.elim
      | slot index =>
          obtain ⟨slot, isSlot, rfl⟩ := points
          exact .inl ⟨memory.locals name, rfl, load_slot holds isSlot function⟩
  | result =>
      cases pointer with
      | global id offset => exact points.elim
      | slot index =>
          obtain ⟨slot, isSlot, rfl⟩ := points
          exact .inl ⟨memory.result, rfl, load_slot holds isSlot function⟩

theorem Memory.cell_setCell_self (memory : Memory) (home : Home) (index other : Nat) (value : Int32)
    (single : ∀ name, home = .scalar name → other = index) :
    (memory.setCell home index value).cell home other =
      if other = index then value else memory.cell home other := by
  cases home with
  | scalar name => simp [Memory.setCell, Memory.cell, change, single name rfl]
  | array array => simp [Memory.setCell, Memory.cell, change]

theorem Memory.cell_setCell_other (memory : Memory) {home other : Home} (index position : Nat)
    (value : Int32) (different : other ≠ home) :
    (memory.setCell home index value).cell other position = memory.cell other position := by
  cases home <;> cases other <;> simp_all [Memory.setCell, Memory.cell, change]

theorem Plan.Globals.setCell (fair : plan.Fair) {globals : Array Cells} {id : IR.GlobalId}
    {home : Home} (holds : plan.Globals memory globals) (index : Nat) (value : Int32)
    (isOwner : plan.owner id = some home) (inside : ∀ cells, globals[id]? = some cells → index < cells.size) :
    plan.Globals (memory.setCell home index value) (globals.modify id (·.set index value)) := by
  intro other global isGlobal
  obtain ⟨cells, isCells, size, fixed, content⟩ := holds other global isGlobal
  by_cases same : other = id
  · subst same
    obtain ⟨found, isFound, notConstant⟩ := fair.changes other home isOwner
    obtain rfl := Option.some.inj (isFound.symm.trans isGlobal)
    refine ⟨cells.set index value, by simp [Array.getElem?_modify, isCells], size, ?_, ?_⟩
    · simp [notConstant]
    · intro home' isHome position bound
      obtain rfl := Option.some.inj (isHome.symm.trans isOwner)
      rw [Cells.size_set] at bound
      rw [Cells.get_set, content home' isOwner position bound, Memory.cell_setCell_self]
      rintro name rfl
      have isOne := fair.single other name found isOwner isFound
      have := inside cells isCells
      omega
  · refine ⟨cells, by simp [Array.getElem?_modify, Ne.symm same, isCells], size, fixed, ?_⟩
    intro home' isHome position bound
    rw [content home' isHome position bound, Memory.cell_setCell_other]
    rintro rfl
    exact same (fair.injective _ _ _ isHome isOwner)

private theorem map_slot_setCell (home : Home) (index : Nat) (value : Int32) :
    slots.map (memory.setCell home index value).slot = slots.map memory.slot := by
  refine List.map_congr_left fun place _ => ?_
  cases home <;> cases place <;> rfl

private theorem set_map_slot {later : Memory} {slot : Nat} {place : Place} {value : Int32}
    (nodup : slots.Nodup) (isSlot : slots[slot]? = some place) (new : later.slot place = value)
    (others : ∀ other ≠ place, later.slot other = memory.slot other) :
    (slots.map memory.slot).set slot value = slots.map later.slot := by
  apply List.ext_getElem?
  intro index
  simp only [List.getElem?_set, List.length_map, List.getElem?_map]
  obtain ⟨bound, isPlace⟩ := List.getElem?_eq_some_iff.1 isSlot
  by_cases same : slot = index
  · subst same
    simp [bound, isPlace, new]
  · rw [if_neg same]
    cases isOther : slots[index]? with
    | none => rfl
    | some other =>
        obtain ⟨bound', isPlace'⟩ := List.getElem?_eq_some_iff.1 isOther
        have different : other ≠ place := by
          rintro rfl
          exact same ((List.Nodup.getElem_inj_iff nodup).1 (isPlace.trans isPlace'.symm))
        simp [others other different]

private theorem holds_setSlot (holds : plan.Holds activation slots memory state) {later : Memory}
    {slot : Nat} {place : Place} {value : Int32} (nodup : slots.Nodup)
    (isSlot : slots[slot]? = some place) (new : later.slot place = value)
    (others : ∀ other ≠ place, later.slot other = memory.slot other)
    (globals : later.globals = memory.globals) (arrays : later.arrays = memory.arrays)
    (console : later.console = memory.console) :
    plan.Holds activation slots later
      { state with
        stack := state.stack.setIfInBounds (activation.below.length + slot) value } := by
  refine ⟨?_, ?_, holds.callers, holds.console.trans console.symm⟩
  · intro id global isGlobal
    obtain ⟨cells, isCells, size, fixed, content⟩ := holds.globals id global isGlobal
    refine ⟨cells, isCells, size, fixed, fun home isHome index bound => ?_⟩
    rw [content home isHome index bound]
    cases home <;> simp [Memory.cell, globals, arrays]
  · rw [Array.toList_setIfInBounds, holds.stack, List.set_append_right _ _ (by omega)]
    rw [Nat.add_sub_cancel_left, set_map_slot nodup isSlot new others]

private theorem store_slot (holds : plan.Holds activation slots memory state) {slot : Nat}
    {place : Place} (isSlot : slots[slot]? = some place) (function : IR.FunctionId) (value : Int32) :
    Run.store plan.ir function (.slot (activation.below.length + slot)) value state =
      .ok () { state with
        stack := state.stack.setIfInBounds (activation.below.length + slot) value } :=
  if_pos (Array.getElem?_eq_some_iff.1 (getElem?_stack holds isSlot)).1

private theorem store_cell (fair : plan.Fair) (holds : plan.Holds activation slots memory state)
    {id : IR.GlobalId} {home : Home} {global : IR.Global} (isOwner : plan.owner id = some home)
    (isGlobal : plan.ir.globals[id]? = some global) {offset : Int}
    (inside : 0 ≤ offset ∧ offset < (Cells.ofContent global.content).size)
    (function : IR.FunctionId) (value : Int32) :
    ∃ state', Run.store plan.ir function (.global id offset) value state = .ok () state' ∧
      plan.Holds activation slots (memory.setCell home offset.toNat value) state' := by
  obtain ⟨cells, isCells, size, -⟩ := holds.globals id global isGlobal
  obtain ⟨found, isFound, notConstant⟩ := fair.changes id home isOwner
  obtain rfl := Option.some.inj (isFound.symm.trans isGlobal)
  rw [← size] at inside
  refine ⟨{ state with globals := state.globals.modify id (·.set offset.toNat value) }, ?_, ?_, ?_,
    holds.callers, ?_⟩
  · simp [Run.store, isCells, checkBounds_inside inside, isGlobal, notConstant]
  · refine holds.globals.setCell fair offset.toNat value isOwner fun other isOther => ?_
    obtain rfl := Option.some.inj (isOther.symm.trans isCells)
    omega
  · rw [map_slot_setCell]
    exact holds.stack
  · cases home <;> exact holds.console

theorem store_of_points (fair : plan.Fair) (nodup : slots.Nodup)
    (holds : plan.Holds activation slots memory state) {place : Place} {pointer : Pointer}
    (points : plan.Points activation slots place pointer) (function : IR.FunctionId)
    (value : Int32) :
    (∃ later state', Evaluation.write place value memory = .ok () later ∧
      Run.store plan.ir function pointer value state = .ok () state' ∧
      plan.Holds activation slots later state') ∨
    (Evaluation.write place value memory = .error .outOfBounds memory ∧ ∃ name offset,
      Run.store plan.ir function pointer value state =
        .error (.failed (.outOfBounds name offset (plan.ir.functionName function))) state) := by
  cases place with
  | global name =>
      cases pointer with
      | slot index => exact points.elim
      | global id offset =>
          obtain ⟨isOwner, rfl⟩ := points
          obtain ⟨global, isGlobal, -⟩ := fair.changes id _ isOwner
          have isOne := fair.single id name global isOwner isGlobal
          have inside : (0 : Int) ≤ 0 ∧ (0 : Int) < (Cells.ofContent global.content).size := by
            omega
          obtain ⟨state', stores, holds'⟩ :=
            store_cell fair holds isOwner isGlobal inside function value
          exact .inl ⟨_, state', rfl, stores, holds'⟩
  | element array length offset =>
      cases pointer with
      | slot index => exact points.elim
      | global id offset' =>
          obtain ⟨isOwner, rfl, global, isGlobal, rfl⟩ := points
          by_cases inside : 0 ≤ offset' ∧ offset' < (Cells.ofContent global.content).size
          · obtain ⟨state', stores, holds'⟩ :=
              store_cell fair holds isOwner isGlobal inside function value
            refine .inl ⟨_, state', ?_, stores, holds'⟩
            simp only [Evaluation.write, Evaluation.checkOffset, if_pos inside, pure_bind]
            rfl
          · refine .inr ⟨?_, plan.ir.globalName id, offset', ?_⟩
            · simp only [Evaluation.write, Evaluation.checkOffset, if_neg inside]
              rfl
            · obtain ⟨cells, isCells, size, -⟩ := holds.globals id global isGlobal
              rw [← size] at inside
              simp [Run.store, isCells, checkBounds_outside inside]
  | «local» name =>
      cases pointer with
      | global id offset => exact points.elim
      | slot index =>
          obtain ⟨slot, isSlot, rfl⟩ := points
          refine .inl ⟨_, _, rfl, store_slot holds isSlot function value, ?_⟩
          refine holds_setSlot holds nodup isSlot ?_ ?_ rfl rfl rfl
          · simp [Memory.slot, change]
          · intro other different
            cases other <;> simp_all [Memory.slot, change]
  | result =>
      cases pointer with
      | global id offset => exact points.elim
      | slot index =>
          obtain ⟨slot, isSlot, rfl⟩ := points
          refine .inl ⟨_, _, rfl, store_slot holds isSlot function value, ?_⟩
          refine holds_setSlot holds nodup isSlot rfl ?_ rfl rfl rfl
          intro other different
          cases other <;> simp_all [Memory.slot]

end

end MiniPascal
