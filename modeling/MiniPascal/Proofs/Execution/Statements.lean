import MiniPascal.Proofs.Execution.Sites

/-!
# Statements at a site

What assignments and loops do at a site, given what their parts do there.  A loop does what its rounds
do one behind another, however many there are.
-/

namespace MiniPascal

open IR (BlockId Operand)
open Machine (Config Frame Pointer State Word)
open Scene (Tracks)

theorem IR.Function.mem_definedRegisters {function : Function} {slot : Register}
    (isSlot : slot ∈ function.slots) : slot ∈ function.definedRegisters := by
  unfold slots at isSlot
  split at isSlot
  · rename_i entry isEntry
    refine List.mem_flatMap.2 ⟨entry, Array.mem_toList_iff.2 (Array.mem_of_getElem? isEntry), ?_⟩
    exact ((List.filter_sublist).filterMap _).subset isSlot
  · cases isSlot

namespace Direction

def within (direction : Direction) (current limit : Int32) : Bool :=
  match direction with
  | upward => current ≤ limit
  | downward => current ≥ limit

def move (direction : Direction) (current : Int32) : Int32 :=
  match direction with
  | upward => current + 1
  | downward => current - 1

end Direction

def Entry.IsSlot (entry : Entry) (slot : IR.Register) : Prop :=
  entry.shape = .integer ∧ entry.constant = none ∧ entry.storage = .address (.register slot)

instance (entry : Entry) (slot : IR.Register) : Decidable (entry.IsSlot slot) :=
  inferInstanceAs (Decidable (_ ∧ _ ∧ _))

namespace Site

variable {site : Site} {state state' : Lowering} {here : BlockId} {pending : List Nat}
  {before between after memory : State} {config : Config} {name : String} {shape : Shape}
  {pointer : Pointer} {value old : Int32}

/-! ### Storage -/

def pointer? (site : Site) : Operand → Option Pointer
  | .global id => some (.global id 0)
  | .register slot => some (.slot (site.frame.base + slot))
  | _ => none

structure Stores (site : Site) (name : String) (shape : Shape) (pointer : Pointer) : Prop where
  entry : ∃ entry operand, site.symbols.get? name = some entry ∧ entry.shape = shape ∧
    entry.constant = none ∧ entry.storage = .address operand ∧ site.pointer? operand = some pointer

abbrev IsVariable (site : Site) (name : String) (pointer : Pointer) : Prop :=
  site.Stores name .integer pointer

theorem Stores.unique {shape' : Shape} {other : Pointer} (stores : site.Stores name shape pointer)
    (also : site.Stores name shape' other) : other = pointer := by
  obtain ⟨entry, operand, isEntry, -, -, isStorage, isPointer⟩ := stores.entry
  obtain ⟨entry', operand', isEntry', -, -, isStorage', isPointer'⟩ := also.entry
  obtain rfl := Option.some.inj (isEntry.symm.trans isEntry')
  obtain rfl := Storage.address.inj (isStorage.symm.trans isStorage')
  exact Option.some.inj (isPointer'.symm.trans isPointer)

theorem isVariable_of_isSlot {entry : Entry} {slot : IR.Register}
    (isEntry : site.symbols.get? name = some entry) (isSlot : entry.IsSlot slot) :
    site.IsVariable name (.slot (site.frame.base + slot)) :=
  ⟨entry, .register slot, isEntry, isSlot.1, isSlot.2.1, isSlot.2.2, rfl⟩

variable (site) in
theorem slot_lt {slot : IR.Register} (isSlot : slot ∈ site.entered.slots) : slot < site.slots := by
  obtain ⟨function, isFunction, growing⟩ := site.ready.function
  rw [site.ready.slots isFunction] at isSlot
  rw [slots, IR.Module.registers_of_function isFunction]
  exact List.mem_range.1 (growing.registers.mem_iff.1 (IR.Function.mem_definedRegisters isSlot))

variable (site) in
theorem isAddress_of_get? {entry : Entry} {operand : Operand}
    (isEntry : site.symbols.get? name = some entry) (isStorage : entry.storage = .address operand) :
    operand.IsAddress site.entered.builder.ir site.entered.slots := by
  have sound := site.ready.sound.get? isEntry
  simpa only [Entry.Sound, isStorage] using sound

theorem exists_stores {entry : Entry} (isEntry : site.symbols.get? name = some entry)
    (notCallable : ∀ parameters returnsValue, entry.shape ≠ .callable parameters returnsValue)
    (notConstant : entry.constant = none) : ∃ pointer, site.Stores name entry.shape pointer := by
  have sound := site.ready.sound.get? isEntry
  unfold Entry.Sound at sound
  split at sound
  · rename_i operand isStorage
    obtain ⟨pointer, isPointer⟩ : ∃ pointer, site.pointer? operand = some pointer := by
      cases operand with
      | global | register => exact ⟨_, rfl⟩
      | _ => exact sound.elim
    exact ⟨pointer, entry, operand, isEntry, rfl, notConstant, isStorage, isPointer⟩
  · obtain ⟨function, -, -, isShape⟩ := sound
    exact absurd isShape (notCallable _ _)
  · exact absurd sound (notCallable _ _)

theorem Stores.global {id : IR.GlobalId} {offset : Int}
    (stores : site.Stores name shape (.global id offset)) :
    offset = 0 ∧ ∃ entry global, site.symbols.get? name = some entry ∧ entry.shape = shape ∧
      entry.constant = none ∧ entry.global? = some id ∧ site.ir.globals[id]? = some global ∧
      entry.Suits global := by
  obtain ⟨entry, operand, isEntry, isShape, notConstant, isStorage, isPointer⟩ := stores.entry
  cases operand with
  | global id' =>
      obtain ⟨rfl, rfl⟩ : id' = id ∧ 0 = offset := by simpa [pointer?] using isPointer
      have isId : entry.global? = some id' := by simp [Entry.global?, isStorage]
      have housed := site.houses.housed_of_get? isEntry (by simp [isStorage])
      obtain ⟨global, isGlobal, suits⟩ := housed.global id' isId
      exact ⟨rfl, entry, global, isEntry, isShape, notConstant, isId,
        IR.Module.getElem?_of_part site.part isGlobal, suits⟩
  | _ => simp [pointer?] at isPointer

theorem Stores.writable (stores : site.Stores name shape pointer) : pointer.Writable site.ir := by
  cases pointer with
  | slot index => trivial
  | global id offset =>
      obtain ⟨-, entry, global, -, -, notConstant, -, isGlobal, suits⟩ := stores.global
      intro found isFound
      obtain rfl := Option.some.inj (isGlobal.symm.trans isFound)
      rw [suits.1, notConstant]
      rfl

theorem Stores.exists_value (isVariable : site.IsVariable name pointer) (sees : site.Sees memory) :
    ∃ value, memory.value? pointer = some value := by
  cases pointer with
  | slot index =>
      obtain ⟨entry, operand, isEntry, -, -, isStorage, isPointer⟩ := isVariable.entry
      have isAddress := site.isAddress_of_get? isEntry isStorage
      cases operand with
      | register slot =>
          obtain rfl : site.frame.base + slot = index := by simpa [pointer?] using isPointer
          have inside : site.frame.base + slot < memory.stack.size :=
            Nat.lt_of_lt_of_le (Nat.add_lt_add_left (site.slot_lt isAddress) _) sees.stack
          exact ⟨_, Array.getElem?_eq_getElem inside⟩
      | _ => simp [pointer?] at isPointer
  | global id offset =>
      obtain ⟨rfl, entry, global, -, isShape, -, -, isGlobal, suits⟩ := isVariable.global
      obtain ⟨cells, isCells, size⟩ := sees.globals.cells isGlobal
      have isContent := suits.2
      rw [isShape] at isContent
      rw [isContent] at size
      have isOne : cells.size = 1 := size
      exact ⟨cells.get 0, by simp [State.value?, isCells, isOne]⟩

/-! ### Names -/

theorem ensures_tracks {α : Type} {action : Lower α} {known done : α → Lowering → Prop}
    (yields : Ensures action (fun a state' => state'.Ready here pending ∧ known a state') state)
    (straight : action.IsStraight) (does : Ensures action done state) :
    Ensures action (fun a state' =>
      Tracks state here pending state' ∧ known a state' ∧ done a state') state := by
  refine ((yields.and (straight state)).and does).mono ?_
  rintro a state' ⟨⟨⟨ready, isKnown⟩, straight⟩, isDone⟩
  exact ⟨⟨ready, straight⟩, isKnown, isDone⟩

abbrev Points (site : Site) (action : Lower Operand) (before : State) (pointer : Pointer)
    (after : State) : Prop :=
  site.Carries (fun state here operand => site.Reads state here operand (.pointer pointer)) action
    before after

abbrev Tests (site : Site) (action : Lower Operand) (before : State) (isTrue : Bool)
    (after : State) : Prop :=
  site.Carries (fun state here operand => site.Reads state here operand (.int (truth isTrue))) action
    before after

theorem ensures_operands {β : Type} {first second : Lower Operand} {rest : Operand → Operand → Lower β}
    {post : β → Lowering → Prop} {word word' : Word} (yields : Lower.Yields first)
    (straight : first.IsStraight)
    (carries : site.Carries (fun state here operand => site.Reads state here operand word) first
      before between)
    (yields' : Lower.Yields second) (straight' : second.IsStraight)
    (carries' : site.Carries (fun state here operand => site.Reads state here operand word') second
      between after)
    (ready : state.Ready here pending) (same : state.symbols = site.symbols)
    (goesOn : ∀ operand operand' state₂, Tracks state here pending state₂ →
      state₂.Has here operand' → (state₂.builder.ir.Part here.function site.ir → ∀ ⦃config⦄,
        site.Stands state here before config → config.GetsTo site.ir site.limits fun last =>
          site.Reaches state here config state₂ after last ∧
            site.Reads state₂ here operand word last.frame ∧
            site.Reads state₂ here operand' word' last.frame) →
        Ensures (rest operand operand') post state₂) :
    Ensures (do
      let operand ← first
      let operand' ← second
      rest operand operand') post state := by
  rw [ensures_bind]
  refine (ensures_tracks (yields ready) straight (carries ready same)).mono ?_
  rintro operand state₁ ⟨tracks₁, -, gets₁⟩
  rw [ensures_bind]
  refine (ensures_tracks (yields' tracks₁.ready) straight'
    (carries' tracks₁.ready (tracks₁.straight.symbols.trans same))).mono ?_
  rintro operand' state₂ ⟨tracks₂, has', gets₂⟩
  have le₁ := tracks₁.registers ready
  have le₂ := tracks₂.registers tracks₁.ready
  refine goesOn operand operand' state₂ (tracks₁.trans tracks₂) has' fun part config stands => ?_
  refine (gets₁ (tracks₂.part tracks₁.ready part) stands).bind ?_
  rintro config₁ ⟨reaches₁, reads₁⟩
  refine (gets₂ part reaches₁.stands).mono ?_
  rintro config₂ ⟨reaches₂, reads₂⟩
  exact ⟨reaches₁.trans reaches₂ le₁, reads₁.keeps reaches₂.keeps le₂, reads₂⟩

theorem Stands.reads_address (stands : site.Stands state here memory config) {operand : Operand}
    (isAddress : operand.IsAddress site.entered.builder.ir site.entered.slots)
    (isPointer : site.pointer? operand = some pointer) :
    site.Reads state here operand (.pointer pointer) config.frame := by
  cases operand with
  | global id =>
      obtain rfl := Option.some.inj isPointer
      exact ⟨rfl, trivial⟩
  | register slot =>
      obtain rfl := Option.some.inj isPointer
      have isSlot := site.slot_lt isAddress
      refine ⟨?_, Nat.lt_of_lt_of_le isSlot stands.room⟩
      simp only [Frame.word, stands.keeps.registers slot isSlot, site.opened slot isSlot]
  | _ => exact isAddress.elim

theorem points_address (stores : site.Stores name shape pointer) (position : Position)
    (memory : State) : site.Points (Lower.address name position) memory pointer memory := by
  intro state here pending ready same
  refine Lower.ensures_address fun entry operand isEntry isStorage part config stands => ?_
  obtain ⟨found, other, isFound, -, -, isStored, isPointer⟩ := stores.entry
  rw [same] at isEntry
  obtain rfl := Option.some.inj (isEntry.symm.trans isFound)
  obtain rfl := Storage.address.inj (isStorage.symm.trans isStored)
  exact .here ⟨.refl stands, stands.reads_address (site.isAddress_of_get? isFound isStorage) isPointer⟩

theorem points_ident (isVariable : site.IsVariable name pointer) (position : Position)
    (memory : State) :
    site.Points (Lower.pointer (.ident name position)) memory pointer memory := by
  intro state here pending ready same
  rw [Lower.pointer, Lower.namePointer, ensures_bind]
  refine Lower.ensures_declared fun entry isEntry => ?_
  obtain ⟨found, -, isFound, isShape, -⟩ := isVariable.entry
  rw [same] at isEntry
  obtain rfl := Option.some.inj (isEntry.symm.trans isFound)
  rw [isShape]
  exact points_address isVariable position memory ready same

theorem gives_number (value : Int32) (position : Position) (memory : State) :
    site.Gives (.number value position) memory value memory := by
  intro state here pending ready same
  rw [Lower.expression]
  exact ensures_pure.2 fun part config stands => .here ⟨.refl stands, rfl, trivial⟩

theorem reaches_load {address : Lower Operand} (yields : Lower.Yields address)
    (straight : address.IsStraight) (points : site.Points address before pointer after)
    (ready : state.Ready here pending) (same : state.symbols = site.symbols) :
    Ensures (do Lower.build (IR.Build.load (← address))) (fun result state' =>
      ∃ (last : Lowering) (operand : Operand), here.function = site.frame.function ∧
        result = .register (last.builder.ir.registers here.function) ∧
        last.Emits here (.load (last.builder.ir.registers here.function) operand) 1 state' ∧
        state.builder.ir.registers here.function ≤ last.builder.ir.registers here.function ∧
        (state'.builder.ir.Part here.function site.ir → ∀ ⦃config⦄,
          site.Stands state here before config → config.GetsTo site.ir site.limits fun config' =>
            site.Reaches state here config last after config' ∧
              site.Reads last here operand (.pointer pointer) config'.frame)) state := by
  rw [ensures_bind]
  refine (ensures_tracks (yields ready) straight (points ready same)).mono ?_
  rintro operand state₁ ⟨tracks₁, -, gets₁⟩
  refine ((tracks₁.ready.emitsValue _).and
    (Lower.isStraight_build (IR.Build.isStraight_emitValue _) state₁)).mono ?_
  rintro _ state₂ ⟨⟨rfl, emits₂⟩, straight₂⟩
  exact ⟨state₁, operand, function_eq ready same, rfl, emits₂, tracks₁.registers ready,
    fun part config stands => gets₁ (straight₂.part tracks₁.ready.insertPoint part) stands⟩

theorem gives_load {address : Lower Operand} (yields : Lower.Yields address)
    (straight : address.IsStraight) (points : site.Points address before pointer after)
    (isValue : after.value? pointer = some value) :
    site.Carries (fun state here operand => site.Reads state here operand (.int value))
      (do Lower.build (IR.Build.load (← address))) before after := by
  intro state here pending ready same
  refine (reaches_load yields straight points ready same).mono ?_
  rintro _ state' ⟨last, operand, isHere, rfl, emits, le, gets⟩ part config stands
  refine (gets part stands).bind ?_
  rintro config₁ ⟨reaches₁, reads₁⟩
  refine (getsTo_loaded emits isHere part reaches₁.stands reads₁ isValue).mono ?_
  rintro config₂ ⟨reaches₂, reads₂⟩
  exact ⟨reaches₁.trans reaches₂ le, reads₂⟩

theorem gives_ident (isVariable : site.IsVariable name pointer)
    (isValue : memory.value? pointer = some value) (position : Position) :
    site.Gives (.ident name position) memory value memory := by
  intro state here pending ready same
  obtain ⟨entry, -, isEntry, isShape, -⟩ := isVariable.entry
  rw [← same] at isEntry
  have isName : state.symbols.valueName (state.symbols.size + 1) name = name := by
    obtain ⟨shape, storage, constant, position⟩ := entry
    obtain rfl : shape = .integer := isShape
    simp only [SymbolTable.valueName, isEntry]
  simp only [Lower.expression, Lower.nameValue, ensures_bind, ensures_get, isName]
  rw [Lower.plainValue, ensures_bind]
  refine Lower.ensures_declared fun found isFound => ?_
  obtain rfl := Option.some.inj (isEntry.symm.trans isFound)
  rw [isShape]
  exact gives_load (fun _ _ _ ready => Lower.ready_address ready name position)
    (Lower.isStraight_address name position)
    (points_address isVariable position memory) isValue ready same

/-! ### Assignments -/

theorem reaches_store {assignment : Assignment}
    (points : site.Points (Lower.pointer assignment.target) before pointer between)
    (gives : site.Gives assignment.value between value after) (ready : state.Ready here pending)
    (same : state.symbols = site.symbols) :
    Ensures (Lower.assign assignment) (fun _ state' =>
      ∃ (last : Lowering) (source target : Operand), last.Emits here (.store source target) 0 state' ∧
        state.builder.ir.registers here.function ≤ last.builder.ir.registers here.function ∧
        (state'.builder.ir.Part here.function site.ir → ∀ ⦃config⦄,
          site.Stands state here before config → config.GetsTo site.ir site.limits fun config' =>
            site.Reaches state here config last after config' ∧
              site.Reads last here source (.int value) config'.frame ∧
              site.Reads last here target (.pointer pointer) config'.frame)) state := by
  unfold Lower.assign
  dsimp only
  split
  · simp
  rw [ensures_bind]
  refine Lower.ensures_ask fun _ _ => ?_
  refine ensures_operands (Lower.yields_pointer assignment.target) (Lower.isStraight_pointer _) points
    (Lower.yields_expression assignment.value) (Lower.isStraight_expression _ _) gives ready same ?_
  intro target source state₁ tracks₁ _ gets₁
  refine ((tracks₁.ready.emits _).and
    (Lower.isStraight_build (IR.Build.isStraight_emit _) state₁)).mono ?_
  rintro _ state₂ ⟨emits₂, straight₂⟩
  refine ⟨state₁, source, target, emits₂, tracks₁.registers ready, fun part config stands => ?_⟩
  refine (gets₁ (straight₂.part tracks₁.ready.insertPoint part) stands).mono ?_
  rintro config₁ ⟨reaches₁, reads, readsValue⟩
  exact ⟨reaches₁, readsValue, reads⟩

theorem carries_assign {assignment : Assignment}
    (points : site.Points (Lower.pointer assignment.target) before pointer between)
    (gives : site.Gives assignment.value between value after)
    (isThere : after.value? pointer = some old) (writable : pointer.Writable site.ir) :
    site.Carries (fun _ _ _ _ => True) (Lower.assign assignment) before
      (after.write pointer value) := by
  intro state here pending ready same
  refine (reaches_store points gives ready same).mono ?_
  rintro _ state' ⟨last, source, target, emits, le, gets⟩ part config stands
  refine (gets part stands).bind ?_
  rintro config₁ ⟨reaches₁, readsValue, reads⟩
  refine (getsTo_stored emits part reaches₁.stands readsValue reads isThere writable).mono ?_
  exact fun config₂ reaches₂ => ⟨reaches₁.trans reaches₂ le, trivial⟩

/-! ### Counters -/

theorem tests_withinLimit {counter limit : Expr} {last : Int32} (direction : Direction)
    (limitGives : site.Gives limit before last between)
    (counterGives : site.Gives counter between value after) :
    site.Tests (Lower.withinLimit counter direction limit) before (direction.within value last)
      after := by
  intro state here pending ready same
  unfold Lower.withinLimit
  refine ensures_operands (Lower.yields_expression limit) (Lower.isStraight_expression _ _) limitGives
    (Lower.yields_expression counter) (Lower.isStraight_expression _ _) counterGives ready same ?_
  intro bound current state₁ tracks₁ _ gets₁
  have compares (predicate : IR.Predicate) :
      Ensures (Lower.build (IR.Build.compare predicate current bound)) (fun operand state' =>
        state'.builder.ir.Part here.function site.ir → ∀ ⦃config⦄,
          site.Stands state here before config →
            config.GetsTo site.ir site.limits fun last' =>
              site.Reaches state here config state' after last' ∧
                site.Reads state' here operand (.int (truth (predicate.evaluate value last)))
                  last'.frame) state₁ := by
    refine ((site.getsTo_compare tracks₁.ready (tracks₁.straight.symbols.trans same) predicate current
      bound).and (Lower.isStraight_build (IR.Build.isStraight_compare _ _ _) state₁)).mono ?_
    rintro operand state₂ ⟨gets₂, straight₂⟩ part config stands
    refine (gets₁ (straight₂.part tracks₁.ready.insertPoint part) stands).bind ?_
    rintro config₁ ⟨reaches₁, readsBound, readsCurrent⟩
    refine (gets₂ part reaches₁.stands readsCurrent readsBound).mono ?_
    rintro config₂ ⟨reaches₂, reads⟩
    exact ⟨reaches₁.trans reaches₂ (tracks₁.registers ready), reads⟩
  cases direction with
  | upward => exact compares .lessEqual
  | downward => exact compares .greaterEqual

theorem carries_advance {counter : Expr} (direction : Direction)
    (points : site.Points (Lower.pointer counter) before pointer between)
    (gives : site.Gives counter between value after) (isThere : after.value? pointer = some old)
    (writable : pointer.Writable site.ir) :
    site.Carries (fun _ _ _ _ => True) (Lower.advanceCounter counter direction) before
      (after.write pointer (direction.move value)) := by
  intro state here pending ready same
  unfold Lower.advanceCounter
  refine ensures_operands (Lower.yields_pointer counter) (Lower.isStraight_pointer _) points
    (Lower.yields_expression counter) (Lower.isStraight_expression _ _) gives ready same ?_
  intro target current state₁ tracks₁ hasCurrent gets₁
  have moves (op : IR.ArithOp) (isMove : op.evaluate? value 1 = some (direction.move value)) :
      Ensures (do
        let next ← Lower.build (IR.Build.arith op current (.int 1))
        Lower.build (IR.Build.store next target)) (fun _ state' =>
          state'.builder.ir.Part here.function site.ir → ∀ ⦃config⦄,
            site.Stands state here before config →
              config.GetsTo site.ir site.limits fun last =>
                site.Reaches state here config state'
                  (after.write pointer (direction.move value)) last ∧ True) state₁ := by
    rw [ensures_bind]
    refine (ensures_tracks (Lower.ready_arith tracks₁.ready op hasCurrent (Lower.has_int 1))
      (Lower.isStraight_build (IR.Build.isStraight_arith _ _ _))
      (site.getsTo_arith tracks₁.ready (tracks₁.straight.symbols.trans same) op current
        (.int 1))).mono ?_
    rintro next state₂ ⟨tracks₂, -, gets₂⟩
    have le₁ := tracks₁.registers ready
    have le₂ := tracks₂.registers tracks₁.ready
    refine ((tracks₂.ready.emits _).and
      (Lower.isStraight_build (IR.Build.isStraight_emit _) state₂)).mono ?_
    rintro _ state₃ ⟨emits₃, straight₃⟩ part config stands
    have part₂ := straight₃.part tracks₂.ready.insertPoint part
    refine (gets₁ (tracks₂.part tracks₁.ready part₂) stands).bind ?_
    rintro config₁ ⟨reaches₁, reads, readsCurrent⟩
    refine (gets₂ part₂ reaches₁.stands readsCurrent ⟨rfl, trivial⟩ isMove).bind ?_
    rintro config₂ ⟨reaches₂, readsNext⟩
    refine (getsTo_stored emits₃ part reaches₂.stands readsNext (reads.keeps reaches₂.keeps le₂)
      isThere writable).mono fun config₃ reaches₃ => ⟨?_, trivial⟩
    exact (reaches₁.trans reaches₂ le₁).trans reaches₃ (Nat.le_trans le₁ le₂)
  cases direction with
  | upward => exact moves .add rfl
  | downward => exact moves .sub rfl

/-! ### Lists -/

variable {loop : Option LoopId} {next : Nat}

theorem does_none (site : Site) (loop : Option LoopId) (next : Nat) (memory : State) :
    site.Does loop next (return none) memory memory := by
  intro state here pending ready same knows
  exact ensures_pure.2 fun part config stands =>
    .here ⟨rfl, here, ready.insertPoint, rfl, stands⟩

theorem does_straight {action : Lower Unit}
    (carries : site.Carries (fun _ _ _ _ => True) action before after)
    (isReady : ∀ ⦃state here pending⦄, state.Ready here pending →
      Ensures action (fun _ state' => state'.Ready here pending) state) :
    site.Does loop next (do
      action
      return none) before after := by
  intro state here pending ready same knows
  rw [ensures_bind]
  refine ((isReady ready).and (carries ready same)).mono fun _ state' ⟨ready', gets⟩ => ?_
  refine ensures_pure.2 fun part config stands => (gets part stands).mono fun last reaches => ?_
  exact ⟨rfl, here, ready'.insertPoint, rfl, reaches.1.stands⟩

theorem does_cons {first : Statement} {others : List Statement}
    (areActions : Statement.AreActions loop next (first :: others))
    (doesFirst : site.Does loop next (Lower.statement first) before between)
    (doesOthers : site.Does loop (next + first.loops) (Lower.statements others) between after) :
    site.Does loop next (Lower.statements (first :: others)) before after := by
  obtain ⟨isAction, areOthers⟩ := areActions
  intro state here pending ready same knows
  rw [Lower.statements, ensures_bind]
  refine ((Lower.runs_statement first isAction ready knows).and (doesFirst ready same knows)).mono ?_
  rintro ending state₁ ⟨goes₁, gets₁⟩
  cases ending with
  | some ending =>
      refine ensures_pure.2 fun part config stands => (gets₁ part stands).bind ?_
      rintro _ ⟨isNone, -⟩
      cases isNone
  | none =>
      obtain ⟨there, leads, ready₁⟩ := goes₁.continues rfl
      have knows₁ := knows.moves ready.isSome goes₁.moves rfl (Nat.le_add_right next first.loops)
      have same₁ := goes₁.moves.symbols.trans same
      rw [← leads.same] at knows₁
      refine ((Lower.runs_statements others areOthers ready₁ knows₁).and
        (doesOthers ready₁ same₁ knows₁)).mono ?_
      rintro ending state₂ ⟨goes₂, gets₂⟩ part config stands
      rw [← leads.same] at part
      have part₁ := goes₂.moves.part rfl part
      rw [leads.same] at part₁
      refine (gets₁ part₁ stands).bind ?_
      rintro config₁ ⟨-, other, isOther, -, stands₁⟩
      obtain rfl := Option.some.inj (isOther.symm.trans ready₁.insertPoint)
      refine (gets₂ part stands₁).mono ?_
      rintro config₂ ⟨isNone, last, isLast, same₂, stands₂⟩
      exact ⟨isNone, last, isLast, same₂.trans leads.same, stands₂⟩

/-! ### Loops -/

theorem getsTo_intoBlock {action : Lower (Option Ending)}
    (does : site.Does loop next action before after)
    (runs : Lower.Runs loop next action) {block target : BlockId}
    (sound : state.Sound (block.index :: pending)) (isCurrent : state.current? = some block.function)
    (same : state.symbols = site.symbols) (knows : state.KnowsExit block.function loop next)
    (isEmpty : state.IsEmpty block)
    (room : site.slots ≤ state.builder.ir.registers block.function) :
    Ensures (Lower.intoBlock block target action) (fun _ state' =>
      state'.builder.ir.Part block.function site.ir → ∀ ⦃config⦄,
        site.Enters block before config →
          config.GetsTo site.ir site.limits (site.Enters target after)) state := by
  have ready := sound.setInsertPoint isCurrent
  have start {config : Config} (enters : site.Enters block before config) :
      site.Stands { state with builder := { state.builder with insertPoint := some block } } block
        before config := stands_of_enters enters isEmpty.code room
  unfold Lower.intoBlock
  rw [ensures_bind, Lower.ensures_build, ensures_bind]
  refine ((runs ready knows).and (does ready same knows)).mono ?_
  rintro ending state₁ ⟨goes, gets₁⟩
  cases ending with
  | some ending =>
      refine ensures_pure.2 fun part config enters => (gets₁ part (start enters)).bind ?_
      rintro _ ⟨isNone, -⟩
      cases isNone
  | none =>
      obtain ⟨there, leads, ready₁⟩ := goes.continues rfl
      refine ((site.getsTo_jump ready₁ target).and
        (Lower.isStraight_build (IR.Build.isStraight_emit _) state₁)).mono ?_
      rintro _ state₂ ⟨jumps, straight₂⟩ part config enters
      rw [← leads.same] at part
      have part₁ := straight₂.part ready₁.insertPoint part
      rw [leads.same] at part₁
      refine (gets₁ part₁ (start enters)).bind ?_
      rintro config₁ ⟨-, other, isOther, -, stands⟩
      obtain rfl := Option.some.inj (isOther.symm.trans ready₁.insertPoint)
      exact jumps part stands

/-- Rounds of a loop one behind another: each begins with the test, which fails in the end. -/
inductive Turns (site : Site) (test : Lower Operand) (next : Nat) (body : Lower (Option Ending)) :
    State → State → Prop
  | stop {before after : State} (fails : site.Tests test before false after) :
      Turns site test next body before after
  | turn {before tested between after : State} (holds : site.Tests test before true tested)
      (does : site.Does (some ⟨next⟩) (next + 1) body tested between)
      (others : Turns site test next body between after) : Turns site test next body before after

theorem does_loop {test : Lower Operand} {body : Lower (Option Ending)}
    (turns : site.Turns test next body before after) (yields : Lower.Yields test)
    (straight : test.IsStraight) (runs : Lower.Runs (some ⟨next⟩) (next + 1) body)
    (ready : state.Ready here pending) (same : state.symbols = site.symbols) :
    Ensures (Lower.loop here.function ⟨next⟩ test body) (fun _ state' =>
      state'.builder.ir.Part here.function site.ir → ∀ ⦃config⦄,
        site.Stands state here before config →
          config.GetsTo site.ir site.limits fun last =>
            ∃ there, state'.builder.insertPoint = some there ∧ there.function = here.function ∧
              site.Stands state' there after last) state := by
  refine Lower.ensures_loop ready yields straight runs ?_
  intro truth testBlock bodyBlock behind opened jumped tested branched last rounds part config stands
  have emptyTest := rounds.emptyTest
  have emptyBody := rounds.emptyBody
  have emptyBehind := rounds.emptyAfter
  have sameTest := rounds.sameTest
  have sameBody := rounds.sameBody
  have sameBehind := rounds.sameAfter
  have movesTest := rounds.movesTest
  obtain ⟨_, testIndex⟩ := testBlock
  obtain ⟨_, bodyIndex⟩ := bodyBlock
  obtain ⟨_, behindIndex⟩ := behind
  obtain rfl := sameTest
  obtain rfl := sameBody
  obtain rfl := sameBehind
  -- the code of each part is there in the end
  have partBranched : branched.builder.ir.Part here.function site.ir := rounds.partLast.trans part
  have partTested : tested.builder.ir.Part here.function site.ir :=
    rounds.partBranched.trans partBranched
  have partJumped : jumped.builder.ir.Part here.function site.ir :=
    rounds.partTested.trans partTested
  have sameJumped := (rounds.movesJump ready).symbols.trans same
  have sameBranched := movesTest.symbols.trans sameJumped
  have roomOpened := Nat.le_trans stands.room (rounds.partOpened ready).registers
  have roomJumped := Nat.le_trans roomOpened rounds.partJumped.registers
  have roomBranched := Nat.le_trans roomJumped (rounds.partTested.trans rounds.partBranched).registers
  have roomLast := Nat.le_trans roomBranched rounds.partLast.registers
  have isCurrent : branched.current? = some here.function :=
    (movesTest.current.trans (rounds.movesJump ready).current).trans ready.isCurrent
  have tests {before after : State} {isTrue : Bool} (tests : site.Tests test before isTrue after)
      {config : Config} (enters : site.Enters ⟨here.function, testIndex⟩ before config) :
      config.GetsTo site.ir site.limits (site.Enters
        (if isTrue then ⟨here.function, bodyIndex⟩ else ⟨here.function, behindIndex⟩) after) := by
    refine (tests rounds.readyTest sameJumped truth tested rounds.isTest partTested
      (stands_of_enters enters emptyTest.code roomJumped)).bind fun config₁ ⟨reaches₁, reads₁⟩ => ?_
    exact site.getsTo_branch rounds.ready truth _ _ () branched rounds.isBranch partBranched
      reaches₁.stands reads₁
  have turning {before after : State} (turns : site.Turns test next body before after) :
      ∀ {config : Config}, site.Enters ⟨here.function, testIndex⟩ before config →
        config.GetsTo site.ir site.limits (site.Enters ⟨here.function, behindIndex⟩ after) := by
    induction turns with
    | stop ends => exact tests ends
    | turn goesOn does _ ih =>
        intro config enters
        refine (tests goesOn enters).bind fun config₁ enters₁ => ?_
        refine (getsTo_intoBlock does runs rounds.readyBody isCurrent sameBranched rounds.knows
          emptyBody roomBranched () last rounds.isBody part enters₁).bind fun config₂ enters₂ => ?_
        exact ih enters₂
  have isOpened : site.Stands opened here before config :=
    ⟨⟨stands.isAt.block, by rw [rounds.adds.code]; exact stands.isAt.next⟩, stands.keeps, roomOpened,
      stands.holds⟩
  refine (site.getsTo_jump rounds.adds.ready _ () jumped rounds.isJump partJumped isOpened).bind ?_
  intro config₁ enters₁
  refine (turning turns enters₁).mono fun config₂ enters₂ => ?_
  exact ⟨_, rfl, rfl, stands_of_enters enters₂ emptyBehind.code roomLast⟩

theorem does_advance {body : Lower (Option Ending)} (runs : Lower.Runs loop next body)
    (does : site.Does loop next body before between) {counter : Expr} {direction : Direction}
    (carries : site.Carries (fun _ _ _ _ => True) (Lower.advanceCounter counter direction) between
      after) :
    site.Does loop next (do
      let ending ← body
      if ending.isNone then Lower.advanceCounter counter direction
      return ending) before after := by
  intro state here pending ready same knows
  rw [ensures_bind]
  refine ((runs ready knows).and (does ready same knows)).mono ?_
  rintro ending state₁ ⟨goes, gets₁⟩
  cases ending with
  | some ending =>
      simp only [Option.isNone_some, Bool.false_eq_true, if_false]
      refine ensures_pure.2 fun part config stands => (gets₁ part stands).bind ?_
      rintro _ ⟨isNone, -⟩
      cases isNone
  | none =>
      obtain ⟨there, leads, ready₁⟩ := goes.continues rfl
      simp only [Option.isNone_none, if_true, ensures_bind]
      refine (((Lower.ready_advanceCounter ready₁ counter direction).and
        (Lower.isStraight_advanceCounter counter direction state₁)).and
        (carries ready₁ (goes.moves.symbols.trans same))).mono ?_
      rintro _ state₂ ⟨⟨ready₂, straight₂⟩, gets₂⟩
      refine ensures_pure.2 fun part config stands => ?_
      rw [← leads.same] at part
      have part₁ := straight₂.part ready₁.insertPoint part
      rw [leads.same] at part₁
      refine (gets₁ part₁ stands).bind ?_
      rintro config₁ ⟨-, other, isOther, -, stands₁⟩
      obtain rfl := Option.some.inj (isOther.symm.trans ready₁.insertPoint)
      refine (gets₂ part stands₁).mono ?_
      rintro config₂ ⟨reaches₂, -⟩
      exact ⟨rfl, other, ready₂.insertPoint, leads.same, reaches₂.stands⟩

theorem does_forLoop {initial : Assignment} {direction : Direction} {limit : Expr}
    {position : Position} {body : Statement} (isBody : body.IsAction (some ⟨next⟩) (next + 1))
    (assigns : site.Carries (fun _ _ _ _ => True) (Lower.assign initial) before between)
    (turns : site.Turns (Lower.withinLimit initial.target direction limit) next (do
      let ending ← Lower.statement body
      if ending.isNone then Lower.advanceCounter initial.target direction
      return ending) between after) :
    site.Does loop next (Lower.statement (.forLoop ⟨next⟩ initial direction limit body position))
      before after := by
  intro state here pending ready same knows
  have runs := Lower.runs_advance (Lower.runs_statement body isBody) initial.target direction
  have yields := Lower.ready_withinLimit initial.target direction limit
  have straight := Lower.isStraight_withinLimit initial.target direction limit
  rw [Lower.statement]
  unfold Lower.forLoop
  simp only [ensures_bind]
  refine Lower.ensures_currentFunction ready .forLoop position ?_
  refine (((Lower.ready_assign ready initial).and (Lower.isStraight_assign initial state)).and
    (assigns ready same)).mono ?_
  rintro _ state₁ ⟨⟨ready₁, straight₁⟩, gets₁⟩
  refine ((does_loop turns yields straight runs ready₁ (straight₁.symbols.trans same)).and
    (Lower.goes_loop ready₁ yields straight runs)).mono ?_
  rintro _ state₂ ⟨gets₂, goes⟩
  refine ensures_pure.2 fun part config stands => ?_
  refine (gets₁ (goes.moves.part rfl part) stands).bind ?_
  rintro config₁ ⟨reaches₁, -⟩
  exact (gets₂ part reaches₁.stands).mono fun config₂ holds => ⟨rfl, holds⟩

end Site

end MiniPascal
