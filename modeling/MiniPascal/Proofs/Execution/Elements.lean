import MiniPascal.Proofs.Execution.Calls
import MiniPascal.Proofs.Simulation.Programs

/-!
# Elements of arrays

An element is found at the distance of its index from the lower bound, which is computed in 32 bits.
The machine compares the distance with the length of the array, so that an index that is out of
bounds is always refused.  So is one whose distance from the lower bound is no 32-bit integer, although
the array may have it.
-/

namespace MiniPascal

open IR (BlockId Operand)
open Machine (Cells Config Pointer RunError State)

/-- An array with these bounds has an element at the index, less than 2 ^ 31 behind the first. -/
def HasElement (low high index : Int32) : Prop :=
  low ≤ index ∧ index ≤ high ∧ index.toInt - low.toInt < 2147483648

instance (low high index : Int32) : Decidable (HasElement low high index) :=
  inferInstanceAs (Decidable (_ ∧ _ ∧ _))

section

variable {low high index : Int32}

/-- The distance that is computed lies in the array for the elements that can be reached. -/
theorem inside_iff : (0 ≤ (index - low).toInt ∧
    (index - low).toInt < SymbolTable.arrayLength low high) ↔ HasElement low high index := by
  have lowBounds := And.intro low.le_toInt low.toInt_lt
  have highBounds := And.intro high.le_toInt high.toInt_lt
  have indexBounds := And.intro index.le_toInt index.toInt_lt
  rw [HasElement, Int32.le_iff_toInt_le, Int32.le_iff_toInt_le, SymbolTable.arrayLength,
    Int32.toInt_sub, Int.bmod_def]
  omega

theorem toInt_distance (has : HasElement low high index) :
    (index - low).toInt = index.toInt - low.toInt := by
  obtain ⟨notBelow, -, isNear⟩ := has
  rw [Int32.le_iff_toInt_le] at notBelow
  rw [Int32.toInt_sub]
  exact Int.bmod_eq_of_le (by simp; omega) (by simp; omega)

end

namespace Site

variable {site : Site} {state state' : Lowering} {here : BlockId} {pending : List Nat}
  {before after memory : State} {config : Config} {name : String} {low high i value : Int32}
  {id : IR.GlobalId} {index : Expr} {offset : Int} {cells : Cells}

/-! ### Failures -/

def beyond (site : Site) (id : IR.GlobalId) (offset : Int) : RunError :=
  .outOfBounds (site.ir.globalName id) offset (site.ir.functionName site.frame.function)

theorem Stands.globals (stands : site.Stands state here memory config) :
    config.state.counted.globals = memory.globals := by
  rw [← stands.holds]
  rfl

theorem throws_loaded {result : IR.Register} {operand : Operand}
    (emits : state.Emits here (.load result operand) 1 state')
    (part : state'.builder.ir.Part here.function site.ir)
    (stands : site.Stands state here memory config)
    (reads : site.Reads state here operand (.pointer (.global id offset)) config.frame)
    (isCells : memory.globals[id]? = some cells) (outside : ¬ (0 ≤ offset ∧ offset < cells.size)) :
    ∃ failed, config.Throws site.ir site.limits (site.beyond id offset) failed := by
  have executed :=
    Machine.Run.execute_load_eq_proceed site.limits config.state.counted reads.pointer result
  rw [Machine.Run.load_outside (by rw [stands.globals, isCells]) outside, stands.keeps.function]
    at executed
  exact ⟨_, _, emits.fetch part stands.isAt, executed⟩

theorem throws_stored {source target : Operand}
    (emits : state.Emits here (.store source target) 0 state')
    (part : state'.builder.ir.Part here.function site.ir)
    (stands : site.Stands state here memory config)
    (readsValue : site.Reads state here source (.int value) config.frame)
    (reads : site.Reads state here target (.pointer (.global id offset)) config.frame)
    (isCells : memory.globals[id]? = some cells) (outside : ¬ (0 ≤ offset ∧ offset < cells.size)) :
    ∃ failed, config.Throws site.ir site.limits (site.beyond id offset) failed := by
  have executed := Machine.Run.execute_store site.limits config.state.counted readsValue.int
    reads.pointer
  rw [Machine.Run.store_outside (by rw [stands.globals, isCells]) outside, stands.keeps.function]
    at executed
  exact ⟨_, _, emits.fetch part stands.isAt, executed⟩

/-! ### Pointers to elements -/

theorem points_element (stores : site.Stores name (.array low high) (.global id 0))
    (gives : site.Gives index before i memory) (position : Position) :
    site.Points (Lower.pointer (.element name index position)) before
      (.global id (i - low).toInt) memory := by
  intro state here pending ready same
  rw [Lower.pointer, Lower.elementPointer, ensures_bind]
  refine Lower.ensures_declared fun entry isEntry => ?_
  obtain ⟨found, -, isFound, isShape, -⟩ := stores.entry
  rw [same] at isEntry
  obtain rfl := Option.some.inj (isEntry.symm.trans isFound)
  rw [isShape]
  refine ensures_operands (fun _ _ _ ready => Lower.ready_address ready name position)
    (Lower.isStraight_address name position) (points_address stores position before)
    (Lower.yields_expression index) (Lower.isStraight_expression _ _) gives ready same ?_
  intro base operand state₁ tracks₁ hasIndex gets₁
  have same₁ := tracks₁.straight.symbols.trans same
  rw [ensures_bind]
  refine (ensures_tracks (Lower.ready_arith tracks₁.ready .sub hasIndex (Lower.has_int low))
    (Lower.isStraight_build (IR.Build.isStraight_arith _ _ _))
    (site.getsTo_arith tracks₁.ready same₁ .sub operand (.int low))).mono ?_
  rintro distance state₂ ⟨tracks₂, -, gets₂⟩
  have le₁ := tracks₁.registers ready
  have le₂ := tracks₂.registers tracks₁.ready
  refine ((site.getsTo_element tracks₂.ready (tracks₂.straight.symbols.trans same₁) base distance).and
    (Lower.isStraight_build (IR.Build.isStraight_emitValue _) state₂)).mono ?_
  rintro result state₃ ⟨gets₃, straight₃⟩ part config stands
  have part₂ := straight₃.part tracks₂.ready.insertPoint part
  refine (gets₁ (tracks₂.part tracks₁.ready part₂) stands).bind ?_
  rintro config₁ ⟨reaches₁, readsBase, readsIndex⟩
  refine (gets₂ part₂ reaches₁.stands readsIndex ⟨rfl, trivial⟩ rfl).bind ?_
  rintro config₂ ⟨reaches₂, readsDistance⟩
  refine (gets₃ part reaches₂.stands (readsBase.keeps reaches₂.keeps le₂) readsDistance).mono ?_
  rintro config₃ ⟨reaches₃, reads₃⟩
  exact ⟨(reaches₁.trans reaches₂ le₁).trans reaches₃ (Nat.le_trans le₁ le₂), reads₃⟩

theorem Stores.exists_cells (stores : site.Stores name (.array low high) (.global id 0))
    (laid : memory.Laid site.ir) :
    ∃ cells, memory.globals[id]? = some cells ∧ cells.size = SymbolTable.arrayLength low high := by
  obtain ⟨-, entry, global, -, isShape, -, -, isGlobal, suits⟩ := stores.global
  have isContent := suits.2
  rw [isShape] at isContent
  obtain ⟨cells, isCells, size⟩ := laid.cells isGlobal
  rw [isContent.2.2] at size
  exact ⟨cells, isCells, size⟩

/-! ### Loads and stores -/

/-- A load or a store of an element concerns one integer: the load gives it, and the store changes it
and nothing else. -/
structure Accesses (site : Site) (name : String) (cell : Pointer) (index : Expr)
    (before memory : State) : Prop where
  load : ∀ position, ∃ value, memory.value? cell = some value ∧
    site.Gives (.element name index position) before value memory
  store : ∀ ⦃assignment : Assignment⦄ ⦃position value after⦄,
    assignment.target = .element name index position →
      site.Gives assignment.value memory value after → after.Laid site.ir →
        (∀ loop next, site.Does loop next (Lower.statement (.assign assignment)) before
          (after.write cell value)) ∧
        (after.write cell value).value? cell = some value ∧
        ∀ other ≠ cell, (after.write cell value).value? other = after.value? other

structure Refuses (site : Site) (name : String) (error : RunError) (index : Expr)
    (before memory : State) : Prop where
  load : ∀ position,
    site.Fails (Lower.expression .running (.element name index position)) before error
  store : ∀ ⦃assignment : Assignment⦄ ⦃position value after⦄,
    assignment.target = .element name index position →
      site.Gives assignment.value memory value after → after.Laid site.ir →
        site.Fails (Lower.statement (.assign assignment)) before error

theorem accesses_element (stores : site.Stores name (.array low high) (.global id 0))
    (gives : site.Gives index before i memory) (laid : memory.Laid site.ir)
    (has : HasElement low high i) :
    site.Accesses name (.global id (i - low).toInt) index before memory := by
  have isThere {memory : State} (laid : memory.Laid site.ir) :
      ∃ value, memory.value? (.global id (i - low).toInt) = some value := by
    obtain ⟨cells, isCells, size⟩ := stores.exists_cells laid
    have inside := inside_iff.2 has
    rw [← size] at inside
    refine ⟨cells.get (i - low).toInt.toNat, ?_⟩
    simp only [State.value?, isCells]
    exact if_pos inside
  constructor
  · intro position
    obtain ⟨value, isValue⟩ := isThere laid
    refine ⟨value, isValue, ?_⟩
    have loads := gives_load (Lower.yields_pointer _) (Lower.isStraight_pointer _)
      (points_element stores gives position) isValue
    simpa only [Gives, Lower.expression, Lower.requireRunning, pure_bind, Lower.pointer] using loads
  · intro assignment position value after isTarget givesValue laid
    obtain ⟨old, isOld⟩ := isThere laid
    have points := points_element stores gives position
    rw [← isTarget] at points
    have writable : Pointer.Writable site.ir (.global id (i - low).toInt) := stores.writable
    refine ⟨fun loop next => ?_, State.value?_write_self isOld, fun other different =>
      State.value?_write_of_ne isOld different⟩
    rw [Lower.statement]
    exact does_straight (carries_assign points givesValue isOld writable)
      fun state here pending ready => Lower.ready_assign ready assignment

theorem refuses_element (stores : site.Stores name (.array low high) (.global id 0))
    (gives : site.Gives index before i memory) (laid : memory.Laid site.ir)
    (hasNot : ¬ HasElement low high i) :
    site.Refuses name (site.beyond id (i - low).toInt) index before memory := by
  have outside {memory : State} (laid : memory.Laid site.ir) : ∃ cells,
      memory.globals[id]? = some cells ∧
        ¬ (0 ≤ (i - low).toInt ∧ (i - low).toInt < cells.size) := by
    obtain ⟨cells, isCells, size⟩ := stores.exists_cells laid
    exact ⟨cells, isCells, fun inside => hasNot (inside_iff.1 (size ▸ inside))⟩
  constructor
  · intro position state here pending ready same
    obtain ⟨cells, isCells, outside⟩ := outside laid
    have loads := reaches_load (Lower.yields_pointer _) (Lower.isStraight_pointer _)
      (points_element stores gives position) ready same
    simp only [Lower.pointer] at loads
    simp only [Lower.expression, Lower.requireRunning, pure_bind]
    refine loads.mono ?_
    rintro _ state' ⟨last, operand, -, rfl, emits, -, gets⟩ part config stands
    refine (gets part stands).mono ?_
    rintro config₁ ⟨reaches₁, reads₁⟩
    exact throws_loaded emits part reaches₁.stands reads₁ isCells outside
  · intro assignment position value after isTarget givesValue laid state here pending ready same
    obtain ⟨cells, isCells, outside⟩ := outside laid
    have points := points_element stores gives position
    rw [← isTarget] at points
    rw [Lower.statement, ensures_bind]
    refine (reaches_store points givesValue ready same).mono ?_
    rintro _ state' ⟨last, source, target, emits, -, gets⟩
    refine ensures_pure.2 fun part config stands => (gets part stands).mono ?_
    rintro config₁ ⟨reaches₁, readsValue, reads⟩
    exact throws_stored emits part reaches₁.stands readsValue reads isCells outside

/-- Loads and stores of the elements of an array, for every index: they succeed for the elements that
the array has not too far from its first, each of which is an integer of its own in the global that is
the array's alone, and else they are out of bounds. -/
theorem elements_of_array {entry : Entry} (isEntry : site.symbols.get? name = some entry)
    (isArray : entry.shape = .array low high) :
    low < high ∧ ∃ id,
      (∀ other found, site.symbols.get? other = some found → found.global? = some id →
        other = name) ∧
      (∀ ⦃index i before memory⦄, site.Gives index before i memory → memory.Laid site.ir →
        (HasElement low high i →
          site.Accesses name (.global id (i.toInt - low.toInt)) index before memory) ∧
        (¬ HasElement low high i →
          site.Refuses name (site.beyond id (i - low).toInt) index before memory)) ∧
      ∀ i j : Int32, i ≠ j →
        Pointer.global id (i.toInt - low.toInt) ≠ Pointer.global id (j.toInt - low.toInt) := by
  have notFunction (id : IR.FunctionId) : entry.storage ≠ .function id := fun isFunction => by
    have sound := site.ready.sound.get? isEntry
    simp [Entry.Sound, isFunction, isArray] at sound
  have housed := site.houses.housed_of_get? isEntry notFunction
  obtain ⟨id, isGlobal⟩ := Option.isSome_iff_exists.1 (housed.array low high isArray)
  obtain ⟨global, -, suits⟩ := housed.global id isGlobal
  have isContent := suits.2
  rw [isArray] at isContent
  obtain ⟨isRange, notConstant, -⟩ := isContent
  obtain ⟨pointer, stores⟩ := exists_stores isEntry (by simp [isArray]) notConstant
  rw [isArray] at stores
  have isStorage : entry.storage = .address (.global id) := by
    unfold Entry.global? at isGlobal
    split at isGlobal
    · rename_i id' isStorage
      rw [isStorage, Option.some.inj isGlobal]
    · cases isGlobal
  obtain rfl : .global id 0 = pointer := by
    obtain ⟨found, operand, isFound, -, -, isStored, isPointer⟩ := stores.entry
    obtain rfl := Option.some.inj (isEntry.symm.trans isFound)
    rw [isStorage, Storage.address.injEq] at isStored
    subst isStored
    exact Option.some.inj isPointer
  refine ⟨isRange, id, fun other found isFound sameGlobal =>
    (site.houses.eq_of_global? isEntry isFound isGlobal sameGlobal).symm, ?_, ?_⟩
  · intro index i before memory gives laid
    refine ⟨fun has => ?_, refuses_element stores gives laid⟩
    rw [← toInt_distance has]
    exact accesses_element stores gives laid has
  · intro i j different same
    obtain ⟨-, same⟩ := Pointer.global.inj same
    exact different (Int32.toInt.inj ((Int.sub_left_inj _).1 same))

/-- The theorem at two indices of an array in a procedure that is called, of which one is out of
bounds. -/
theorem elements_of_array_local :
    ∃ (site : Site) (first : Config) (before : State) (id : IR.GlobalId),
      site.source =
        "procedure p; var a: array [5 .. 9] of integer; begin a[7] := a[10] end; begin end." ∧
      first.Starts site.ir site.frame.function site.heading.parameterCount ∧
      first.state = State.start site.ir (.withInput []) ∧
      first.GetsTo site.ir .standard (site.Stands site.entered ⟨site.frame.function, 0⟩ before) ∧
      site.Accesses "a" (.global id 2) (.number 7 .nowhere) before before ∧
      site.Refuses "a" (site.beyond id 5) (.number 10 .nowhere) before before := by
  obtain ⟨site, first, before, isSource, starts, isStart, gets, sees, isArray⟩ := exists_of_opening
    "procedure p; var a: array [5 .. 9] of integer; begin a[7] := a[10] end; begin end." .standard
    (fun symbols => (symbols.get? "a").any fun entry => entry.shape = .array 5 9)
    (by decide +kernel) (by decide +kernel)
  obtain ⟨entry, isEntry, isArray⟩ := (Option.any_eq_true _ _).1 isArray
  obtain ⟨-, id, -, elements, -⟩ := elements_of_array isEntry (of_decide_eq_true isArray)
  exact ⟨site, first, before, id, isSource, starts, isStart, gets,
    (elements (gives_number 7 .nowhere before) sees.globals).1 (by decide),
    (elements (gives_number 10 .nowhere before) sees.globals).2 (by decide)⟩

end Site

/-- The last element of an array that is longer than any distance is out of bounds. -/
theorem compile_far_element :
    ∃ ir, compile "var a: array [-1 .. 2147483647] of integer; begin a[2147483647] := 1 end."
        "example" = .ok ir ∧
      (ir.run .standard []).1 = .error (.failed (.outOfBounds "a" (-2147483648) "main")) := by
  have isFar : (compile
      "var a: array [-1 .. 2147483647] of integer; begin a[2147483647] := 1 end."
      "example").toOption.any (fun ir =>
        (ir.run .standard []).1 = .error (.failed (.outOfBounds "a" (-2147483648) "main"))) = true := by
    decide +kernel
  cases compiled : compile
      "var a: array [-1 .. 2147483647] of integer; begin a[2147483647] := 1 end." "example" with
  | error error => simp [compiled, Except.toOption] at isFar
  | ok ir =>
      rw [compiled] at isFar
      exact ⟨ir, rfl, of_decide_eq_true isFar⟩

end MiniPascal
