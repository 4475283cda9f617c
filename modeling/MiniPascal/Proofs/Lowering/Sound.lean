import MiniPascal.Proofs.Lowering.Composed

/-!
# Sound states of a translation

Between any two steps the functions of the module are growing, of which only the one that is being
translated has open blocks, and what the symbol table says of storage is true of the module.  Below
are the steps that expressions consist of.
-/

namespace MiniPascal

open IR (BlockId Builder Operand Instruction)

def IR.Operand.IsAddress (ir : IR.Module) (slots : List IR.Register) : Operand → Prop
  | .global id => id < ir.globals.size
  | .register slot => slot ∈ slots
  | _ => False

def Entry.Sound (ir : IR.Module) (slots : List IR.Register) (entry : Entry) : Prop :=
  match entry.storage with
  | .address pointer => pointer.IsAddress ir slots
  | .function id =>
      ∃ function, ir.functions[id]? = some function ∧ function.variadic = false ∧
        entry.shape = .callable function.parameters function.returnsValue
  | .builtin builtin => entry.shape = .callable builtin.parameterCount builtin.returnsValue

def IR.Module.TakesFormat (ir : IR.Module) (id : IR.FunctionId) : Prop :=
  ∃ function, ir.functions[id]? = some function ∧ function.parameters = 1 ∧
    function.variadic = true ∧ function.returnsValue = true

structure Support.Sound (ir : IR.Module) (support : Support) : Prop where
  printf : ir.TakesFormat support.printf
  scanf : ir.TakesFormat support.scanf
  writelnFormat : support.writelnFormat.IsAddress ir []
  readlnFormat : support.readlnFormat.IsAddress ir []
  writeFormat : support.writeFormat.IsAddress ir []

theorem IR.Operand.IsAddress.within {old new : IR.Module} {slots more : List IR.Register}
    {pointer : Operand} (isAddress : pointer.IsAddress old slots) (within : old.Within new)
    (kept : ∀ slot ∈ slots, slot ∈ more) : pointer.IsAddress new more := by
  cases pointer with
  | global id => exact Nat.lt_of_lt_of_le isAddress within.globals
  | register slot => exact kept slot isAddress
  | _ => exact isAddress.elim

theorem Entry.Sound.within {old new : IR.Module} {slots more : List IR.Register} {entry : Entry}
    (sound : entry.Sound old slots) (within : old.Within new)
    (kept : ∀ slot ∈ slots, slot ∈ more) : entry.Sound new more := by
  unfold Entry.Sound at *
  split at sound
  · exact IR.Operand.IsAddress.within sound within kept
  · obtain ⟨function, isFunction, notVariadic, isShape⟩ := sound
    obtain ⟨later, isLater, same₁, same₂, same₃⟩ := within.functions _ function isFunction
    exact ⟨later, isLater, same₂.trans notVariadic, by rw [same₁, same₃, isShape]⟩
  · exact sound

theorem Support.Sound.within {old new : IR.Module} {support : Support}
    (sound : support.Sound old) (within : old.Within new) : support.Sound new := by
  have address {pointer : Operand} (isAddress : pointer.IsAddress old []) :
      pointer.IsAddress new [] := isAddress.within within (by simp)
  have callable {id : IR.FunctionId} (takes : old.TakesFormat id) : new.TakesFormat id := by
    obtain ⟨function, isFunction, isOne, isVariadic, returns⟩ := takes
    obtain ⟨later, isLater, same₁, same₂, same₃⟩ := within.functions id function isFunction
    exact ⟨later, isLater, same₁.trans isOne, same₂.trans isVariadic, same₃.trans returns⟩
  exact ⟨callable sound.printf, callable sound.scanf, address sound.writelnFormat,
    address sound.readlnFormat, address sound.writeFormat⟩

namespace Lowering

def current? (state : Lowering) : Option IR.FunctionId := state.symbols.enclosing.map (·.function)

def slots (state : Lowering) : List IR.Register :=
  match state.current?.bind (state.builder.ir.functions[·]?) with
  | some function => function.slots
  | none => []

/-- The state between two steps, when these blocks of the current function are open. -/
structure Sound (state : Lowering) (pending : List Nat) : Prop where
  functions : ∀ (id : IR.FunctionId) (function : IR.Function),
    state.builder.ir.functions[id]? = some function →
      function.Growing state.builder.ir id (if state.current? = some id then pending else [])
  support : state.support.Sound state.builder.ir
  globals : ∀ name entry, state.symbols.globals.lookup name = some entry →
    entry.Sound state.builder.ir []
  forwards : ∀ name entry, state.symbols.forwards.lookup name = some entry →
    entry.Sound state.builder.ir []
  locals : ∀ name entry, state.symbols.locals.lookup name = some entry →
    entry.Sound state.builder.ir state.slots
  enclosing : ∀ enclosing, state.symbols.enclosing = some enclosing →
    ∃ entry, state.symbols.getOuter? enclosing.name = some entry ∧
      entry.storage = .function enclosing.function
  undefined : ∀ name entry, state.symbols.forwards.lookup name = some entry →
    state.symbols.globals.has name = false → ∃ id, entry.storage = .function id ∧
      state.current? ≠ some id ∧
      ∀ function : IR.Function, state.builder.ir.functions[id]? = some function →
        function.isDeclaration
  distinct : ∀ first second entry other, state.symbols.forwards.lookup first = some entry →
    state.symbols.forwards.lookup second = some other → entry.storage = other.storage →
      first = second

structure Ready (state : Lowering) (here : BlockId) (pending : List Nat) : Prop where
  insertPoint : state.builder.insertPoint = some here
  enclosing : ∃ name, state.symbols.enclosing = some ⟨here.function, name⟩
  sound : state.Sound (here.index :: pending)

def Has (state : Lowering) (here : BlockId) (operand : Operand) : Prop :=
  ∀ (function : IR.Function) (block : IR.Block),
    state.builder.ir.functions[here.function]? = some function →
      function.blocks[here.index]? = some block →
        operand.Fits state.builder.ir function block.instructions.toList

def IsTarget (state : Lowering) (id : IR.FunctionId) (target : BlockId) : Prop :=
  target.function = id ∧ 0 < target.index ∧
    ∀ function : IR.Function, state.builder.ir.functions[id]? = some function →
      target.index < function.blocks.size

def IsCall (state : Lowering) (result : Option IR.Register) (callee : IR.FunctionId)
    (arguments : List Operand) : Prop :=
  ∃ called, state.builder.ir.functions[callee]? = some called ∧
    (if called.variadic then called.parameters ≤ arguments.length
      else arguments.length = called.parameters) ∧
    result.isSome = called.returnsValue

def Returns (state : Lowering) (id : IR.FunctionId) (isValue : Bool) : Prop :=
  ∀ function : IR.Function, state.builder.ir.functions[id]? = some function →
    isValue = function.returnsValue

/-- The instruction may stand behind all others of a block. -/
structure Allows (state : Lowering) (here : BlockId) (instruction : Instruction) : Prop where
  operands : ∀ operand ∈ instruction.operands, state.Has here operand
  targets : ∀ target ∈ instruction.targets, state.IsTarget here.function target
  notAlloca : ¬ instruction.isAlloca
  call : ∀ result callee arguments, instruction = .call result callee arguments →
    state.IsCall result callee arguments
  ret : ∀ value, instruction = .ret value → state.Returns here.function value.isSome

variable {state : Lowering} {here : BlockId} {pending : List Nat}

/-! ### Look-up -/

theorem Sound.outer (sound : state.Sound pending) {name : String} {entry : Entry}
    (isEntry : state.symbols.getOuter? name = some entry) : entry.Sound state.builder.ir [] := by
  unfold SymbolTable.getOuter? at isEntry
  cases isForward : state.symbols.forwards.lookup name with
  | some forward =>
      obtain rfl : forward = entry := by simpa [isForward] using isEntry
      exact sound.forwards name _ isForward
  | none => exact sound.globals name entry (by simpa [isForward] using isEntry)

theorem Sound.get? (sound : state.Sound pending) {name : String} {entry : Entry}
    (isEntry : state.symbols.get? name = some entry) :
    entry.Sound state.builder.ir state.slots := by
  have outer : state.symbols.getOuter? name = some entry →
      entry.Sound state.builder.ir state.slots := fun isOuter =>
    (sound.outer isOuter).within (.refl _) (by simp)
  unfold SymbolTable.get? at isEntry
  split at isEntry
  · cases isLocal : state.symbols.locals.lookup name with
    | some found =>
        obtain rfl : found = entry := by simpa [isLocal] using isEntry
        exact sound.locals name _ isLocal
    | none => exact outer (by simpa [isLocal] using isEntry)
  · exact outer isEntry

theorem Sound.current (sound : state.Sound pending) {id : IR.FunctionId}
    (isCurrent : state.current? = some id) :
    ∃ function, state.builder.ir.functions[id]? = some function ∧
      function.Growing state.builder.ir id pending := by
  simp only [current?, Option.map_eq_some_iff] at isCurrent
  obtain ⟨enclosing, isEnclosing, rfl⟩ := isCurrent
  obtain ⟨entry, isEntry, isStorage⟩ := sound.enclosing enclosing isEnclosing
  obtain ⟨function, isFunction, -, -⟩ := by simpa [Entry.Sound, isStorage] using sound.outer isEntry
  have growing := sound.functions _ function isFunction
  rw [if_pos (by simp [current?, isEnclosing])] at growing
  exact ⟨function, isFunction, growing⟩

theorem Ready.isCurrent (ready : state.Ready here pending) :
    state.current? = some here.function := by
  obtain ⟨name, isEnclosing⟩ := ready.enclosing
  simp [current?, isEnclosing]

theorem Ready.function (ready : state.Ready here pending) :
    ∃ function, state.builder.ir.functions[here.function]? = some function ∧
      function.Growing state.builder.ir here.function (here.index :: pending) :=
  ready.sound.current ready.isCurrent

theorem Ready.block (ready : state.Ready here pending) {function : IR.Function}
    (isFunction : state.builder.ir.functions[here.function]? = some function) :
    ∃ block, function.blocks[here.index]? = some block ∧ block.IsOpen := by
  obtain ⟨same, isSame, growing⟩ := ready.function
  obtain rfl := Option.some.inj (isFunction.symm.trans isSame)
  have isBlock := Array.getElem?_eq_getElem (growing.bound here.index (by simp))
  exact ⟨_, isBlock, by simpa using growing.blocks _ _ isBlock⟩

theorem Ready.slots (ready : state.Ready here pending) {function : IR.Function}
    (isFunction : state.builder.ir.functions[here.function]? = some function) :
    state.slots = function.slots := by
  simp [Lowering.slots, ready.isCurrent, isFunction]

theorem Ready.has_address (ready : state.Ready here pending) {pointer : Operand}
    (isAddress : pointer.IsAddress state.builder.ir state.slots) : state.Has here pointer := by
  intro function block isFunction isBlock
  rw [ready.slots isFunction] at isAddress
  cases pointer with
  | global id => exact isAddress
  | register slot => exact .inr isAddress
  | _ => exact isAddress.elim

/-! ### Steps that let the current function grow -/

/-- The state is sound again if nothing but the current function has changed, and that has grown. -/
theorem Sound.grown (sound : state.Sound pending) {builder : Builder} {id : IR.FunctionId}
    {still : List Nat} {old new : IR.Function} (isCurrent : state.current? = some id)
    (within : state.builder.ir.Within builder.ir)
    (others : ∀ other ≠ id, builder.ir.functions[other]? = state.builder.ir.functions[other]?)
    (isOld : state.builder.ir.functions[id]? = some old)
    (isNew : builder.ir.functions[id]? = some new) (grown : old.Within new)
    (growing : new.Growing builder.ir id still) :
    { state with builder := builder }.Sound still := by
  have slots : ∀ slot ∈ state.slots, slot ∈ { state with builder := builder }.slots := by
    have same : { state with builder := builder }.current? = some id := isCurrent
    simpa [Lowering.slots, isCurrent, same, isOld, isNew] using grown.slots
  refine ⟨?_, sound.support.within within, ?_, ?_, ?_, sound.enclosing, ?_, sound.distinct⟩
  · intro other function isFunction
    change function.Growing builder.ir other (if state.current? = some other then still else [])
    by_cases same : other = id
    · subst same
      obtain rfl := Option.some.inj (isFunction.symm.trans isNew)
      rwa [if_pos isCurrent]
    · have different : ¬ state.current? = some other := by
        rw [isCurrent, Option.some.injEq]
        exact Ne.symm same
      have kept := sound.functions other function ((others other same).symm.trans isFunction)
      rw [if_neg different] at kept ⊢
      exact kept.within within
  · exact fun name entry isEntry => (sound.globals name entry isEntry).within within (by simp)
  · exact fun name entry isEntry => (sound.forwards name entry isEntry).within within (by simp)
  · exact fun name entry isEntry => (sound.locals name entry isEntry).within within slots
  · intro name entry isEntry isUndefined
    obtain ⟨other, isStorage, notCurrent, isDeclaration⟩ :=
      sound.undefined name entry isEntry isUndefined
    refine ⟨other, isStorage, notCurrent, fun function isFunction => isDeclaration function ?_⟩
    rw [← others other (fun same => notCurrent (same ▸ isCurrent))]
    exact isFunction

theorem Sound.modified (sound : state.Sound pending) {id : IR.FunctionId} {still : List Nat}
    {function : IR.Function} {change : IR.Function → IR.Function}
    (isCurrent : state.current? = some id)
    (isFunction : state.builder.ir.functions[id]? = some function)
    (grown : function.Within (change function))
    (signature : (change function).variadic = function.variadic)
    (growing : (change function).Growing state.builder.ir id still) :
    { state with builder := state.builder.modifyFunction id change }.Sound still := by
  have isNew : (state.builder.modifyFunction id change).ir.functions[id]? =
      some (change function) := by
    simp [Builder.functions_modifyFunction, isFunction]
  have within : state.builder.ir.Within (state.builder.modifyFunction id change).ir := by
    refine ⟨Nat.le_refl _, fun other found isFound => ?_⟩
    by_cases same : other = id
    · subst same
      obtain rfl := Option.some.inj (isFound.symm.trans isFunction)
      exact ⟨_, isNew, grown.parameters, signature, grown.returnsValue⟩
    · exact ⟨found, by simp [Builder.functions_modifyFunction, Ne.symm same, isFound], rfl, rfl, rfl⟩
  refine sound.grown isCurrent within (fun other different => ?_) isFunction isNew grown
    (growing.within within)
  simp [Builder.functions_modifyFunction, Ne.symm different]

theorem Allows.fits {instruction : Instruction} (allows : state.Allows here instruction)
    {function : IR.Function} {block : IR.Block}
    (isFunction : state.builder.ir.functions[here.function]? = some function)
    (isBlock : function.blocks[here.index]? = some block) :
    instruction.Fits state.builder.ir here.function function here.index
      block.instructions.toList where
  operands operand isOperand := allows.operands operand isOperand function block isFunction isBlock
  targets target isTarget := by
    obtain ⟨same, notFirst, bound⟩ := allows.targets target isTarget
    exact ⟨same, notFirst, bound function isFunction⟩
  alloca isAlloca := absurd isAlloca allows.notAlloca
  call := allows.call
  ret value isRet := allows.ret value isRet function isFunction

theorem Ready.pushed (ready : state.Ready here pending) {instruction : Instruction} (count : Nat)
    {function : IR.Function} (allows : state.Allows here instruction)
    (isFunction : state.builder.ir.functions[here.function]? = some function)
    (results : IR.defined [instruction] = List.range' function.registers count) :
    { state with
      builder := state.builder.modifyFunction here.function
        (·.push here.index instruction count) }.Sound
      (if instruction.isTerminator then pending else here.index :: pending) := by
  obtain ⟨same, isSame, growing⟩ := ready.function
  obtain rfl := Option.some.inj (isFunction.symm.trans isSame)
  exact ready.sound.modified ready.isCurrent isFunction (IR.Function.within_push allows.notAlloca) rfl
    (growing.push ⟨fun block isBlock => allows.fits isFunction isBlock, allows.notAlloca, results⟩)

theorem Ready.emit (ready : state.Ready here pending) (instruction : Instruction)
    (allows : state.Allows here instruction) (noResult : instruction.result? = none)
    (goesOn : ¬ instruction.isTerminator) :
    Ensures (Lower.build (IR.Build.emit instruction))
      (fun _ state' => state'.Ready here pending) state := by
  obtain ⟨function, isFunction, -⟩ := ready.function
  have sound := ready.pushed 0 allows isFunction (by simp [IR.defined, noResult])
  rw [if_neg goesOn] at sound
  rw [Lower.ensures_build, IR.Build.emit_eq _ ready.insertPoint]
  exact ⟨ready.insertPoint, ready.enclosing, sound⟩

def Ended (state : Lowering) : Prop := (IR.Build.isTerminated state.builder).1 = true

theorem Ready.notEnded (ready : state.Ready here pending) : ¬ state.Ended := by
  obtain ⟨function, isFunction, -⟩ := ready.function
  obtain ⟨block, isBlock, isOpen⟩ := ready.block isFunction
  rw [Ended, IR.Build.isTerminated_eq]
  simp [ready.insertPoint, IR.Module.block?, isFunction, isBlock, isOpen.isTerminated]

theorem Ready.terminate (ready : state.Ready here pending) (instruction : Instruction)
    (allows : state.Allows here instruction) (ends : instruction.isTerminator) :
    Ensures (Lower.build (IR.Build.emit instruction))
      (fun _ state' => state'.Sound pending ∧ state'.Ended) state := by
  obtain ⟨function, isFunction, -⟩ := ready.function
  have noResult : instruction.result? = none := by
    cases instruction <;> simp_all [Instruction.isTerminator, Instruction.result?]
  have sound := ready.pushed 0 allows isFunction (by simp [IR.defined, noResult])
  rw [if_pos ends] at sound
  rw [Lower.ensures_build, IR.Build.emit_eq _ ready.insertPoint]
  refine ⟨sound, ?_⟩
  obtain ⟨block, isBlock, isOpen⟩ := ready.block isFunction
  have isHere : (state.builder.modifyFunction here.function
      (·.push here.index instruction 0)).insertPoint = some here := ready.insertPoint
  rw [Ended, IR.Build.isTerminated_eq]
  simp only [isHere, Option.bind_some, bind, IR.Module.block?,
    Builder.functions_modifyFunction, if_true, isFunction, Option.map_some,
    IR.Function.getElem?_push, isBlock, Option.any_some, isOpen.append]
  simpa [IR.Block.isTerminated] using ends

theorem Ready.emitValue (ready : state.Ready here pending)
    (instruction : IR.Register → Instruction)
    (allows : ∀ register, state.Allows here (instruction register))
    (result : ∀ register, (instruction register).result? = some register)
    (goesOn : ∀ register, ¬ (instruction register).isTerminator) :
    Ensures (Lower.build (IR.Build.emitValue instruction))
      (fun operand state' => state'.Ready here pending ∧ state'.Has here operand) state := by
  obtain ⟨function, isFunction, -⟩ := ready.function
  have sound := ready.pushed 1 (allows function.registers) isFunction
    (by simp [IR.defined, result])
  rw [if_neg (goesOn _)] at sound
  rw [Lower.ensures_build, IR.Build.emitValue_eq _ ready.insertPoint isFunction]
  refine ⟨⟨ready.insertPoint, ready.enclosing, sound⟩, ?_⟩
  obtain ⟨block, isBlock, isOpen⟩ := ready.block isFunction
  intro function' block' isFunction' isBlock'
  simp only [Builder.functions_modifyFunction, if_true, isFunction, Option.map_some,
    Option.some.injEq] at isFunction'
  subst isFunction'
  simp only [IR.Function.getElem?_push, if_true, isBlock, Option.map_some, Option.some.injEq,
    isOpen.append] at isBlock'
  subst isBlock'
  exact .inl (by simp [IR.defined, result])

/-! ### Steps beside the functions -/

theorem Has.straight {operand : Operand} {state' : Lowering} (has : state.Has here operand)
    (ready : state.Ready here pending) (straight : state.Straight state') :
    state'.Has here operand := by
  obtain ⟨function, isFunction, -⟩ := ready.function
  obtain ⟨block, isBlock, -⟩ := ready.block isFunction
  have grows := straight.grows here ready.insertPoint
  obtain ⟨later, isLater, functionGrows⟩ := grows.function function isFunction
  obtain ⟨later', isLater', -, isPrefix, -⟩ := functionGrows.block here.index block isBlock
  intro function' block' isFunction' isBlock'
  obtain rfl := Option.some.inj (isFunction'.symm.trans isLater)
  obtain rfl := Option.some.inj (isBlock'.symm.trans isLater')
  exact (has function block isFunction isBlock).within grows.within functionGrows.within
    fun register isDefined => (isPrefix.filterMap _).subset isDefined

theorem Returns.straight {isValue : Bool} {state' : Lowering}
    (returns : state.Returns here.function isValue) (ready : state.Ready here pending)
    (straight : state.Straight state') : state'.Returns here.function isValue := by
  obtain ⟨function, isFunction, -⟩ := ready.function
  obtain ⟨later, isLater, grows⟩ :=
    (straight.grows here ready.insertPoint).function function isFunction
  intro other isOther
  obtain rfl := Option.some.inj (isOther.symm.trans isLater)
  rw [grows.returnsValue]
  exact returns function isFunction

theorem Ready.addGlobal (ready : state.Ready here pending) (name : String) (content : IR.Content)
    (constant : Bool) (linkage : IR.Linkage) :
    Ensures (Lower.build (IR.Build.addGlobal name content constant linkage))
      (fun operand state' => state'.Ready here pending ∧ state'.Has here operand) state := by
  obtain ⟨function, isFunction, growing⟩ := ready.function
  obtain ⟨-, grows⟩ := IR.Build.isStraight_addGlobal name content constant linkage state.builder
  have within := (grows here ready.insertPoint).within
  rw [Lower.ensures_build]
  refine ⟨⟨ready.insertPoint, ready.enclosing, ?_⟩, ?_⟩
  · exact ready.sound.grown ready.isCurrent within (fun _ _ => rfl) isFunction isFunction
      (.refl _) (growing.within within)
  · intro _ _ _ _
    change state.builder.ir.globals.size < (state.builder.ir.globals.push _).size
    simp

end Lowering

end MiniPascal
