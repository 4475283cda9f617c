import MiniPascal.Proofs.IR.Growth

/-!
# What building steps do to a module

`Builder.Grows here` relates a builder to a later one that has only appended to the block `here`,
added blocks behind those of its function, and added globals.  Expressions are translated by such
steps alone, and so are statements.
-/

namespace MiniPascal.IR

structure Function.Grows (index : Nat) (old new : Function) : Prop where
  name : new.name = old.name
  parameters : new.parameters = old.parameters
  returnsValue : new.returnsValue = old.returnsValue
  variadic : new.variadic = old.variadic
  registers : old.registers ≤ new.registers
  size : old.blocks.size ≤ new.blocks.size
  block : ∀ (other : Nat) (block : Block), old.blocks[other]? = some block →
    ∃ later, new.blocks[other]? = some later ∧ later.name = block.name ∧
      block.instructions.toList <+: later.instructions.toList ∧ (other ≠ index → later = block)

namespace Function.Grows

variable {index : Nat} {first second third : Function}

theorem refl (index : Nat) (function : Function) : function.Grows index function :=
  ⟨rfl, rfl, rfl, rfl, Nat.le_refl _, Nat.le_refl _,
    fun _ block isBlock => ⟨block, isBlock, rfl, List.prefix_rfl, fun _ => rfl⟩⟩

theorem trans {elsewhere : Nat} (h₁ : first.Grows index second)
    (h₂ : second.Grows elsewhere third) (fresh : elsewhere = index ∨ first.blocks.size ≤ elsewhere) :
    first.Grows index third where
  name := h₂.name.trans h₁.name
  parameters := h₂.parameters.trans h₁.parameters
  returnsValue := h₂.returnsValue.trans h₁.returnsValue
  variadic := h₂.variadic.trans h₁.variadic
  registers := Nat.le_trans h₁.registers h₂.registers
  size := Nat.le_trans h₁.size h₂.size
  block other block isBlock := by
    obtain ⟨later, isLater, name₁, prefix₁, same₁⟩ := h₁.block other block isBlock
    obtain ⟨last, isLast, name₂, prefix₂, same₂⟩ := h₂.block other later isLater
    refine ⟨last, isLast, name₂.trans name₁, prefix₁.trans prefix₂, fun notHere => ?_⟩
    have bound := (Array.getElem?_eq_some_iff.1 isBlock).1
    rw [same₂ (by rcases fresh with rfl | fresh <;> omega), same₁ notHere]

theorem slots {function later : Function} (grows : function.Grows index later) :
    ∀ slot ∈ function.slots, slot ∈ later.slots := by
  intro slot isSlot
  unfold Function.slots at *
  split at isSlot
  · rename_i entry isEntry
    obtain ⟨entry', isEntry', -, isPrefix, -⟩ := grows.block 0 entry isEntry
    rw [isEntry']
    exact ((isPrefix.filter _).filterMap _).subset isSlot
  · simp at isSlot

theorem within {function later : Function} (grows : function.Grows index later) :
    function.Within later :=
  ⟨grows.size, grows.parameters, grows.returnsValue, grows.slots⟩

end Function.Grows

structure Builder.Grows (here : BlockId) (old new : Builder) : Prop where
  globals : old.ir.globals.toList <+: new.ir.globals.toList
  others : ∀ id ≠ here.function, new.ir.functions[id]? = old.ir.functions[id]?
  function : ∀ function : Function, old.ir.functions[here.function]? = some function →
    ∃ later, new.ir.functions[here.function]? = some later ∧ function.Grows here.index later

namespace Builder.Grows

variable {here : BlockId} {first second third : Builder}

theorem refl (here : BlockId) (builder : Builder) : builder.Grows here builder :=
  ⟨List.prefix_rfl, fun _ _ => rfl, fun function isFunction => ⟨function, isFunction, .refl _ _⟩⟩

theorem trans (h₁ : first.Grows here second) (h₂ : second.Grows here third) :
    first.Grows here third where
  globals := h₁.globals.trans h₂.globals
  others id different := (h₂.others id different).trans (h₁.others id different)
  function function isFunction := by
    obtain ⟨later, isLater, grows₁⟩ := h₁.function function isFunction
    obtain ⟨last, isLast, grows₂⟩ := h₂.function later isLater
    exact ⟨last, isLast, grows₁.trans grows₂ (.inl rfl)⟩

theorem transElsewhere {elsewhere : BlockId} (h₁ : first.Grows here second)
    (h₂ : second.Grows elsewhere third) (same : elsewhere.function = here.function)
    (fresh : ∀ function, first.ir.functions[here.function]? = some function →
      function.blocks.size ≤ elsewhere.index) : first.Grows here third where
  globals := h₁.globals.trans h₂.globals
  others id different := (h₂.others id (same ▸ different)).trans (h₁.others id different)
  function function isFunction := by
    obtain ⟨later, isLater, grows₁⟩ := h₁.function function isFunction
    obtain ⟨last, isLast, grows₂⟩ := h₂.function later (same ▸ isLater)
    exact ⟨last, same ▸ isLast, grows₁.trans grows₂ (.inr (fresh function isFunction))⟩

theorem within {old new : Builder} (grows : old.Grows here new) : old.ir.Within new.ir := by
  refine ⟨by simpa using grows.globals.length_le, fun id function isFunction => ?_⟩
  by_cases isHere : id = here.function
  · subst isHere
    obtain ⟨later, isLater, same⟩ := grows.function function isFunction
    exact ⟨later, isLater, same.parameters, same.variadic, same.returnsValue⟩
  · exact ⟨function, by rw [grows.others id isHere, isFunction], rfl, rfl, rfl⟩

end Builder.Grows

structure Builder.Around (id? : Option FunctionId) (old new : Builder) : Prop where
  globals : old.ir.globals.toList <+: new.ir.globals.toList
  others : ∀ id, id? ≠ some id → new.ir.functions[id]? = old.ir.functions[id]?
  function : ∀ (id : FunctionId) (function : Function), old.ir.functions[id]? = some function →
    ∃ later, new.ir.functions[id]? = some later ∧ later.name = function.name ∧
      function.blocks.size ≤ later.blocks.size

namespace Builder.Around

variable {id? : Option FunctionId} {first second third : Builder}

theorem refl (id? : Option FunctionId) (builder : Builder) : builder.Around id? builder :=
  ⟨List.prefix_rfl, fun _ _ => rfl, fun _ function isFunction =>
    ⟨function, isFunction, rfl, Nat.le_refl _⟩⟩

theorem trans (h₁ : first.Around id? second) (h₂ : second.Around id? third) :
    first.Around id? third where
  globals := h₁.globals.trans h₂.globals
  others id different := (h₂.others id different).trans (h₁.others id different)
  function id function isFunction := by
    obtain ⟨later, isLater, name₁, size₁⟩ := h₁.function id function isFunction
    obtain ⟨last, isLast, name₂, size₂⟩ := h₂.function id later isLater
    exact ⟨last, isLast, name₂.trans name₁, Nat.le_trans size₁ size₂⟩

theorem forget (around : first.Around none second) : first.Around id? second :=
  ⟨around.globals, fun id _ => around.others id (by simp), around.function⟩

end Builder.Around

theorem Builder.Grows.around {here : BlockId} {old new : Builder} (grows : old.Grows here new) :
    old.Around (some here.function) new where
  globals := grows.globals
  others id different := grows.others id fun same => different (same ▸ rfl)
  function id function isFunction := by
    by_cases same : id = here.function
    · subst same
      obtain ⟨later, isLater, functionGrows⟩ := grows.function function isFunction
      exact ⟨later, isLater, functionGrows.name, functionGrows.size⟩
    · exact ⟨function, by rw [grows.others id same, isFunction], rfl, Nat.le_refl _⟩

/-! ### Emission -/

theorem Builder.functions_modifyFunction (builder : Builder) (id other : FunctionId)
    (change : Function → Function) :
    (builder.modifyFunction id change).ir.functions[other]? =
      if id = other then builder.ir.functions[other]?.map change
      else builder.ir.functions[other]? := by
  simp [modifyFunction, Array.getElem?_modify]

theorem modify_congr {α : Type} {items : Array α} {index : Nat} {first second : α → α}
    (same : ∀ item, items[index]? = some item → first item = second item) :
    items.modify index first = items.modify index second := by
  refine Array.ext_getElem? fun other => ?_
  rw [Array.getElem?_modify, Array.getElem?_modify]
  split
  · rename_i isIndex
    subst isIndex
    cases isItem : items[index]? with
    | none => rfl
    | some item => rw [Option.map_some, Option.map_some, same item isItem]
  · rfl

/-- What a change would make of other blocks does not matter. -/
theorem Builder.modifyBlock_congr {builder : Builder} {here : BlockId} {first second : Block → Block}
    (same : ∀ block, builder.ir.block? here = some block → first block = second block) :
    builder.modifyBlock here first = builder.modifyBlock here second := by
  have functions : builder.ir.functions.modify here.function (fun function =>
        { function with blocks := function.blocks.modify here.index first }) =
      builder.ir.functions.modify here.function (fun function =>
        { function with blocks := function.blocks.modify here.index second }) := by
    refine modify_congr fun function isFunction => ?_
    have blocks : function.blocks.modify here.index first =
        function.blocks.modify here.index second :=
      modify_congr fun block isBlock => same block (by simp [Module.block?, isFunction, isBlock])
    rw [blocks]
  simp only [modifyBlock, modifyFunction, functions]

theorem Builder.around_modifyFunction (builder : Builder) (id : FunctionId)
    {change : Function → Function} (same : ∀ function : Function, (change function).name = function.name)
    (size : ∀ function : Function, function.blocks.size ≤ (change function).blocks.size) :
    builder.Around (some id) (builder.modifyFunction id change) where
  globals := List.prefix_rfl
  others other different := by
    rw [functions_modifyFunction, if_neg fun isSame => different (congrArg some isSame)]
  function other function isFunction := by
    rw [functions_modifyFunction]
    split
    · exact ⟨change function, by simp [isFunction], same function, size function⟩
    · exact ⟨function, isFunction, rfl, Nat.le_refl _⟩

theorem Builder.around_addGlobal (builder : Builder) (name : String) (content : Content)
    (constant : Bool) (linkage : Linkage) :
    builder.Around none (Build.addGlobal name content constant linkage builder).2 where
  globals := by
    change _ <+: (builder.ir.globals.push _).toList
    simp
  others _ _ := rfl
  function _ function isFunction := ⟨function, isFunction, rfl, Nat.le_refl _⟩

theorem Builder.modifyFunction_modifyFunction (builder : Builder) (id : FunctionId)
    (first second : Function → Function) :
    (builder.modifyFunction id first).modifyFunction id second =
      builder.modifyFunction id fun function => second (first function) := by
  have same : (builder.ir.functions.modify id first).modify id second =
      builder.ir.functions.modify id fun function => second (first function) := by
    apply Array.ext
    · simp
    · intro index h₁ h₂
      simp only [Array.getElem_modify]
      split <;> rfl
  simp [modifyFunction, same]

theorem Builder.modifyFunction_congr {builder : Builder} {id : FunctionId} {function : Function}
    {change other : Function → Function} (isFunction : builder.ir.functions[id]? = some function)
    (same : change function = other function) :
    builder.modifyFunction id change = builder.modifyFunction id other := by
  have same : builder.ir.functions.modify id change = builder.ir.functions.modify id other := by
    apply Array.ext
    · simp
    · intro index h₁ h₂
      simp only [Array.getElem_modify]
      split
      · subst index
        rw [Array.size_modify] at h₁
        rw [Array.getElem?_eq_getElem h₁, Option.some.injEq] at isFunction
        rw [isFunction, same]
      · rfl
  simp [modifyFunction, same]

theorem Build.isTerminated_eq (builder : Builder) :
    (Build.isTerminated builder).1 =
      (builder.insertPoint.bind builder.ir.block?).any (·.isTerminated) := rfl

/-! ### Steps of building -/

section
variable {α β : Type} (builder : Builder)

@[simp] theorem Build.bind_apply (action : Build α) (next : α → Build β) :
    (action >>= next) builder = next (action builder).1 (action builder).2 := rfl

@[simp] theorem Build.map_apply (f : α → β) (action : Build α) :
    (f <$> action) builder = (f (action builder).1, (action builder).2) := rfl

@[simp] theorem Build.pure_apply (a : α) : (pure a : Build α) builder = (a, builder) := rfl

@[simp] theorem Build.get_apply : (get : Build Builder) builder = (builder, builder) := rfl

@[simp] theorem Build.set_apply (later : Builder) :
    (set later : Build PUnit) builder = ((), later) := rfl

@[simp] theorem Build.modify_apply (change : Builder → Builder) :
    (modify change : Build PUnit) builder = ((), change builder) := rfl

end

theorem Build.emit_eq {builder : Builder} {here : BlockId} (instruction : Instruction)
    (isHere : builder.insertPoint = some here) :
    Build.emit instruction builder =
      ((), builder.modifyFunction here.function (·.push here.index instruction 0)) := by
  change ((), _) = ((), _)
  simp only [isHere]
  rfl

theorem Build.freshRegister_eq {builder : Builder} {here : BlockId} {function : Function}
    (isHere : builder.insertPoint = some here)
    (isFunction : builder.ir.functions[here.function]? = some function) :
    Build.freshRegister builder =
      (some function.registers, builder.modifyFunction here.function fun function =>
        { function with registers := function.registers + 1 }) := by
  simp [freshRegister, isHere, isFunction]

private theorem emitValue_of_fresh {builder spent : Builder} {here : BlockId} {register : Register}
    (instruction : Register → Instruction)
    (fresh : Build.freshRegister builder = (some register, spent))
    (isHere : spent.insertPoint = some here) :
    Build.emitValue instruction builder =
      (.register register,
        spent.modifyFunction here.function (·.push here.index (instruction register) 0)) := by
  simp [Build.emitValue, fresh, Build.emit_eq _ isHere]

theorem Build.emitValue_eq {builder : Builder} {here : BlockId} {function : Function}
    (instruction : Register → Instruction) (isHere : builder.insertPoint = some here)
    (isFunction : builder.ir.functions[here.function]? = some function) :
    Build.emitValue instruction builder =
      (.register function.registers,
        builder.modifyFunction here.function
          (·.push here.index (instruction function.registers) 1)) := by
  rw [emitValue_of_fresh instruction (freshRegister_eq isHere isFunction) isHere,
    Builder.modifyFunction_modifyFunction]
  rfl

theorem Build.call_eq {builder : Builder} {callee : FunctionId} {called : Function}
    (isCalled : builder.ir.functions[callee]? = some called) (arguments : List Operand) :
    Build.call callee arguments builder =
      if called.returnsValue then
        let emitted := Build.emitValue (fun result => .call (some result) callee arguments) builder
        (some emitted.1, emitted.2)
      else (none, (Build.emit (.call none callee arguments) builder).2) := by
  have isAny : builder.ir.functions[callee]?.any (·.returnsValue) = called.returnsValue := by
    simp [isCalled]
  simp only [call, bind_apply, get_apply, isAny]
  split <;> rfl

theorem Build.alloca_eq {builder : Builder} {here : BlockId} {function : Function} (name : String)
    (isHere : builder.insertPoint = some here)
    (isFunction : builder.ir.functions[here.function]? = some function) :
    Build.alloca name builder =
      (.register function.registers, builder.modifyFunction here.function (·.addSlot name)) := by
  simp only [alloca, bind_apply, get_apply, pure_apply, modify_apply, isHere,
    freshRegister_eq isHere isFunction, Builder.modifyBlock, Builder.modifyFunction_modifyFunction]
  exact congrArg _ (Builder.modifyFunction_congr isFunction rfl)

theorem Build.appendBlock_eq {builder : Builder} {id : FunctionId} {function : Function}
    (isFunction : builder.ir.functions[id]? = some function) (name : String) :
    Build.appendBlock id name builder =
      (⟨id, function.blocks.size⟩, builder.modifyFunction id (·.addBlock name)) := by
  simp only [appendBlock, bind_apply, get_apply, pure_apply, modify_apply, isFunction]
  rfl

theorem Function.grows_push (function : Function) (index : Nat) (instruction : Instruction)
    (count : Nat) : function.Grows index (function.push index instruction count) := by
  refine ⟨rfl, rfl, rfl, rfl, Nat.le_add_right _ _, by simp [push], fun other block isBlock => ?_⟩
  rw [getElem?_push]
  split
  · subst other
    refine ⟨block.append instruction, by simp [isBlock], ?_, ?_, fun different => absurd rfl different⟩
    · unfold Block.append
      split <;> rfl
    · unfold Block.append
      split
      · exact List.prefix_rfl
      · simp
  · exact ⟨block, isBlock, rfl, List.prefix_rfl, fun _ => rfl⟩

theorem Function.grows_addBlock (function : Function) (index : Nat) (name : String) :
    function.Grows index (function.addBlock name) := by
  refine ⟨rfl, rfl, rfl, rfl, Nat.le_refl _, by simp [addBlock], fun other block isBlock => ?_⟩
  have bound := (Array.getElem?_eq_some_iff.1 isBlock).1
  refine ⟨block, ?_, rfl, List.prefix_rfl, fun _ => rfl⟩
  simp only [addBlock, Array.getElem?_push]
  rw [if_neg (by omega), isBlock]

theorem Builder.grows_modifyFunction {here : BlockId} (builder : Builder)
    {change : Function → Function} (grows : ∀ function : Function, function.Grows here.index (change function)) :
    builder.Grows here (builder.modifyFunction here.function change) where
  globals := List.prefix_rfl
  others id different := by
    rw [functions_modifyFunction, if_neg different.symm]
  function function isFunction := by
    refine ⟨change function, ?_, grows function⟩
    rw [functions_modifyFunction, if_pos rfl, isFunction]
    rfl

end MiniPascal.IR
