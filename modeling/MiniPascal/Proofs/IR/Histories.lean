import MiniPascal.Proofs.IR.Emission

/-!
# Histories of a builder

What a module looks like behind any operations of its builder in any order, also where they go to a
block that is complete, or to none.  The first block of a function begins with its stack slots, in
the order in which they were asked for, and from whatever block.
-/

namespace MiniPascal.IR

/-! ### Operations -/

namespace Builder

inductive Operation where
  | declareFunction (name : String) (parameters : Nat) (returnsValue : Bool)
  | declareExternal (name : String) (parameters : Nat) (returnsValue variadic : Bool)
  | addGlobal (name : String) (content : Content) (constant : Bool) (linkage : Linkage)
  | appendBlock (function : FunctionId) (name : String)
  | setInsertPoint (block : BlockId)
  | isTerminated
  | arith (op : ArithOp) (left right : Operand)
  | compare (predicate : Predicate) (left right : Operand)
  | alloca (name : String)
  | load (pointer : Operand)
  | store (value pointer : Operand)
  | element (base index : Operand)
  | call (callee : FunctionId) (arguments : List Operand)
  | jump (target : BlockId)
  | branch (condition : Operand) (holds fails : BlockId)
  | ret (value : Option Operand)

namespace Operation

def run : Operation → Build Unit
  | declareFunction name parameters returnsValue =>
      discard (Build.declareFunction name parameters returnsValue)
  | declareExternal name parameters returnsValue variadic =>
      discard (Build.declareExternal name parameters returnsValue variadic)
  | addGlobal name content constant linkage =>
      discard (Build.addGlobal name content constant linkage)
  | appendBlock function name => discard (Build.appendBlock function name)
  | setInsertPoint block => Build.setInsertPoint block
  | isTerminated => discard Build.isTerminated
  | arith op left right => discard (Build.arith op left right)
  | compare predicate left right => discard (Build.compare predicate left right)
  | alloca name => discard (Build.alloca name)
  | load pointer => discard (Build.load pointer)
  | store value pointer => Build.store value pointer
  | element base index => discard (Build.element base index)
  | call callee arguments => discard (Build.call callee arguments)
  | jump target => Build.jump target
  | branch condition holds fails => Build.branch condition holds fails
  | ret value => Build.ret value

def after (operation : Operation) (builder : Builder) : Builder := (operation.run builder).2

/-- Functions and blocks are asked for only where they exist.  Operands and the targets of jumps may
be anything. -/
def isValid (builder : Builder) : Operation → Bool
  | appendBlock function _ => builder.ir.functions[function]?.isSome
  | setInsertPoint block => (builder.ir.block? block).isSome
  | call callee _ => builder.ir.functions[callee]?.isSome
  | _ => true

/-- The stack slot that is made for a function, in the register that is given back for it. -/
def slot? (builder : Builder) (id : FunctionId) : Operation → Option Instruction
  | alloca name =>
      match builder.insertPoint, (Build.alloca name builder).1 with
      | some here, .register register =>
          if here.function = id then some (.alloca register name) else none
      | _, _ => none
  | _ => none

end Operation

def afterAll (history : List Operation) (builder : Builder) : Builder :=
  history.foldl (fun builder operation => operation.after builder) builder

def areValid : List Operation → Builder → Bool
  | [], _ => true
  | operation :: later, builder =>
      operation.isValid builder && areValid later (operation.after builder)

def slotsAsked (id : FunctionId) : List Operation → Builder → List Instruction
  | [], _ => []
  | operation :: later, builder =>
      (operation.slot? builder id).toList ++ slotsAsked id later (operation.after builder)

end Builder

/-! ### What is only added to -/

/-- Blocks and instructions may have been added.  Those that were there are in the same order. -/
structure Function.Extends (old new : Function) : Prop where
  name : new.name = old.name
  parameters : new.parameters = old.parameters
  returnsValue : new.returnsValue = old.returnsValue
  variadic : new.variadic = old.variadic
  registers : old.registers ≤ new.registers
  block : ∀ (index : Nat) (block : Block), old.blocks[index]? = some block →
    ∃ later, new.blocks[index]? = some later ∧ later.name = block.name ∧
      block.instructions.toList.Sublist later.instructions.toList

structure Module.Extends (old new : Module) : Prop where
  name : new.name = old.name
  globals : old.globals.toList <+: new.globals.toList
  function : ∀ (id : FunctionId) (function : Function), old.functions[id]? = some function →
    ∃ later, new.functions[id]? = some later ∧ function.Extends later

theorem Function.Extends.refl (function : Function) : function.Extends function :=
  ⟨rfl, rfl, rfl, rfl, Nat.le_refl _, fun _ block isBlock => ⟨block, isBlock, rfl, .refl _⟩⟩

theorem Function.Extends.trans {first second third : Function} (h₁ : first.Extends second)
    (h₂ : second.Extends third) : first.Extends third where
  name := h₂.name.trans h₁.name
  parameters := h₂.parameters.trans h₁.parameters
  returnsValue := h₂.returnsValue.trans h₁.returnsValue
  variadic := h₂.variadic.trans h₁.variadic
  registers := Nat.le_trans h₁.registers h₂.registers
  block index block isBlock := by
    obtain ⟨later, isLater, name₁, sublist₁⟩ := h₁.block index block isBlock
    obtain ⟨last, isLast, name₂, sublist₂⟩ := h₂.block index later isLater
    exact ⟨last, isLast, name₂.trans name₁, sublist₁.trans sublist₂⟩

theorem Module.Extends.refl (ir : Module) : ir.Extends ir :=
  ⟨rfl, List.prefix_rfl, fun _ function isFunction => ⟨function, isFunction, .refl function⟩⟩

theorem Module.Extends.trans {first second third : Module} (h₁ : first.Extends second)
    (h₂ : second.Extends third) : first.Extends third where
  name := h₂.name.trans h₁.name
  globals := h₁.globals.trans h₂.globals
  function id function isFunction := by
    obtain ⟨later, isLater, extends₁⟩ := h₁.function id function isFunction
    obtain ⟨last, isLast, extends₂⟩ := h₂.function id later isLater
    exact ⟨last, isLast, extends₁.trans extends₂⟩

theorem Function.Grows.extended {index : Nat} {function later : Function}
    (grows : function.Grows index later) : function.Extends later := by
  refine ⟨grows.name, grows.parameters, grows.returnsValue, grows.variadic, grows.registers, ?_⟩
  intro other block isBlock
  obtain ⟨later, isLater, name, isPrefix, -⟩ := grows.block other block isBlock
  exact ⟨later, isLater, name, isPrefix.sublist⟩

theorem Function.extends_addSlot (function : Function) (name : String) :
    function.Extends (function.addSlot name) := by
  refine ⟨rfl, rfl, rfl, rfl, Nat.le_add_right _ _, fun index block isBlock => ?_⟩
  rw [getElem?_addSlot]
  split
  · subst index
    refine ⟨block.insertAlloca (.alloca function.registers name), by rw [isBlock]; rfl, rfl, ?_⟩
    rw [Block.toList_insertAlloca, ← block.leading_append]
    exact (List.sublist_cons_self _ _).append_left _
  · exact ⟨block, isBlock, rfl, .refl _⟩

/-! ### What has been built -/

structure Block.Built (slots : List Instruction) (block : Block) : Prop where
  /-- No instruction stands behind a terminator. -/
  terminator : ∀ (before : List Instruction) (instruction : Instruction) (after : List Instruction),
    block.instructions.toList = before ++ instruction :: after → instruction.isTerminator →
      after = []
  alloca : ∃ others, block.instructions.toList = slots ++ others ∧
    ∀ other ∈ others, ¬ other.isAlloca

structure Function.Built (slots : List Instruction) (function : Function) : Prop where
  /-- The slots are in front of the first block, and nowhere else. -/
  block : ∀ (index : Nat) (block : Block), function.blocks[index]? = some block →
    block.Built (if index = 0 then slots else [])
  nodup : function.definedRegisters.Nodup
  bound : ∀ register ∈ function.definedRegisters, register < function.registers
  isAlloca : ∀ slot ∈ slots, slot.isAlloca
  noBlocks : function.blocks.size = 0 → slots = []

inductive Function.Step (function : Function) : Option Instruction → Function → Prop
  | same : Step function none function
  | push {index : Nat} {instruction : Instruction} {count : Nat}
      (notAlloca : ¬ instruction.isAlloca)
      (results : defined [instruction] = List.range' function.registers count) :
      Step function none (function.push index instruction count)
  | addBlock (name : String) : Step function none (function.addBlock name)
  | addSlot (name : String) {entry : Block} (isEntry : function.blocks[0]? = some entry) :
      Step function (some (.alloca function.registers name)) (function.addSlot name)

namespace Block

variable {block : Block} {slots others : List Instruction}

/-- Where a block begins with slots, these are what another slot is put behind. -/
theorem leading_eq (isCut : block.instructions.toList = slots ++ others)
    (areAllocas : ∀ slot ∈ slots, slot.isAlloca) (noAllocas : ∀ other ∈ others, ¬ other.isAlloca) :
    block.leading = (slots, others) := by
  rw [leading, isCut, List.span_eq_takeWhile_dropWhile]
  rw [List.takeWhile_append_of_pos areAllocas, List.dropWhile_append_of_pos areAllocas]
  cases others with
  | nil => simp
  | cons first others => simp [noAllocas first List.mem_cons_self]

theorem built_empty (name : String) : (⟨name, #[]⟩ : Block).Built [] :=
  ⟨fun _ _ _ isCut => by simp at isCut, [], rfl, by simp⟩

theorem Built.append {instruction : Instruction} (built : block.Built slots)
    (notAlloca : ¬ instruction.isAlloca) : (block.append instruction).Built slots := by
  unfold Block.append
  split
  · exact built
  · rename_i goesOn
    constructor
    · intro before found after isCut isEnd
      rw [Array.toList_push] at isCut
      rcases List.append_cons_eq_concat isCut with ⟨rest, -, isCut⟩ | ⟨rfl, -, -⟩
      · obtain rfl := built.terminator before found rest isCut isEnd
        have isLast : block.instructions.back? = some found := by
          rw [← Array.getLast?_toList, isCut, List.getLast?_concat]
        exact absurd (by rw [Block.isTerminated, isLast]; exact isEnd) goesOn
      · rfl
    · obtain ⟨others, isCut, noAllocas⟩ := built.alloca
      refine ⟨others ++ [instruction], by simp [isCut], fun other isOther => ?_⟩
      rcases List.mem_append.1 isOther with isOld | isNew
      · exact noAllocas other isOld
      · rwa [List.mem_singleton.1 isNew]

/-- Another slot is put behind all slots of before, also into a complete block. -/
theorem Built.insertAlloca (built : block.Built slots) (areAllocas : ∀ slot ∈ slots, slot.isAlloca)
    (register : Register) (name : String) :
    (block.insertAlloca (.alloca register name)).Built (slots ++ [.alloca register name]) := by
  obtain ⟨others, isCut, noAllocas⟩ := built.alloca
  have isNew : (block.insertAlloca (.alloca register name)).instructions.toList =
      slots ++ .alloca register name :: others := by
    rw [toList_insertAlloca, leading_eq isCut areAllocas noAllocas]
  constructor
  · intro before found after isFound isEnd
    rw [isNew] at isFound
    rcases List.append_cons_eq_append_cons isFound with ⟨rest, isFront⟩ | ⟨-, rfl⟩ | ⟨rest, -, isBack⟩
    · have isAlloca : found.isAlloca := areAllocas found (by rw [isFront]; simp)
      cases found <;> cases isAlloca
      cases isEnd
    · cases isEnd
    · refine built.terminator (slots ++ rest) found after ?_ isEnd
      rw [isCut, isBack, List.append_assoc]
  · exact ⟨others, by rw [isNew, List.append_assoc]; rfl, noAllocas⟩

end Block

theorem exists_perm_flatMap_modify {α β : Type} (f : α → List β) (g : α → α) {more : List β}
    (grows : ∀ item, ∃ part, part.Sublist more ∧ (f (g item)).Perm (f item ++ part))
    (items : List α) (index : Nat) :
    ∃ part, part.Sublist more ∧
      ((items.modify index g).flatMap f).Perm (items.flatMap f ++ part) := by
  cases isItem : items[index]? with
  | none =>
      refine ⟨[], List.nil_sublist _, ?_⟩
      rw [List.modify_eq_self (List.getElem?_eq_none_iff.1 isItem), List.append_nil]
  | some item =>
      obtain ⟨part, isPart, perm⟩ := grows item
      exact ⟨part, isPart, perm_flatMap_modify f g part isItem perm⟩

/-- An instruction that is dropped defines nothing. -/
theorem Block.exists_defined_append (block : Block) (instruction : Instruction) :
    ∃ part, part.Sublist (defined [instruction]) ∧
      (defined (block.append instruction).instructions.toList).Perm
        (defined block.instructions.toList ++ part) := by
  unfold append
  split
  · exact ⟨[], List.nil_sublist _, .of_eq (List.append_nil _).symm⟩
  · exact ⟨_, .refl _, .of_eq (by simp [defined])⟩

theorem Function.exists_definedRegisters_push (function : Function) (index : Nat)
    (instruction : Instruction) (count : Nat) : ∃ part, part.Sublist (defined [instruction]) ∧
      (function.push index instruction count).definedRegisters.Perm
        (function.definedRegisters ++ part) := by
  simp only [definedRegisters, push, Array.toList_modify]
  exact exists_perm_flatMap_modify _ _ (fun block => block.exists_defined_append instruction) _ _

namespace Function.Built

variable {function : Function} {slots : List Instruction}

theorem registers {later : Function} {part : List Register} (count : Nat)
    (built : function.Built slots)
    (perm : later.definedRegisters.Perm (function.definedRegisters ++ part))
    (isPart : part.Sublist (List.range' function.registers count))
    (isCount : later.registers = function.registers + count) :
    later.definedRegisters.Nodup ∧
      ∀ register ∈ later.definedRegisters, register < later.registers := by
  have fresh {register : Register} (isIn : register ∈ part) :
      function.registers ≤ register ∧ register < function.registers + count :=
    List.mem_range'_1.1 (isPart.subset isIn)
  constructor
  · refine perm.nodup_iff.2 (List.nodup_append.2 ⟨built.nodup, isPart.nodup List.nodup_range', ?_⟩)
    rintro register isOld _ isNew rfl
    exact absurd (built.bound register isOld) (Nat.not_lt_of_le (fresh isNew).1)
  · intro register isIn
    rw [isCount]
    rcases List.mem_append.1 (perm.mem_iff.1 isIn) with isOld | isNew
    · exact Nat.lt_add_right count (built.bound register isOld)
    · exact (fresh isNew).2

theorem push {index count : Nat} {instruction : Instruction} (built : function.Built slots)
    (notAlloca : ¬ instruction.isAlloca)
    (results : defined [instruction] = List.range' function.registers count) :
    (function.push index instruction count).Built slots := by
  obtain ⟨part, isPart, perm⟩ := function.exists_definedRegisters_push index instruction count
  rw [results] at isPart
  obtain ⟨nodup, bound⟩ := built.registers count perm isPart rfl
  refine ⟨?_, nodup, bound, built.isAlloca, ?_⟩
  · intro other block isBlock
    rw [getElem?_push] at isBlock
    split at isBlock
    · obtain ⟨old, isOld, rfl⟩ := Option.map_eq_some_iff.1 isBlock
      exact (built.block other old isOld).append notAlloca
    · exact built.block other block isBlock
  · intro noBlocks
    exact built.noBlocks (by simpa [Function.push] using noBlocks)

theorem addBlock (built : function.Built slots) (name : String) :
    (function.addBlock name).Built slots := by
  have isSame : (function.addBlock name).definedRegisters = function.definedRegisters := by
    simp [definedRegisters, Function.addBlock, defined]
  refine ⟨?_, isSame ▸ built.nodup, isSame ▸ built.bound, built.isAlloca, by simp [Function.addBlock]⟩
  intro index block isBlock
  simp only [Function.addBlock, Array.getElem?_push] at isBlock
  split at isBlock
  · rename_i isLast
    obtain rfl := Option.some.inj isBlock
    -- where the first block is new, no slot has been asked for yet
    have noSlots : (if index = 0 then slots else []) = [] := by
      split
      · rename_i isFirst
        exact built.noBlocks (isLast.symm.trans isFirst)
      · rfl
    rw [noSlots]
    exact Block.built_empty name
  · exact built.block index block isBlock

theorem addSlot {entry : Block} (built : function.Built slots)
    (isEntry : function.blocks[0]? = some entry) (name : String) :
    (function.addSlot name).Built (slots ++ [.alloca function.registers name]) := by
  obtain ⟨nodup, bound⟩ :=
    built.registers 1 (definedRegisters_addSlot isEntry name) (.refl _) rfl
  refine ⟨?_, nodup, bound, ?_, ?_⟩
  · intro index block isBlock
    rw [getElem?_addSlot] at isBlock
    split at isBlock
    · subst index
      obtain ⟨old, isOld, rfl⟩ := Option.map_eq_some_iff.1 isBlock
      exact (built.block 0 old isOld).insertAlloca built.isAlloca _ name
    · rename_i notFirst
      have isBuilt := built.block index block isBlock
      rwa [if_neg notFirst] at isBuilt ⊢
  · intro slot isSlot
    rcases List.mem_append.1 isSlot with isOld | isNew
    · exact built.isAlloca slot isOld
    · rw [List.mem_singleton.1 isNew]
      rfl
  · intro noBlocks
    have isBound := (Array.getElem?_eq_some_iff.1 isEntry).1
    simp only [Function.addSlot, Array.size_modify] at noBlocks
    omega

end Function.Built

theorem Function.built_of_noBlocks {function : Function} (noBlocks : function.blocks = #[]) :
    function.Built [] := by
  have noRegisters : function.definedRegisters = [] := by simp [definedRegisters, noBlocks]
  exact ⟨by simp [noBlocks], by simp [noRegisters], by simp [noRegisters], by simp, fun _ => rfl⟩

namespace Function.Step

variable {function later : Function} {slot : Option Instruction}

theorem extended (step : function.Step slot later) : function.Extends later := by
  cases step with
  | same => exact .refl function
  | push _ _ => exact (function.grows_push _ _ _).extended
  | addBlock name => exact (function.grows_addBlock 0 name).extended
  | addSlot name _ => exact function.extends_addSlot name

theorem built {slots : List Instruction} (step : function.Step slot later)
    (built : function.Built slots) : later.Built (slots ++ slot.toList) := by
  cases step with
  | addSlot name isEntry => exact built.addSlot isEntry name
  | same => rwa [Option.toList_none, List.append_nil]
  | push notAlloca results =>
      rw [Option.toList_none, List.append_nil]
      exact built.push notAlloca results
  | addBlock name =>
      rw [Option.toList_none, List.append_nil]
      exact built.addBlock name

end Function.Step

/-! ### Steps -/

namespace Builder

structure Step (slot? : FunctionId → Option Instruction) (old new : Builder) : Prop where
  name : new.ir.name = old.ir.name
  globals : old.ir.globals.toList <+: new.ir.globals.toList
  function : ∀ (id : FunctionId) (function : Function), old.ir.functions[id]? = some function →
    ∃ later, new.ir.functions[id]? = some later ∧ function.Step (slot? id) later
  /-- New functions have neither blocks nor slots. -/
  fresh : ∀ id : FunctionId, old.ir.functions[id]? = none → slot? id = none ∧
    ∀ later, new.ir.functions[id]? = some later → later.blocks = #[]
  insertPoint : ∀ here, new.insertPoint = some here →
    old.insertPoint = some here ∨ (new.ir.block? here).isSome

def IsPlaced (builder : Builder) : Prop :=
  ∀ here, builder.insertPoint = some here → (builder.ir.block? here).isSome

/-- What has been built by a history, with the slots that each function was asked for. -/
structure Built (slots : FunctionId → List Instruction) (builder : Builder) : Prop where
  isPlaced : builder.IsPlaced
  function : ∀ (id : FunctionId) (function : Function), builder.ir.functions[id]? = some function →
    function.Built (slots id)
  noFunction : ∀ id : FunctionId, builder.ir.functions[id]? = none → slots id = []

end Builder

theorem Module.block?_eq_some_iff {ir : Module} {id : BlockId} {block : Block} :
    ir.block? id = some block ↔ ∃ function, ir.functions[id.function]? = some function ∧
      function.blocks[id.index]? = some block := by
  simp [block?, Option.bind_eq_some_iff]

theorem Module.Extends.isSome_block? {old new : Module} (extends_ : old.Extends new) {id : BlockId}
    (isSome : (old.block? id).isSome) : (new.block? id).isSome := by
  obtain ⟨block, isBlock⟩ := Option.isSome_iff_exists.1 isSome
  obtain ⟨function, isFunction, isBlock⟩ := block?_eq_some_iff.1 isBlock
  obtain ⟨later, isLater, grown⟩ := extends_.function _ function isFunction
  obtain ⟨last, isLast, -⟩ := grown.block _ block isBlock
  exact Option.isSome_iff_exists.2 ⟨last, block?_eq_some_iff.2 ⟨later, isLater, isLast⟩⟩

namespace Builder

variable {old new builder : Builder} {slot? : FunctionId → Option Instruction}

theorem Step.extended (step : old.Step slot? new) : old.ir.Extends new.ir := by
  refine ⟨step.name, step.globals, fun id function isFunction => ?_⟩
  obtain ⟨later, isLater, grown⟩ := step.function id function isFunction
  exact ⟨later, isLater, grown.extended⟩

theorem Step.built {slots : FunctionId → List Instruction} (step : old.Step slot? new)
    (built : old.Built slots) : new.Built fun id => slots id ++ (slot? id).toList := by
  constructor
  · intro here isHere
    rcases step.insertPoint here isHere with isOld | isBlock
    · exact step.extended.isSome_block? (built.isPlaced here isOld)
    · exact isBlock
  · intro id later isLater
    cases isFunction : old.ir.functions[id]? with
    | some function =>
        obtain ⟨same, isSame, grown⟩ := step.function id function isFunction
        obtain rfl := Option.some.inj (isLater.symm.trans isSame)
        exact grown.built (built.function id function isFunction)
    | none =>
        obtain ⟨noSlot, noBlocks⟩ := step.fresh id isFunction
        rw [built.noFunction id isFunction, noSlot]
        exact Function.built_of_noBlocks (noBlocks later isLater)
  · intro id isNone
    cases isFunction : old.ir.functions[id]? with
    | some function =>
        obtain ⟨later, isLater, -⟩ := step.function id function isFunction
        rw [isNone] at isLater
        cases isLater
    | none => rw [built.noFunction id isFunction, (step.fresh id isFunction).1]; rfl

/-! ### Operations are steps -/

theorem Step.refl (builder : Builder) : builder.Step (fun _ => none) builder where
  name := rfl
  globals := List.prefix_rfl
  function _ function isFunction := ⟨function, isFunction, .same⟩
  fresh _ isNone := ⟨rfl, fun _ isLater => by rw [isNone] at isLater; cases isLater⟩
  insertPoint _ isHere := .inl isHere

theorem step_modifyFunction {id : FunctionId} {function : Function} {change : Function → Function}
    (isFunction : builder.ir.functions[id]? = some function)
    (step : function.Step (slot? id) (change function))
    (others : ∀ other, id ≠ other → slot? other = none) :
    builder.Step slot? (builder.modifyFunction id change) where
  name := rfl
  globals := List.prefix_rfl
  function other old isOld := by
    rw [functions_modifyFunction]
    split
    · subst other
      obtain rfl := Option.some.inj (isFunction.symm.trans isOld)
      exact ⟨change function, by rw [isFunction]; rfl, step⟩
    · rename_i isOther
      rw [others other isOther]
      exact ⟨old, isOld, .same⟩
  fresh other isNone := by
    have isOther : id ≠ other := by
      rintro rfl
      rw [isNone] at isFunction
      cases isFunction
    refine ⟨others other isOther, fun later isLater => ?_⟩
    rw [functions_modifyFunction, if_neg isOther, isNone] at isLater
    cases isLater
  insertPoint _ isHere := .inl isHere

theorem IsPlaced.exists_function (isPlaced : builder.IsPlaced) {here : BlockId}
    (isHere : builder.insertPoint = some here) :
    ∃ function block, builder.ir.functions[here.function]? = some function ∧
      function.blocks[here.index]? = some block := by
  obtain ⟨block, isBlock⟩ := Option.isSome_iff_exists.1 (isPlaced here isHere)
  obtain ⟨function, isFunction, isBlock⟩ := Module.block?_eq_some_iff.1 isBlock
  exact ⟨function, block, isFunction, isBlock⟩

theorem freshRegister_none (isHere : builder.insertPoint = none) :
    Build.freshRegister builder = (none, builder) := by
  simp [Build.freshRegister, isHere]

theorem step_emit (isPlaced : builder.IsPlaced) {instruction : Instruction}
    (notAlloca : ¬ instruction.isAlloca) (noResult : instruction.result? = none) :
    builder.Step (fun _ => none) (Build.emit instruction builder).2 := by
  cases isHere : builder.insertPoint with
  | none =>
      have same : Build.emit instruction builder = ((), builder) := by
        change ((), _) = ((), _)
        simp only [isHere]
      rw [same]
      exact .refl builder
  | some here =>
      obtain ⟨function, _, isFunction, -⟩ := isPlaced.exists_function isHere
      rw [Build.emit_eq _ isHere]
      exact step_modifyFunction isFunction (.push notAlloca (by simp [defined, noResult]))
        fun _ _ => rfl

theorem step_emitValue (isPlaced : builder.IsPlaced) {instruction : Register → Instruction}
    (notAlloca : ∀ register, ¬ (instruction register).isAlloca)
    (isResult : ∀ register, (instruction register).result? = some register) :
    builder.Step (fun _ => none) (Build.emitValue instruction builder).2 := by
  cases isHere : builder.insertPoint with
  | none =>
      have same : (Build.emitValue instruction builder).2 = builder := by
        simp [Build.emitValue, freshRegister_none isHere]
      rw [same]
      exact .refl builder
  | some here =>
      obtain ⟨function, _, isFunction, -⟩ := isPlaced.exists_function isHere
      rw [Build.emitValue_eq instruction isHere isFunction]
      exact step_modifyFunction isFunction
        (.push (notAlloca _) (by simp [defined, isResult])) fun _ _ => rfl

theorem step_addFunction (name : String) (parameters : Nat) (returnsValue variadic : Bool) :
    builder.Step (fun _ => none)
      (Build.addFunction name parameters returnsValue variadic builder).2 := by
  let unique := uniqueName (builder.ir.functions.toList.map (·.name)) name
  let functions := builder.ir.functions.push ⟨unique, parameters, returnsValue, variadic, #[], 0⟩
  change builder.Step _ { builder with ir := { builder.ir with functions := functions } }
  refine ⟨rfl, List.prefix_rfl, ?_, ?_, fun _ isHere => .inl isHere⟩
  · intro id old isOld
    refine ⟨old, ?_, .same⟩
    have isBound := (Array.getElem?_eq_some_iff.1 isOld).1
    rw [Array.getElem?_push_lt isBound]
    exact isOld ▸ (Array.getElem?_eq_getElem isBound).symm
  · intro id isNone
    refine ⟨rfl, fun later isLater => ?_⟩
    simp only [functions, Array.getElem?_push, isNone] at isLater
    split at isLater
    · obtain rfl := Option.some.inj isLater
      rfl
    · cases isLater

theorem step_alloca (isPlaced : builder.IsPlaced) (name : String) :
    builder.Step (fun id => (Operation.alloca name).slot? builder id)
      (Build.alloca name builder).2 := by
  cases isHere : builder.insertPoint with
  | none =>
      have same : (Build.alloca name builder).2 = builder := by
        simp [Build.alloca, isHere, freshRegister_none isHere]
      have noSlot : (fun id => (Operation.alloca name).slot? builder id) = fun _ => none := by
        simp only [Operation.slot?, isHere]
      rw [same, noSlot]
      exact .refl builder
  | some here =>
      obtain ⟨function, block, isFunction, isBlock⟩ := isPlaced.exists_function isHere
      obtain ⟨entry, isEntry⟩ : ∃ entry, function.blocks[0]? = some entry := by
        have isBound := (Array.getElem?_eq_some_iff.1 isBlock).1
        exact ⟨_, Array.getElem?_eq_getElem (Nat.zero_lt_of_lt isBound)⟩
      have isSlot (id : FunctionId) : (Operation.alloca name).slot? builder id =
          if here.function = id then some (.alloca function.registers name) else none := by
        simp only [Operation.slot?, isHere, Build.alloca_eq name isHere isFunction]
      rw [Build.alloca_eq name isHere isFunction]
      refine step_modifyFunction isFunction ?_ fun other isOther => ?_
      · rw [isSlot, if_pos rfl]
        exact .addSlot name isEntry
      · rw [isSlot, if_neg isOther]

namespace Operation

theorem step_after {operation : Operation} (isPlaced : builder.IsPlaced)
    (isValid : operation.isValid builder) :
    builder.Step (fun id => operation.slot? builder id) (operation.after builder) := by
  cases operation with
  | declareFunction name parameters returnsValue => exact step_addFunction name _ _ _
  | declareExternal name parameters returnsValue variadic => exact step_addFunction name _ _ _
  | addGlobal name content constant linkage =>
      exact ⟨rfl, (builder.around_addGlobal name content constant linkage).globals,
        (Step.refl builder).function, (Step.refl builder).fresh, fun _ isHere => .inl isHere⟩
  | appendBlock id name =>
      obtain ⟨function, isFunction⟩ := Option.isSome_iff_exists.1 isValid
      have isAfter : (appendBlock id name).after builder =
          builder.modifyFunction id (·.addBlock name) :=
        congrArg Prod.snd (Build.appendBlock_eq isFunction name)
      rw [isAfter]
      exact step_modifyFunction isFunction (.addBlock name) fun _ _ => rfl
  | setInsertPoint block =>
      refine ⟨rfl, List.prefix_rfl, (Step.refl builder).function, (Step.refl builder).fresh, ?_⟩
      intro here isHere
      obtain rfl := Option.some.inj isHere
      exact .inr isValid
  | isTerminated => exact .refl builder
  | arith op left right =>
      change builder.Step _ (Build.arith op left right builder).2
      unfold Build.arith
      cases op.fold? left right with
      | some folded => exact .refl builder
      | none => exact step_emitValue isPlaced (fun _ => Bool.noConfusion) fun _ => rfl
  | compare predicate left right =>
      change builder.Step _ (Build.compare predicate left right builder).2
      unfold Build.compare
      cases predicate.fold? left right with
      | some folded => exact .refl builder
      | none => exact step_emitValue isPlaced (fun _ => Bool.noConfusion) fun _ => rfl
  | alloca name => exact step_alloca isPlaced name
  | load pointer => exact step_emitValue isPlaced (fun _ => Bool.noConfusion) fun _ => rfl
  | store value pointer => exact step_emit isPlaced Bool.noConfusion rfl
  | element base index => exact step_emitValue isPlaced (fun _ => Bool.noConfusion) fun _ => rfl
  | call callee arguments =>
      obtain ⟨called, isCalled⟩ := Option.isSome_iff_exists.1 isValid
      change builder.Step _ (Build.call callee arguments builder).2
      rw [Build.call_eq isCalled]
      split
      · exact step_emitValue isPlaced (fun _ => Bool.noConfusion) fun _ => rfl
      · exact step_emit isPlaced Bool.noConfusion rfl
  | jump target => exact step_emit isPlaced Bool.noConfusion rfl
  | branch condition holds fails => exact step_emit isPlaced Bool.noConfusion rfl
  | ret value => exact step_emit isPlaced Bool.noConfusion rfl

end Operation

/-! ### Runs -/

theorem areValid_append (earlier later : List Operation) (builder : Builder) :
    areValid (earlier ++ later) builder =
      (areValid earlier builder && areValid later (afterAll earlier builder)) := by
  induction earlier generalizing builder with
  | nil => rfl
  | cons first others ih =>
      simp only [List.cons_append, areValid, ih, Bool.and_assoc]
      rfl

theorem built_new (name : String) : (Builder.new name).Built fun _ => [] :=
  ⟨nofun, fun id function isFunction => by simp [Builder.new, Module.empty] at isFunction,
    fun _ _ => rfl⟩

theorem Built.afterAll {slots : FunctionId → List Instruction} {history : List Operation}
    (built : builder.Built slots) (valid : areValid history builder) :
    (afterAll history builder).Built fun id => slots id ++ slotsAsked id history builder := by
  induction history generalizing builder slots with
  | nil =>
      simp only [slotsAsked, List.append_nil]
      exact built
  | cons first others ih =>
      obtain ⟨isFirst, areOthers⟩ := Bool.and_eq_true_iff.1 valid
      have step := first.step_after built.isPlaced isFirst
      simp only [slotsAsked, ← List.append_assoc]
      exact ih (step.built built) areOthers

theorem Built.extends_afterAll {slots : FunctionId → List Instruction} {history : List Operation}
    (built : builder.Built slots) (valid : areValid history builder) :
    builder.ir.Extends (Builder.afterAll history builder).ir := by
  induction history generalizing builder slots with
  | nil => exact .refl builder.ir
  | cons first others ih =>
      obtain ⟨isFirst, areOthers⟩ := Bool.and_eq_true_iff.1 valid
      have step := first.step_after built.isPlaced isFirst
      exact step.extended.trans (ih (step.built built) areOthers)

/-- Behind any operations every function is as it should be, its slots in front in the order in which
they were asked for; and what the operations up to any point have made is still there. -/
theorem afterAll_built (name : String) (earlier later : List Operation)
    (valid : areValid (earlier ++ later) (.new name)) :
    let builder := afterAll (earlier ++ later) (.new name)
    (∀ (id : FunctionId) (function : Function), builder.ir.functions[id]? = some function →
      function.Built (slotsAsked id (earlier ++ later) (.new name))) ∧
    (afterAll earlier (.new name)).ir.Extends builder.ir := by
  intro builder
  have isBuilt := (built_new name).afterAll valid
  constructor
  · intro id function isFunction
    exact isBuilt.function id function isFunction
  · rw [areValid_append] at valid
    obtain ⟨areEarlier, areLater⟩ := Bool.and_eq_true_iff.1 valid
    have grown := ((built_new name).afterAll areEarlier).extends_afterAll areLater
    simpa only [builder, afterAll, List.foldl_append] using grown

/-- A slot that is asked for from the second block, when the first one is complete. -/
def lateSlot : List Operation :=
  [.declareFunction "main" 0 false, .ret none, .appendBlock 0 "entry", .appendBlock 0 "next",
    .setInsertPoint ⟨0, 0⟩, .alloca "x", .jump ⟨0, 1⟩, .ret none, .load (.register 0),
    .setInsertPoint ⟨0, 1⟩, .alloca "y", .ret none]

theorem afterAll_built_late :
    (areValid (lateSlot ++ [.alloca "z"]) (.new "m") ∧
      (afterAll (lateSlot ++ [.alloca "z"]) (.new "m")).ir.functions = #[⟨"main", 0, false, false,
        #[⟨"entry", #[.alloca 0 "x", .alloca 2 "y", .alloca 3 "z", .jump ⟨0, 1⟩]⟩,
          ⟨"next", #[.ret none]⟩], 4⟩]) ∧
    (∀ function, (afterAll (lateSlot ++ [.alloca "z"]) (.new "m")).ir.functions[0]? = some function →
      function.Built [.alloca 0 "x", .alloca 2 "y", .alloca 3 "z"]) ∧
    (afterAll lateSlot (.new "m")).ir.Extends
      (afterAll (lateSlot ++ [.alloca "z"]) (.new "m")).ir := by
  have isValid : areValid (lateSlot ++ [.alloca "z"]) (.new "m") := by decide +kernel
  obtain ⟨areBuilt, grown⟩ := afterAll_built "m" lateSlot [.alloca "z"] isValid
  have isAsked : slotsAsked 0 (lateSlot ++ [.alloca "z"]) (.new "m") =
      [.alloca 0 "x", .alloca 2 "y", .alloca 3 "z"] := by
    decide +kernel
  refine ⟨⟨isValid, by decide +kernel⟩, fun function isFunction => ?_, grown⟩
  exact isAsked ▸ areBuilt 0 function isFunction

end Builder

end MiniPascal.IR
