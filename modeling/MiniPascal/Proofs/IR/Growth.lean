import Mathlib.Data.List.TakeDrop
import Mathlib.Data.List.TakeWhile
import MiniPascal.Proofs.IR.WellFormed

/-!
# Functions under construction

While a function is built, some of its blocks are still open: they have no terminator yet.  Each
step of building keeps the function coherent and says which blocks are open behind it.
-/

namespace MiniPascal.IR

def Block.IsOpen (block : Block) : Prop :=
  ∀ instruction ∈ block.instructions.toList, ¬ instruction.isTerminator

/-- A function of which some blocks are open and all others complete. -/
structure Function.Growing (ir : Module) (id : FunctionId) (pending : List Nat)
    (function : Function) : Prop extends function.Coherent ir id where
  blocks : ∀ (index : Nat) (block : Block), function.blocks[index]? = some block →
    if index ∈ pending then block.IsOpen else block.IsComplete
  bound : ∀ index ∈ pending, index < function.blocks.size
  nodup : pending.Nodup

theorem Function.Growing.wellFormed {ir : Module} {id : FunctionId} {function : Function}
    (growing : function.Growing ir id []) : function.WellFormed ir id := by
  refine ⟨growing.toCoherent, fun block isBlock => ?_⟩
  obtain ⟨index, isIndex⟩ := Array.mem_iff_getElem?.1 isBlock
  simpa using growing.blocks index block isIndex

/-! ### What later steps leave alone -/

structure Module.Within (old new : Module) : Prop where
  globals : old.globals.size ≤ new.globals.size
  functions : ∀ (id : FunctionId) (function : Function), old.functions[id]? = some function →
    ∃ later, new.functions[id]? = some later ∧ later.parameters = function.parameters ∧
      later.variadic = function.variadic ∧ later.returnsValue = function.returnsValue

structure Function.Within (old new : Function) : Prop where
  blocks : old.blocks.size ≤ new.blocks.size
  parameters : new.parameters = old.parameters
  returnsValue : new.returnsValue = old.returnsValue
  slots : ∀ slot ∈ old.slots, slot ∈ new.slots

theorem Module.Within.refl (ir : Module) : ir.Within ir :=
  ⟨Nat.le_refl _, fun _ function isFunction => ⟨function, isFunction, rfl, rfl, rfl⟩⟩

theorem Function.Within.refl (function : Function) : function.Within function :=
  ⟨Nat.le_refl _, rfl, rfl, fun _ h => h⟩

section
variable {old new : Module} {function later : Function} {before : List Instruction}

theorem Operand.Fits.within {operand : Operand} {wider : List Instruction}
    (fits : operand.Fits old function before) (ir : old.Within new)
    (grown : function.Within later)
    (kept : ∀ register ∈ defined before, register ∈ defined wider) :
    operand.Fits new later wider := by
  cases operand with
  | int _ | bool _ => trivial
  | register slot =>
      rcases fits with isDefined | isSlot
      · exact .inl (kept slot isDefined)
      · exact .inr (grown.slots slot isSlot)
  | argument index => simpa [Fits, grown.parameters] using fits
  | global id => exact Nat.lt_of_lt_of_le fits ir.globals

theorem Instruction.Fits.within {id : FunctionId} {block : Nat} {instruction : Instruction}
    (fits : instruction.Fits old id function block before) (ir : old.Within new)
    (grown : function.Within later) : instruction.Fits new id later block before where
  operands operand isOperand :=
    (fits.operands operand isOperand).within ir grown fun _ isDefined => isDefined
  targets target isTarget := by
    obtain ⟨same, notFirst, exists_⟩ := fits.targets target isTarget
    exact ⟨same, notFirst, Nat.lt_of_lt_of_le exists_ grown.blocks⟩
  alloca := fits.alloca
  call result callee arguments isCall := by
    obtain ⟨called, isCalled, arity, destination⟩ := fits.call result callee arguments isCall
    obtain ⟨called', isCalled', same₁, same₂, same₃⟩ := ir.functions callee called isCalled
    exact ⟨called', isCalled', by rwa [same₁, same₂], by rw [same₃, destination]⟩
  ret value isRet := by rw [grown.returnsValue, fits.ret value isRet]

end

theorem Function.Growing.within {old new : Module} {id : FunctionId} {pending : List Nat}
    {function : Function} (growing : function.Growing old id pending) (ir : old.Within new) :
    function.Growing new id pending where
  registers := growing.registers
  instruction index block isBlock before instruction after isCut :=
    (growing.instruction index block isBlock before instruction after isCut).within ir
      (.refl function)
  blocks := growing.blocks
  bound := growing.bound
  nodup := growing.nodup

/-! ### Appending an instruction -/

def Function.push (function : Function) (index : Nat) (instruction : Instruction) (count : Nat) :
    Function :=
  { function with
    registers := function.registers + count
    blocks := function.blocks.modify index (·.append instruction) }

theorem Block.IsOpen.isTerminated {block : Block} (isOpen : block.IsOpen) :
    block.isTerminated = false := by
  unfold Block.isTerminated
  cases isLast : block.instructions.back? with
  | none => rfl
  | some last =>
      have isIn : last ∈ block.instructions.toList := by
        rw [← Array.getLast?_toList] at isLast
        exact List.mem_of_getLast? isLast
      simpa using isOpen last isIn

theorem Block.IsOpen.append {block : Block} (isOpen : block.IsOpen) (instruction : Instruction) :
    block.append instruction =
      { block with instructions := block.instructions.push instruction } := by
  simp [Block.append, isOpen.isTerminated]

theorem List.append_cons_eq_concat {α : Type} {before after whole : List α} {middle last : α}
    (h : whole ++ [last] = before ++ middle :: after) :
    (∃ rest, after = rest ++ [last] ∧ whole = before ++ middle :: rest) ∨
      (after = [] ∧ before = whole ∧ middle = last) := by
  rcases List.eq_nil_or_concat after with rfl | ⟨rest, final, rfl⟩
  · obtain ⟨rfl, same⟩ := List.append_inj' h rfl
    exact .inr ⟨rfl, rfl, by simpa using same.symm⟩
  · rw [List.concat_eq_append, ← List.cons_append, ← List.append_assoc] at h
    obtain ⟨rfl, same⟩ := List.append_inj' h rfl
    exact .inl ⟨rest, by simpa using same.symm, rfl⟩

/-- What an instruction must satisfy to be appended to a block of a growing function. -/
structure Instruction.Appendable (ir : Module) (id : FunctionId) (function : Function)
    (index : Nat) (instruction : Instruction) (count : Nat) : Prop where
  fits : ∀ block : Block, function.blocks[index]? = some block →
    instruction.Fits ir id function index block.instructions.toList
  notAlloca : ¬ instruction.isAlloca
  results : defined [instruction] = List.range' function.registers count

theorem Function.getElem?_push {function : Function} {index : Nat} {instruction : Instruction}
    {count : Nat} (other : Nat) :
    (function.push index instruction count).blocks[other]? =
      if index = other then function.blocks[other]?.map (·.append instruction)
      else function.blocks[other]? := by
  simp [push, Array.getElem?_modify]

theorem Function.slots_push {function : Function} {index : Nat} {instruction : Instruction}
    {count : Nat} (notAlloca : ¬ instruction.isAlloca) :
    (function.push index instruction count).slots = function.slots := by
  unfold slots
  rw [getElem?_push]
  cases function.blocks[0]? with
  | none => simp
  | some entry =>
      by_cases isFirst : index = 0
      · simp only [isFirst, if_true, Option.map_some, Block.append]
        split
        · rfl
        · simp [List.filter_append, notAlloca]
      · simp [isFirst]

theorem Function.within_push {function : Function} {index : Nat} {instruction : Instruction}
    {count : Nat} (notAlloca : ¬ instruction.isAlloca) :
    function.Within (function.push index instruction count) :=
  ⟨by simp [push], rfl, rfl, by simp [slots_push notAlloca]⟩

theorem perm_flatMap_modify {α β : Type} (f : α → List β) (g : α → α) (more : List β)
    {items : List α} {index : Nat} {item : α} (isItem : items[index]? = some item)
    (grows : (f (g item)).Perm (f item ++ more)) :
    ((items.modify index g).flatMap f).Perm (items.flatMap f ++ more) := by
  induction items generalizing index with
  | nil => simp at isItem
  | cons first others ih =>
      cases index with
      | zero =>
          simp only [List.getElem?_cons_zero, Option.some.injEq] at isItem
          subst isItem
          simp only [List.modify_zero_cons, List.flatMap_cons]
          refine (grows.append_right _).trans ?_
          rw [List.append_assoc, List.append_assoc]
          exact List.perm_append_comm.append_left _
      | succ index =>
          simp only [List.getElem?_cons_succ] at isItem
          simpa [List.modify_succ_cons, List.append_assoc] using (ih isItem).append_left _

theorem Function.Coherent.push {ir : Module} {id : FunctionId} {function : Function}
    {index count : Nat} {block : Block} {instruction : Instruction}
    (coherent : function.Coherent ir id) (isBlock : function.blocks[index]? = some block)
    (isOpen : block.IsOpen) (ok : instruction.Appendable ir id function index count) :
    (function.push index instruction count).Coherent ir id where
  registers := by
    have grown : (function.push index instruction count).definedRegisters.Perm
        (function.definedRegisters ++ defined [instruction]) := by
      simp only [definedRegisters, Function.push, Array.toList_modify]
      refine perm_flatMap_modify _ _ _ (by simpa using isBlock) (.of_eq ?_)
      simp [isOpen.append, defined]
    refine grown.trans ((coherent.registers.append_right _).trans ?_)
    have range := List.range'_append_1 (s := 0) (m := function.registers) (n := count)
    rw [Nat.zero_add] at range
    rw [ok.results, List.range_eq_range', range, ← List.range_eq_range']
    exact .refl _
  instruction other otherBlock isOther before found after isCut := by
    have within : function.Within (function.push index instruction count) :=
      Function.within_push ok.notAlloca
    rw [getElem?_push] at isOther
    split at isOther
    · subst other
      rw [isBlock, Option.map_some, isOpen.append] at isOther
      obtain rfl := Option.some.inj isOther
      simp only [Array.toList_push] at isCut
      rcases List.append_cons_eq_concat isCut with ⟨rest, -, isCut⟩ | ⟨-, rfl, rfl⟩
      · exact (coherent.instruction index block isBlock before found rest isCut).within
          (.refl ir) within
      · exact (ok.fits block isBlock).within (.refl ir) within
    · exact (coherent.instruction other otherBlock isOther before found after isCut).within
        (.refl ir) within

theorem Block.IsOpen.push {block : Block} {instruction : Instruction} (isOpen : block.IsOpen)
    (goesOn : ¬ instruction.isTerminator) : (block.append instruction).IsOpen := by
  rw [isOpen.append]
  intro other isOther
  simp only [Array.toList_push, List.mem_append, List.mem_singleton] at isOther
  rcases isOther with isOther | rfl
  · exact isOpen other isOther
  · exact goesOn

theorem Block.IsOpen.complete {block : Block} {instruction : Instruction} (isOpen : block.IsOpen)
    (ends : instruction.isTerminator) : (block.append instruction).IsComplete := by
  rw [isOpen.append]
  exact ⟨block.instructions.toList, instruction, by simp, ends, isOpen⟩

theorem Function.Growing.push {ir : Module} {id : FunctionId} {function : Function}
    {index count : Nat} {pending : List Nat} {instruction : Instruction}
    (growing : function.Growing ir id (index :: pending))
    (ok : instruction.Appendable ir id function index count) :
    (function.push index instruction count).Growing ir id
      (if instruction.isTerminator then pending else index :: pending) := by
  obtain ⟨block, isBlock⟩ : ∃ block, function.blocks[index]? = some block :=
    ⟨_, Array.getElem?_eq_getElem (growing.bound index (by simp))⟩
  have isOpen : block.IsOpen := by simpa using growing.blocks index block isBlock
  have notPending : index ∉ pending := (List.nodup_cons.1 growing.nodup).1
  refine ⟨growing.toCoherent.push isBlock isOpen ok, ?_, ?_, ?_⟩
  · intro other otherBlock isOther
    rw [getElem?_push] at isOther
    split at isOther
    · subst other
      rw [isBlock] at isOther
      obtain rfl := Option.some.inj isOther
      split
      · rename_i ends
        simpa [notPending] using isOpen.complete ends
      · rename_i goesOn
        simpa using isOpen.push goesOn
    · rename_i different
      have kept := growing.blocks other otherBlock isOther
      simp only [List.mem_cons, Ne.symm different, false_or] at kept
      split
      · exact kept
      · simpa [Ne.symm different] using kept
  · intro other isPending
    have isBound := growing.bound other (by split at isPending <;> simp_all)
    simpa [Function.push] using isBound
  · split
    · exact (List.nodup_cons.1 growing.nodup).2
    · exact growing.nodup

/-! ### Adding a block -/

def Function.addBlock (function : Function) (name : String) : Function :=
  { function with blocks := function.blocks.push ⟨name, #[]⟩ }

theorem Function.slots_addBlock {function : Function} (name : String) :
    (function.addBlock name).slots = function.slots := by
  unfold slots addBlock
  simp only [Array.getElem?_push]
  by_cases isEmpty : 0 = function.blocks.size
  · simp [← isEmpty, defined]
  · simp [isEmpty]

theorem Function.within_addBlock {function : Function} (name : String) :
    function.Within (function.addBlock name) :=
  ⟨by simp [addBlock], rfl, rfl, by simp [slots_addBlock]⟩

theorem Function.Growing.addBlock {ir : Module} {id : FunctionId} {function : Function}
    {pending : List Nat} (growing : function.Growing ir id pending) (name : String) :
    (function.addBlock name).Growing ir id (function.blocks.size :: pending) := by
  have fresh : function.blocks.size ∉ pending := fun isPending =>
    Nat.lt_irrefl _ (growing.bound _ isPending)
  refine ⟨⟨?_, ?_⟩, ?_, ?_, List.nodup_cons.2 ⟨fresh, growing.nodup⟩⟩
  · simpa [definedRegisters, Function.addBlock, defined] using growing.registers
  · intro index block isBlock before instruction after isCut
    simp only [Function.addBlock, Array.getElem?_push] at isBlock
    split at isBlock
    · obtain rfl := Option.some.inj isBlock
      simp at isCut
    · exact (growing.instruction index block isBlock before instruction after isCut).within
        (.refl ir) (within_addBlock name)
  · intro index block isBlock
    simp only [Function.addBlock, Array.getElem?_push] at isBlock
    split at isBlock
    · rename_i isLast
      obtain rfl := Option.some.inj isBlock
      simp [isLast, Block.IsOpen]
    · rename_i notLast
      simpa [notLast] using growing.blocks index block isBlock
  · intro index isPending
    rcases List.mem_cons.1 isPending with rfl | isPending
    · simp [Function.addBlock]
    · have := growing.bound index isPending
      simp only [Function.addBlock, Array.size_push]
      omega

/-! ### Adding a stack slot -/

def Function.addSlot (function : Function) (name : String) : Function :=
  { function with
    registers := function.registers + 1
    blocks := function.blocks.modify 0 (·.insertAlloca (.alloca function.registers name)) }

def Block.leading (block : Block) : List Instruction × List Instruction :=
  block.instructions.toList.span (·.isAlloca)

theorem Block.leading_append (block : Block) :
    block.leading.1 ++ block.leading.2 = block.instructions.toList := by
  simp [leading, List.span_eq_takeWhile_dropWhile]

theorem Block.isAlloca_leading {block : Block} {instruction : Instruction}
    (isLeading : instruction ∈ block.leading.1) : instruction.isAlloca := by
  simp only [leading, List.span_eq_takeWhile_dropWhile] at isLeading
  exact List.mem_takeWhile_imp isLeading

theorem Block.toList_insertAlloca (block : Block) (instruction : Instruction) :
    (block.insertAlloca instruction).instructions.toList =
      block.leading.1 ++ instruction :: block.leading.2 := rfl

theorem Function.getElem?_addSlot {function : Function} {name : String} (index : Nat) :
    (function.addSlot name).blocks[index]? =
      if index = 0 then
        function.blocks[0]?.map (·.insertAlloca (.alloca function.registers name))
      else function.blocks[index]? := by
  simp only [addSlot, Array.getElem?_modify, eq_comm (a := 0)]
  split
  · rename_i isFirst
    simp [isFirst]
  · rfl

theorem Function.slots_addSlot {function : Function} {name : String} {entry : Block}
    (isEntry : function.blocks[0]? = some entry) :
    (function.addSlot name).slots.Perm (function.registers :: function.slots) := by
  unfold slots
  rw [getElem?_addSlot]
  simp only [if_true, isEntry, Option.map_some, Block.toList_insertAlloca,
    ← Block.leading_append entry]
  simp only [List.filter_append, defined, List.filterMap_append, List.filter_cons,
    Instruction.isAlloca, if_true, List.filterMap_cons, Instruction.result?]
  exact List.perm_middle

theorem Function.within_addSlot {function : Function} {name : String} {entry : Block}
    (isEntry : function.blocks[0]? = some entry) :
    function.Within (function.addSlot name) :=
  ⟨by simp [addSlot], rfl, rfl, fun slot isSlot =>
    (slots_addSlot isEntry).mem_iff.2 (List.mem_cons_of_mem _ isSlot)⟩

theorem Function.definedRegisters_addSlot {function : Function} {entry : Block}
    (isEntry : function.blocks[0]? = some entry) (name : String) :
    (function.addSlot name).definedRegisters.Perm
      (function.definedRegisters ++ [function.registers]) := by
  simp only [definedRegisters, addSlot, Array.toList_modify]
  refine perm_flatMap_modify _ _ _ (by simpa using isEntry) ?_
  rw [Block.toList_insertAlloca, ← entry.leading_append]
  simp only [defined, List.filterMap_append, List.filterMap_cons, Instruction.result?]
  exact List.perm_middle.trans (List.perm_append_singleton _ _).symm

theorem List.append_cons_eq_append_cons {α : Type} {front back before after : List α} {a x : α}
    (h : front ++ a :: back = before ++ x :: after) :
    (∃ rest, front = before ++ x :: rest) ∨ (before = front ∧ x = a) ∨
      ∃ rest, before = front ++ a :: rest ∧ back = rest ++ x :: after := by
  rcases List.append_eq_append_iff.1 h with ⟨rest, rfl, same⟩ | ⟨rest, rfl, same⟩
  · cases rest with
    | nil =>
        obtain ⟨rfl, -⟩ := by simpa using same
        exact .inr (.inl ⟨by simp, rfl⟩)
    | cons first rest =>
        obtain ⟨rfl, rfl⟩ := by simpa using same
        exact .inr (.inr ⟨rest, rfl, rfl⟩)
  · cases rest with
    | nil =>
        obtain ⟨rfl, -⟩ := by simpa using same
        exact .inr (.inl ⟨by simp, rfl⟩)
    | cons first rest =>
        obtain ⟨rfl, -⟩ := by simpa using same
        exact .inl ⟨rest, rfl⟩

theorem Function.Coherent.addSlot {ir : Module} {id : FunctionId} {function : Function}
    {entry : Block} (coherent : function.Coherent ir id)
    (isEntry : function.blocks[0]? = some entry) (name : String) :
    (function.addSlot name).Coherent ir id where
  registers := by
    refine (definedRegisters_addSlot isEntry name).trans
      ((coherent.registers.append_right _).trans ?_)
    rw [← List.range_succ]
    exact .refl _
  instruction index block isBlock before found after isCut := by
    have within : function.Within (function.addSlot name) := Function.within_addSlot isEntry
    rw [getElem?_addSlot] at isBlock
    split at isBlock
    · subst index
      rw [isEntry] at isBlock
      obtain rfl := Option.some.inj isBlock
      rw [Block.toList_insertAlloca] at isCut
      have whole := entry.leading_append
      rcases List.append_cons_eq_append_cons isCut with
        ⟨rest, isFront⟩ | ⟨rfl, rfl⟩ | ⟨rest, rfl, isBack⟩
      · rw [isFront, List.append_assoc, List.cons_append] at whole
        exact (coherent.instruction 0 entry isEntry _ _ _ whole.symm).within (.refl ir) within
      · refine ⟨by simp [Instruction.operands], by simp [Instruction.targets], fun _ => ⟨rfl, ?_⟩,
          by simp, by simp⟩
        exact fun other isOther => entry.isAlloca_leading isOther
      · rw [isBack, ← List.append_assoc] at whole
        have fits := (coherent.instruction 0 entry isEntry _ _ _ whole.symm).within (.refl ir) within
        refine ⟨fun operand isOperand => ?_, fits.targets, fun isAlloca => ⟨rfl, ?_⟩, fits.call,
          fits.ret⟩
        · refine (fits.operands operand isOperand).within (.refl ir) (.refl _) ?_
          intro register isDefined
          simp only [defined, List.filterMap_append, List.mem_append, List.filterMap_cons] at *
          rcases isDefined with isFront | isRest
          · exact .inl isFront
          · exact .inr (List.mem_cons_of_mem _ isRest)
        · intro other isOther
          simp only [List.mem_append, List.mem_cons] at isOther
          rcases isOther with isFront | rfl | isRest
          · exact entry.isAlloca_leading isFront
          · rfl
          · exact (fits.alloca isAlloca).2 other (by simp [isRest])
    · exact (coherent.instruction index block isBlock before found after isCut).within
        (.refl ir) within

theorem Block.IsOpen.insertAlloca {block : Block} (isOpen : block.IsOpen) (register : Register)
    (name : String) : (block.insertAlloca (.alloca register name)).IsOpen := by
  intro instruction isIn
  rw [toList_insertAlloca, List.mem_append, List.mem_cons] at isIn
  have old : ∀ other ∈ block.leading.1 ++ block.leading.2, ¬ other.isTerminator := by
    rw [leading_append]
    exact isOpen
  rcases isIn with isFront | rfl | isBack
  · exact old instruction (List.mem_append_left _ isFront)
  · simp [Instruction.isTerminator]
  · exact old instruction (List.mem_append_right _ isBack)

theorem Function.Growing.addSlot {ir : Module} {id : FunctionId} {function : Function}
    {pending : List Nat} (growing : function.Growing ir id pending) (entryOpen : 0 ∈ pending)
    (name : String) : (function.addSlot name).Growing ir id pending := by
  obtain ⟨entry, isEntry⟩ : ∃ entry, function.blocks[0]? = some entry :=
    ⟨_, Array.getElem?_eq_getElem (growing.bound 0 entryOpen)⟩
  refine ⟨growing.toCoherent.addSlot isEntry name, ?_, ?_, growing.nodup⟩
  · intro index block isBlock
    rw [getElem?_addSlot] at isBlock
    split at isBlock
    · subst index
      rw [isEntry] at isBlock
      obtain rfl := Option.some.inj isBlock
      have isOpen : entry.IsOpen := by simpa [entryOpen] using growing.blocks 0 entry isEntry
      simpa [entryOpen] using isOpen.insertAlloca _ name
    · exact growing.blocks index block isBlock
  · intro index isPending
    simpa [Function.addSlot] using growing.bound index isPending

end MiniPascal.IR
