import MiniPascal.Proofs.IR.Emission

/-!
# Code of a function

What has been emitted stays where it is, so the code of a function under construction is a part of
its code in the end.
-/

namespace MiniPascal.IR

namespace Module

variable {first second third : Module}

def code (ir : Module) (here : BlockId) : List Instruction :=
  match ir.block? here with
  | some block => block.instructions.toList
  | none => []

def registers (ir : Module) (id : FunctionId) : Nat :=
  match ir.functions[id]? with
  | some function => function.registers
  | none => 0

/-- The globals and the code of a function so far. -/
structure Part (id : FunctionId) (ir whole : Module) : Prop where
  globals : ir.globals.toList <+: whole.globals.toList
  code : ∀ index, ir.code ⟨id, index⟩ <+: whole.code ⟨id, index⟩
  registers : ir.registers id ≤ whole.registers id

theorem Part.refl (id : FunctionId) (ir : Module) : ir.Part id ir :=
  ⟨List.prefix_rfl, fun _ => List.prefix_rfl, Nat.le_refl _⟩

theorem Part.trans {id : FunctionId} (h₁ : first.Part id second) (h₂ : second.Part id third) :
    first.Part id third where
  globals := h₁.globals.trans h₂.globals
  code index := (h₁.code index).trans (h₂.code index)
  registers := Nat.le_trans h₁.registers h₂.registers

theorem code_of_block {ir : Module} (here : BlockId) {function : Function} {block : Block}
    (isFunction : ir.functions[here.function]? = some function)
    (isBlock : function.blocks[here.index]? = some block) :
    ir.code here = block.instructions.toList := by
  simp [code, block?, isFunction, isBlock]

theorem registers_of_function {ir : Module} {id : FunctionId} {function : Function}
    (isFunction : ir.functions[id]? = some function) : ir.registers id = function.registers := by
  simp [registers, isFunction]

theorem getElem?_of_part {id : FunctionId} {ir whole : Module} (part : ir.Part id whole)
    {global : GlobalId} {content : Global} (isGlobal : ir.globals[global]? = some content) :
    whole.globals[global]? = some content := by
  obtain ⟨others, isWhole⟩ := part.globals
  rw [← Array.getElem?_toList] at isGlobal ⊢
  have bound := (List.getElem?_eq_some_iff.1 isGlobal).1
  rw [← isWhole, List.getElem?_append_left bound, isGlobal]

end Module

theorem Builder.Grows.part {here : BlockId} {old new : Builder} (grows : old.Grows here new) :
    old.ir.Part here.function new.ir := by
  cases isFunction : old.ir.functions[here.function]? with
  | none =>
      refine ⟨grows.globals, fun index => ?_, ?_⟩
      · simp [Module.code, Module.block?, isFunction]
      · simp [Module.registers, isFunction]
  | some function =>
      obtain ⟨later, isLater, functionGrows⟩ := grows.function function isFunction
      refine ⟨grows.globals, fun index => ?_, ?_⟩
      · cases isBlock : function.blocks[index]? with
        | none => simp [Module.code, Module.block?, isFunction, isBlock]
        | some block =>
            obtain ⟨block', isBlock', -, isPrefix, -⟩ := functionGrows.block index block isBlock
            rwa [Module.code_of_block ⟨here.function, index⟩ isFunction isBlock,
              Module.code_of_block ⟨here.function, index⟩ isLater isBlock']
      · rw [Module.registers_of_function isFunction, Module.registers_of_function isLater]
        exact functionGrows.registers

/-! ### Changes of one function -/

namespace Builder

variable {builder : Builder} {here : BlockId} {function : Function} {block : Block}

theorem code_push (isFunction : builder.ir.functions[here.function]? = some function)
    (isBlock : function.blocks[here.index]? = some block) (isOpen : block.IsOpen)
    (instruction : Instruction) (count : Nat) :
    (builder.modifyFunction here.function (·.push here.index instruction count)).ir.code here =
      builder.ir.code here ++ [instruction] := by
  have isNew : (builder.modifyFunction here.function
      (·.push here.index instruction count)).ir.functions[here.function]? =
        some (function.push here.index instruction count) := by
    simp [functions_modifyFunction, isFunction]
  have isNewBlock : (function.push here.index instruction count).blocks[here.index]? =
      some (block.append instruction) := by
    simp [Function.getElem?_push, isBlock]
  rw [Module.code_of_block here isNew isNewBlock, Module.code_of_block here isFunction isBlock,
    isOpen.append, Array.toList_push]

theorem registers_push (isFunction : builder.ir.functions[here.function]? = some function)
    (instruction : Instruction) (count : Nat) :
    (builder.modifyFunction here.function
      (·.push here.index instruction count)).ir.registers here.function =
        builder.ir.registers here.function + count := by
  simp [Module.registers, functions_modifyFunction, isFunction, Function.push]

theorem code_addBlock (builder : Builder) (id : FunctionId) (name : String) (here : BlockId) :
    (builder.modifyFunction id (·.addBlock name)).ir.code here = builder.ir.code here := by
  by_cases same : id = here.function
  · subst same
    cases isFunction : builder.ir.functions[here.function]? with
    | none => simp [Module.code, Module.block?, functions_modifyFunction, isFunction]
    | some function =>
        simp only [Module.code, Module.block?, functions_modifyFunction, if_true, isFunction,
          Option.map_some, Function.addBlock, bind, Option.bind_some, Array.getElem?_push]
        by_cases isNew : here.index = function.blocks.size
        · rw [if_pos isNew, isNew, Array.getElem?_eq_none (Nat.le_refl _)]
        · rw [if_neg isNew]
  · simp [Module.code, Module.block?, functions_modifyFunction, same]

theorem registers_addBlock (builder : Builder) (id other : FunctionId) (name : String) :
    (builder.modifyFunction id (·.addBlock name)).ir.registers other =
      builder.ir.registers other := by
  by_cases same : id = other
  · subst same
    cases isFunction : builder.ir.functions[id]? with
    | none => simp [Module.registers, functions_modifyFunction, isFunction]
    | some function => simp [Module.registers, functions_modifyFunction, isFunction, Function.addBlock]
  · simp [Module.registers, functions_modifyFunction, same]

end Builder

end MiniPascal.IR
