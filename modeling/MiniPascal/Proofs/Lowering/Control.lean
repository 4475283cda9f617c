import MiniPascal.Proofs.IR.Code
import MiniPascal.Proofs.Lowering.Operands
import MiniPascal.Proofs.Tree.Grammatical

/-!
# Blocks of translated statements

The translation of a statement goes on in a block of its own or ends the block it is in, and leaves
no other block open.
-/

namespace MiniPascal

open IR (BlockId Builder Operand Instruction)
open Lowering (Ready)

namespace Lowering

variable {state : Lowering} {here there : BlockId} {pending : List Nat}

/-- What the translation of statements changes: it appends code, adds blocks, and numbers the exits
of loops from `next` on. -/
structure Moves (state : Lowering) (here : BlockId) (next : Nat) (state' : Lowering) : Prop where
  symbols : state'.symbols = state.symbols
  support : state'.support = state.support
  grows : state.builder.Grows here state'.builder
  exits : ∀ id : LoopId, id.index < next → state'.exits.lookup id = state.exits.lookup id

structure Leads (state : Lowering) (here there : BlockId) : Prop where
  same : there.function = here.function
  fresh : there = here ∨ ∀ function : IR.Function,
    state.builder.ir.functions[here.function]? = some function → function.blocks.size ≤ there.index

theorem Leads.refl (state : Lowering) (here : BlockId) : state.Leads here here := ⟨rfl, .inl rfl⟩

theorem Straight.moves {state' : Lowering} (straight : state.Straight state')
    (isHere : state.builder.insertPoint = some here) (next : Nat) :
    state.Moves here next state' :=
  ⟨straight.symbols, straight.support, straight.grows here isHere, by simp [straight.exits]⟩

theorem Straight.current {state' : Lowering} (straight : state.Straight state') :
    state'.current? = state.current? := by
  simp [current?, straight.symbols]

theorem Moves.current {state' : Lowering} {next : Nat} (moves : state.Moves here next state') :
    state'.current? = state.current? := by
  simp [current?, moves.symbols]

theorem Moves.isSome {state' : Lowering} {next : Nat} (moves : state.Moves here next state')
    (isSome : state.builder.ir.functions[here.function]?.isSome) :
    state'.builder.ir.functions[here.function]?.isSome := by
  obtain ⟨function, isFunction⟩ := Option.isSome_iff_exists.1 isSome
  obtain ⟨later, isLater, -⟩ := moves.grows.function function isFunction
  simp [isLater]

theorem Moves.trans {state₁ state₂ : Lowering} {next later : Nat}
    (h₁ : state.Moves here next state₁) (leads : state.Leads here there)
    (h₂ : state₁.Moves there later state₂) (le : next ≤ later) : state.Moves here next state₂ where
  symbols := h₂.symbols.trans h₁.symbols
  support := h₂.support.trans h₁.support
  grows := by
    rcases leads.fresh with rfl | fresh
    · exact h₁.grows.trans h₂.grows
    · exact h₁.grows.transElsewhere h₂.grows leads.same fresh
  exits id isOld := (h₂.exits id (by omega)).trans (h₁.exits id isOld)

theorem Leads.trans {state₁ : Lowering} {last : BlockId} {next : Nat}
    (h₁ : state.Leads here there) (moves : state.Moves here next state₁)
    (h₂ : state₁.Leads there last) : state.Leads here last := by
  refine ⟨h₂.same.trans h₁.same, ?_⟩
  rcases h₂.fresh with rfl | fresh
  · exact h₁.fresh
  · refine .inr fun function isFunction => ?_
    obtain ⟨later, isLater, grows⟩ := moves.grows.function function isFunction
    exact Nat.le_trans grows.size (fresh later (h₁.same ▸ isLater))

theorem Ready.isSome (ready : state.Ready here pending) :
    state.builder.ir.functions[here.function]?.isSome := by
  obtain ⟨function, isFunction, -⟩ := ready.function
  simp [isFunction]

theorem IsTarget.moves {state' : Lowering} {next : Nat} {target : BlockId}
    (isTarget : state.IsTarget here.function target)
    (isSome : state.builder.ir.functions[here.function]?.isSome)
    (moves : state.Moves there next state') (same : there.function = here.function) :
    state'.IsTarget here.function target := by
  rw [← same] at isTarget isSome ⊢
  obtain ⟨function, isFunction⟩ := Option.isSome_iff_exists.1 isSome
  obtain ⟨later, isLater, grows⟩ := moves.grows.function function isFunction
  refine ⟨isTarget.1, isTarget.2.1, fun other isOther => ?_⟩
  obtain rfl := Option.some.inj (isOther.symm.trans isLater)
  exact Nat.lt_of_lt_of_le (isTarget.2.2 function isFunction) grows.size

/-- Where code went before does not matter. -/
theorem Moves.forgetInsertPoint {state' : Lowering} {next : Nat} {insertPoint : Option BlockId}
    (moves : { state with builder := { state.builder with insertPoint := insertPoint } }.Moves here
      next state') : state.Moves here next state' :=
  ⟨moves.symbols, moves.support, ⟨moves.grows.globals, moves.grows.others, moves.grows.function⟩,
    moves.exits⟩

theorem Moves.setInsertPoint {state' : Lowering} {next : Nat} (moves : state.Moves here next state')
    (insertPoint : Option BlockId) :
    state.Moves here next
      { state' with builder := { state'.builder with insertPoint := insertPoint } } :=
  ⟨moves.symbols, moves.support, ⟨moves.grows.globals, moves.grows.others, moves.grows.function⟩,
    moves.exits⟩

theorem Moves.addExit (state : Lowering) (here : BlockId) (next : Nat) (exit : BlockId) :
    state.Moves here next { state with exits := (⟨next⟩, exit) :: state.exits } := by
  refine ⟨rfl, rfl, .refl _ _, fun id isOld => ?_⟩
  have different : (id == ⟨next⟩) = false := by
    rw [beq_eq_false_iff_ne]
    rintro rfl
    exact Nat.lt_irrefl _ isOld
  simp [List.lookup_cons, different]

theorem Sound.addExit (sound : state.Sound pending) (exit : LoopId × BlockId) :
    { state with exits := exit :: state.exits }.Sound pending :=
  ⟨sound.functions, sound.support, sound.globals, sound.forwards, sound.locals, sound.enclosing,
    sound.undefined, sound.distinct⟩

/-- How the translation of a statement may leave the state. -/
structure Goes (state : Lowering) (here : BlockId) (pending : List Nat) (next : Nat)
    (ending : Option Ending) (state' : Lowering) : Prop where
  moves : state.Moves here next state'
  continues : ending = none → ∃ there, state.Leads here there ∧ state'.Ready there pending
  ends : ending.isSome → state'.Sound pending ∧ state'.Ended

theorem Goes.andThen {state₁ state₂ : Lowering} {still : List Nat} {next later : Nat}
    {ending : Option Ending} (first : state.Goes here pending next none state₁)
    (leads : state.Leads here there) (second : state₁.Goes there still later ending state₂)
    (le : next ≤ later) : state.Goes here still next ending state₂ where
  moves := first.moves.trans leads second.moves le
  continues goesOn := by
    obtain ⟨last, leads₂, ready⟩ := second.continues goesOn
    exact ⟨last, leads.trans first.moves leads₂, ready⟩
  ends := second.ends

def KnowsExit (state : Lowering) (id : IR.FunctionId) (loop : Option LoopId) (next : Nat) : Prop :=
  ∀ loopId, loop = some loopId → loopId.index < next ∧
    ∃ exit, state.exits.lookup loopId = some exit ∧ state.IsTarget id exit

theorem KnowsExit.moves {state' : Lowering} {loop : Option LoopId} {next later : Nat}
    (knows : state.KnowsExit here.function loop next)
    (isSome : state.builder.ir.functions[here.function]?.isSome)
    (moves : state.Moves there next state') (same : there.function = here.function)
    (le : next ≤ later) : state'.KnowsExit here.function loop later := by
  intro loopId isLoop
  obtain ⟨isOld, exit, isExit, isTarget⟩ := knows loopId isLoop
  exact ⟨by omega, exit, (moves.exits loopId isOld).trans isExit, isTarget.moves isSome moves same⟩

/-! ### Blocks -/

def IsEmpty (state : Lowering) (target : BlockId) : Prop :=
  ∃ function block, state.builder.ir.functions[target.function]? = some function ∧
    function.blocks[target.index]? = some block ∧ block.instructions = #[]

theorem IsEmpty.moves {state' : Lowering} {next : Nat} {target : BlockId}
    (isEmpty : state.IsEmpty target) (moves : state.Moves here next state')
    (same : target.function = here.function) (different : target.index ≠ here.index) :
    state'.IsEmpty target := by
  obtain ⟨function, block, isFunction, isBlock, noInstruction⟩ := isEmpty
  obtain ⟨later, isLater, grows⟩ := moves.grows.function function (same ▸ isFunction)
  obtain ⟨block', isBlock', -, -, kept⟩ := grows.block target.index block isBlock
  rw [kept different] at isBlock'
  exact ⟨later, block, same ▸ isLater, isBlock', noInstruction⟩

theorem Sound.perm {still : List Nat} (sound : state.Sound pending) (perm : pending.Perm still) :
    state.Sound still :=
  { sound with
    functions := by
      intro id function isFunction
      have growing := sound.functions id function isFunction
      by_cases isCurrent : state.current? = some id
      · rw [if_pos isCurrent] at growing ⊢
        refine ⟨growing.toCoherent, fun index block isBlock => ?_, fun index isPending => ?_, ?_⟩
        · simpa [perm.mem_iff] using growing.blocks index block isBlock
        · exact growing.bound index (perm.mem_iff.2 isPending)
        · exact perm.nodup_iff.1 growing.nodup
      · rwa [if_neg isCurrent] at growing ⊢ }

theorem Sound.setInsertPoint {target : BlockId} (sound : state.Sound (target.index :: pending))
    (isCurrent : state.current? = some target.function) :
    { state with builder := { state.builder with insertPoint := some target } }.Ready target
      pending where
  insertPoint := rfl
  enclosing := by
    simp only [current?, Option.map_eq_some_iff] at isCurrent
    obtain ⟨enclosing, isEnclosing, same⟩ := isCurrent
    exact ⟨enclosing.name, by rw [isEnclosing, ← same]⟩
  sound := ⟨sound.functions, sound.support, sound.globals, sound.forwards, sound.locals,
    sound.enclosing, sound.undefined, sound.distinct⟩

structure Adds (state : Lowering) (here : BlockId) (pending : List Nat) (target : BlockId)
    (state' : Lowering) : Prop where
  straight : state.Straight state'
  ready : state'.Ready here (target.index :: pending)
  same : target.function = here.function
  fresh : ∀ function : IR.Function, state.builder.ir.functions[here.function]? = some function →
    target.index = function.blocks.size
  isTarget : state'.IsTarget here.function target
  isEmpty : state'.IsEmpty target
  code : state'.builder.ir.code = state.builder.ir.code

theorem Ready.appendBlock (ready : state.Ready here pending) (name : String) :
    Ensures (Lower.build (IR.Build.appendBlock here.function name)) (state.Adds here pending) state := by
  obtain ⟨function, isFunction, growing⟩ := ready.function
  have isNew : (state.builder.modifyFunction here.function (·.addBlock name)).ir.functions[
      here.function]? = some (function.addBlock name) := by
    simp [Builder.functions_modifyFunction, isFunction]
  have sound : { state with
      builder := state.builder.modifyFunction here.function (·.addBlock name) }.Sound
        (function.blocks.size :: here.index :: pending) :=
    ready.sound.modified ready.isCurrent isFunction (IR.Function.within_addBlock name) rfl
      (growing.addBlock name)
  have grows : state.builder.Grows here
      (state.builder.modifyFunction here.function (·.addBlock name)) :=
    state.builder.grows_modifyFunction fun function => function.grows_addBlock here.index name
  rw [Lower.ensures_build, IR.Build.appendBlock_eq isFunction]
  refine ⟨⟨rfl, rfl, rfl, rfl, ?_⟩, ⟨ready.insertPoint, ready.enclosing, sound.perm (.swap _ _ _)⟩,
    rfl, ?_, ⟨rfl, ?_, ?_⟩, ?_, funext (Builder.code_addBlock _ _ _)⟩
  · intro other isHere
    obtain rfl := Option.some.inj (isHere.symm.trans ready.insertPoint)
    exact grows
  · intro other isOther
    obtain rfl := Option.some.inj (isOther.symm.trans isFunction)
    rfl
  · exact Nat.lt_of_le_of_lt (Nat.zero_le _) (growing.bound here.index (by simp))
  · intro other isOther
    obtain rfl := Option.some.inj (isOther.symm.trans isNew)
    simp [IR.Function.addBlock]
  · exact ⟨_, ⟨name, #[]⟩, isNew, by simp [IR.Function.addBlock], rfl⟩

structure AddsThree (state : Lowering) (here : BlockId) (pending : List Nat)
    (first second third : BlockId) (state' : Lowering) : Prop where
  straight : state.Straight state'
  ready : state'.Ready here (first.index :: second.index :: third.index :: pending)
  leads : ∀ target ∈ [first, second, third], state.Leads here target
  isTarget : ∀ target ∈ [first, second, third], state'.IsTarget here.function target
  isEmpty : ∀ target ∈ [first, second, third], state'.IsEmpty target
  distinct : [here.index, first.index, second.index, third.index].Nodup
  code : state'.builder.ir.code = state.builder.ir.code

theorem Adds.leads {target : BlockId} {state' : Lowering}
    (adds : state.Adds here pending target state') : state.Leads here target :=
  ⟨adds.same, .inr fun function isFunction => Nat.le_of_eq (adds.fresh function isFunction).symm⟩

theorem Adds.moves {target : BlockId} {state' : Lowering}
    (adds : state.Adds here pending target state') (ready : state.Ready here pending) :
    state.Moves here 0 state' :=
  adds.straight.moves ready.insertPoint 0

theorem Ready.distinct (ready : state.Ready here pending) : (here.index :: pending).Nodup := by
  obtain ⟨function, -, growing⟩ := ready.function
  exact growing.nodup

theorem Ready.perm {still : List Nat} (ready : state.Ready here pending)
    (perm : pending.Perm still) : state.Ready here still :=
  ⟨ready.insertPoint, ready.enclosing, ready.sound.perm (perm.cons _)⟩

theorem Ready.appendThree {α : Type} {post : α → Lowering → Prop} (ready : state.Ready here pending)
    (name₁ name₂ name₃ : String) {rest : BlockId → BlockId → BlockId → Lower α}
    (h : ∀ first second third state', state.AddsThree here pending first second third state' →
      Ensures (rest first second third) post state') :
    Ensures (do
      let first ← Lower.build (IR.Build.appendBlock here.function name₁)
      let second ← Lower.build (IR.Build.appendBlock here.function name₂)
      let third ← Lower.build (IR.Build.appendBlock here.function name₃)
      rest first second third) post state := by
  rw [ensures_bind]
  refine (ready.appendBlock name₁).mono fun first state₁ adds₁ => ?_
  rw [ensures_bind]
  refine (adds₁.ready.appendBlock name₂).mono fun second state₂ adds₂ => ?_
  rw [ensures_bind]
  refine (adds₂.ready.appendBlock name₃).mono fun third state₃ adds₃ => ?_
  have ready₃ := adds₃.ready.perm
    ((List.Perm.swap _ _ _).trans ((List.Perm.swap _ _ _).cons _ |>.trans (.swap _ _ _)))
  have moves₁ := adds₁.moves ready
  have moves₂ := adds₂.moves adds₁.ready
  have moves₃ := adds₃.moves adds₂.ready
  have distinct : [here.index, first.index, second.index, third.index].Nodup :=
    List.Sublist.nodup (by simp) ready₃.distinct
  have differ : first.index ≠ here.index ∧ second.index ≠ here.index := by
    simp only [List.nodup_cons, List.mem_cons, not_or] at distinct
    exact ⟨Ne.symm distinct.1.1, Ne.symm distinct.1.2.1⟩
  have moves₁₂ := moves₁.trans (.refl _ _) moves₂ (Nat.le_refl 0)
  refine h first second third state₃
    ⟨(adds₁.straight.trans adds₂.straight).trans adds₃.straight, ready₃, ?_, ?_, ?_, distinct,
      (adds₃.code.trans adds₂.code).trans adds₁.code⟩
  · have leads₂ := (Lowering.Leads.refl state here).trans moves₁ adds₂.leads
    have leads₃ := (Lowering.Leads.refl state here).trans moves₁₂ adds₃.leads
    simpa using ⟨adds₁.leads, leads₂, leads₃⟩
  · have isTarget₁ :=
      (adds₁.isTarget.moves adds₁.ready.isSome moves₂ rfl).moves adds₂.ready.isSome moves₃ rfl
    have isTarget₂ := adds₂.isTarget.moves adds₂.ready.isSome moves₃ rfl
    simpa using ⟨isTarget₁, isTarget₂, adds₃.isTarget⟩
  · have isEmpty₁ := (adds₁.isEmpty.moves moves₂ adds₁.same differ.1).moves moves₃ adds₁.same differ.1
    have isEmpty₂ := adds₂.isEmpty.moves moves₃ adds₂.same differ.2
    simpa using ⟨isEmpty₁, isEmpty₂, adds₃.isEmpty⟩

end Lowering

namespace Lower

open Lowering (Goes KnowsExit)

variable {state : Lowering} {here : BlockId} {pending : List Nat}

theorem ensures_currentFunction (ready : state.Ready here pending) (what : Construct)
    (position : Position) {post : IR.FunctionId → Lowering → Prop} (h : post here.function state) :
    Ensures (currentFunction what position) post state := by
  obtain ⟨name, isEnclosing⟩ := ready.enclosing
  refine ensures_ask fun id isId => ?_
  simp only [isEnclosing, Except.ok.injEq] at isId
  exact isId ▸ h

theorem allows_jump {target : BlockId} (isTarget : state.IsTarget here.function target) :
    state.Allows here (.jump target) := by
  refine ⟨by simp [Instruction.operands], ?_, by simp [Instruction.isAlloca], by simp, by simp⟩
  simpa [Instruction.targets] using isTarget

theorem allows_branch {truth : Operand} {holds fails : BlockId} (has : state.Has here truth)
    (isHolds : state.IsTarget here.function holds) (isFails : state.IsTarget here.function fails) :
    state.Allows here (.branch truth holds fails) := by
  refine ⟨by simpa [Instruction.operands] using has, ?_, by simp [Instruction.isAlloca], by simp,
    by simp⟩
  simpa [Instruction.targets] using ⟨isHolds, isFails⟩

theorem yields_condition (expr : Expr) : Yields (condition expr) := by
  intro state here pending ready
  unfold condition
  rw [ensures_bind]
  refine (yields_expression expr ready).mono ?_
  rintro value state₁ ⟨ready₁, has⟩
  exact ready_compare ready₁ .notEqual has (has_bool false)

def Runs (loop : Option LoopId) (next : Nat) (action : Lower (Option Ending)) : Prop :=
  ∀ ⦃state : Lowering⦄ ⦃here : BlockId⦄ ⦃pending : List Nat⦄, state.Ready here pending →
    state.KnowsExit here.function loop next → Ensures action (state.Goes here pending next) state

/-- Blocks are left complete, whether or not the statements in them end them. -/
theorem sound_intoBlock {loop : Option LoopId} {next : Nat} {body : Lower (Option Ending)}
    (runs : Runs loop next body) {block target : BlockId}
    (sound : state.Sound (block.index :: pending)) (isCurrent : state.current? = some block.function)
    (knows : state.KnowsExit block.function loop next)
    (isTarget : state.IsTarget block.function target) :
    Ensures (intoBlock block target body)
      (fun _ state' => state'.Sound pending ∧ state.Moves block next state') state := by
  have ready := sound.setInsertPoint isCurrent
  unfold intoBlock
  rw [ensures_bind, ensures_build]
  rw [ensures_bind]
  refine (runs ready knows).mono fun ending state₁ goes => ?_
  have moves := goes.moves.forgetInsertPoint
  cases ending with
  | some ending => simpa using ⟨(goes.ends rfl).1, moves⟩
  | none =>
      obtain ⟨there, leads, ready₁⟩ := goes.continues rfl
      have isTarget₁ := isTarget.moves ready.isSome moves rfl
      rw [← leads.same] at isTarget₁
      simp only [Option.isNone_none, if_true]
      refine ((ready₁.terminate (.jump target) (allows_jump isTarget₁) rfl).and
        (isStraight_build (IR.Build.isStraight_emit _) state₁)).mono ?_
      rintro _ state₂ ⟨⟨sound₂, -⟩, straight₂⟩
      have moves₂ := straight₂.moves ready₁.insertPoint next
      exact ⟨sound₂, (goes.moves.trans leads moves₂ (Nat.le_refl _)).forgetInsertPoint⟩

def openConditional (test : Expr) (position : Position) : Lower (BlockId × BlockId × BlockId) := do
  let function ← currentFunction .conditional position
  let truth ← condition test
  let thenBlock ← build (IR.Build.appendBlock function "then")
  let elseBlock ← build (IR.Build.appendBlock function "else")
  let merge ← build (IR.Build.appendBlock function "ifcont")
  build (IR.Build.branch truth thenBlock elseBlock)
  return (thenBlock, elseBlock, merge)

theorem conditional_eq (test : Expr) (position : Position) (holds fails : Lower (Option Ending)) :
    conditional test position holds fails = (do
      let (thenBlock, elseBlock, merge) ← openConditional test position
      intoBlock thenBlock merge holds
      intoBlock elseBlock merge fails
      build (IR.Build.setInsertPoint merge)) := by
  simp only [conditional, openConditional, bind_assoc, pure_bind]

structure Forks (state : Lowering) (here : BlockId) (pending : List Nat) (loop : Option LoopId)
    (next : Nat) (test : Expr) (truth : Operand) (thenBlock elseBlock merge : BlockId)
    (tested opened branched : Lowering) : Prop where
  isTest : condition test state = .ok truth tested
  straight : state.Straight tested
  ready : tested.Ready here pending
  adds : tested.AddsThree here pending thenBlock elseBlock merge opened
  isBranch : build (IR.Build.branch truth thenBlock elseBlock) opened = .ok () branched
  straightBranch : opened.Straight branched
  knows : branched.KnowsExit here.function loop next
  readyThen : branched.Sound (thenBlock.index :: elseBlock.index :: merge.index :: pending)
  isTarget : branched.IsTarget here.function merge

structure Branches (state : Lowering) (here : BlockId) (pending : List Nat) (loop : Option LoopId)
    (next later : Nat) (test : Expr) (holds fails : Lower (Option Ending)) (truth : Operand)
    (thenBlock elseBlock merge : BlockId) (tested opened branched joined last : Lowering) : Prop
    extends Forks state here pending loop next test truth thenBlock elseBlock merge tested opened
      branched where
  isThen : intoBlock thenBlock merge holds branched = .ok () joined
  movesThen : branched.Moves thenBlock next joined
  isElse : intoBlock elseBlock merge fails joined = .ok () last
  readyElse : joined.Sound (elseBlock.index :: merge.index :: pending)
  movesElse : joined.Moves elseBlock later last
  readyMerge : last.Sound (merge.index :: pending)

namespace Forks

variable {loop : Option LoopId} {next : Nat} {test : Expr} {truth : Operand}
  {thenBlock elseBlock merge : BlockId} {tested opened branched : Lowering}
  (forks : Forks state here pending loop next test truth thenBlock elseBlock merge tested opened
    branched)

include forks

theorem leads (readyHere : state.Ready here pending) {target : BlockId}
    (isTarget : target ∈ [thenBlock, elseBlock, merge]) : state.Leads here target :=
  (Lowering.Leads.refl state here).trans (forks.straight.moves readyHere.insertPoint next)
    (forks.adds.leads target isTarget)

theorem movesBranch (readyHere : state.Ready here pending) : state.Moves here next branched :=
  ((forks.straight.trans forks.adds.straight).trans forks.straightBranch).moves
    readyHere.insertPoint next

theorem current (readyHere : state.Ready here pending) :
    branched.current? = some here.function :=
  (forks.movesBranch readyHere).current.trans readyHere.isCurrent

theorem isEmpty {target : BlockId} (isTarget : target ∈ [thenBlock, elseBlock, merge]) :
    branched.IsEmpty target := by
  have distinct := forks.adds.distinct
  have different : target.index ≠ here.index := by
    have isIndex : target.index ∈ [thenBlock, elseBlock, merge].map (·.index) :=
      List.mem_map.2 ⟨target, isTarget, rfl⟩
    intro same
    rw [same] at isIndex
    exact (List.nodup_cons.1 distinct).1 isIndex
  exact (forks.adds.isEmpty target isTarget).moves
    (forks.straightBranch.moves forks.adds.ready.insertPoint next)
    (forks.adds.leads target isTarget).same different

theorem sameThen : thenBlock.function = here.function := (forks.adds.leads thenBlock (by simp)).same

theorem sameElse : elseBlock.function = here.function := (forks.adds.leads elseBlock (by simp)).same

theorem sameMerge : merge.function = here.function := (forks.adds.leads merge (by simp)).same

theorem joins {holds : Lower (Option Ending)} (readyHere : state.Ready here pending)
    (runs : Runs loop next holds) (holdsLoops : Nat) :
    Ensures (intoBlock thenBlock merge holds) (fun _ joined =>
      joined.Sound (elseBlock.index :: merge.index :: pending) ∧
        branched.Moves thenBlock next joined ∧ joined.current? = some here.function ∧
        joined.KnowsExit here.function loop (next + holdsLoops) ∧
        joined.IsTarget here.function merge) branched := by
  have isCurrent := forks.current readyHere
  have same := forks.sameThen
  refine (sound_intoBlock runs forks.readyThen (same ▸ isCurrent) (same ▸ forks.knows)
    (same ▸ forks.isTarget)).mono ?_
  rintro _ joined ⟨sound, moves⟩
  have isSome := (forks.movesBranch readyHere).isSome readyHere.isSome
  exact ⟨sound, moves, moves.current.trans isCurrent,
    forks.knows.moves isSome moves same (Nat.le_add_right next holdsLoops),
    forks.isTarget.moves isSome moves same⟩

end Forks

namespace Branches

variable {loop : Option LoopId} {next later : Nat} {test : Expr}
  {holds fails : Lower (Option Ending)} {truth : Operand} {thenBlock elseBlock merge : BlockId}
  {tested opened branched joined last : Lowering}
  (branches : Branches state here pending loop next later test holds fails truth thenBlock elseBlock
    merge tested opened branched joined last)

include branches

theorem emptyElse : joined.IsEmpty elseBlock := by
  have distinct := branches.adds.distinct
  simp only [List.nodup_cons, List.mem_cons, List.not_mem_nil, or_false, not_or] at distinct
  exact (branches.isEmpty (by simp)).moves branches.movesThen
    (branches.sameElse.trans branches.sameThen.symm) (Ne.symm distinct.2.1.1)

theorem emptyMerge : last.IsEmpty merge := by
  have distinct := branches.adds.distinct
  simp only [List.nodup_cons, List.mem_cons, List.not_mem_nil, or_false, not_or] at distinct
  have isEmpty : joined.IsEmpty merge := (branches.isEmpty (by simp)).moves branches.movesThen
    (branches.sameMerge.trans branches.sameThen.symm) (Ne.symm distinct.2.1.2)
  exact isEmpty.moves branches.movesElse (branches.sameMerge.trans branches.sameElse.symm)
    (Ne.symm distinct.2.2.1)

theorem partJoined : branched.builder.ir.Part here.function joined.builder.ir :=
  branches.sameThen ▸ branches.movesThen.grows.part

theorem partLast : joined.builder.ir.Part here.function last.builder.ir :=
  branches.sameElse ▸ branches.movesElse.grows.part

end Branches

theorem ensures_openConditional {loop : Option LoopId} {next : Nat}
    {post : BlockId × BlockId × BlockId → Lowering → Prop} (ready : state.Ready here pending)
    (knows : state.KnowsExit here.function loop next) (test : Expr) (position : Position)
    (h : ∀ truth thenBlock elseBlock merge tested opened branched,
      Forks state here pending loop next test truth thenBlock elseBlock merge tested opened branched →
      post (thenBlock, elseBlock, merge) branched) :
    Ensures (openConditional test position) post state := by
  unfold openConditional
  rw [ensures_bind]
  refine ensures_currentFunction ready .conditional position ?_
  rw [ensures_bind]
  intro truth state₁ isTest
  obtain ⟨⟨ready₁, has₁⟩, straight₁⟩ :=
    ((yields_condition test ready).and (isStraight_condition test state)) truth state₁ isTest
  refine ready₁.appendThree _ _ _ fun thenBlock elseBlock merge state₂ adds => ?_
  have isThen := adds.isTarget thenBlock (by simp)
  have isElse := adds.isTarget elseBlock (by simp)
  have isMerge := adds.isTarget merge (by simp)
  rw [ensures_bind]
  intro _ state₃ isBranch
  obtain ⟨⟨sound₃, -⟩, straight₃⟩ :=
    ((adds.ready.terminate (.branch truth thenBlock elseBlock)
      (allows_branch (has₁.straight ready₁ adds.straight) isThen isElse) rfl).and
      (isStraight_build (IR.Build.isStraight_emit _) state₂)) () state₃ isBranch
  have straight := (straight₁.trans adds.straight).trans straight₃
  have moves₃ := straight.moves ready.insertPoint next
  have isMerge₃ := isMerge.moves adds.ready.isSome
    (straight₃.moves adds.ready.insertPoint next) rfl
  rw [ensures_pure]
  exact h truth thenBlock elseBlock merge state₁ state₂ state₃
    ⟨isTest, straight₁, ready₁, adds, isBranch, straight₃,
      knows.moves ready.isSome moves₃ rfl (Nat.le_refl _), sound₃, isMerge₃⟩

theorem ensures_conditional {loop : Option LoopId} {next holdsLoops : Nat}
    {holds fails : Lower (Option Ending)} {post : Unit → Lowering → Prop}
    (ready : state.Ready here pending) (knows : state.KnowsExit here.function loop next)
    (runsHolds : Runs loop next holds) (runsFails : Runs loop (next + holdsLoops) fails)
    (test : Expr) (position : Position)
    (h : ∀ truth thenBlock elseBlock merge tested opened branched joined last,
      Branches state here pending loop next (next + holdsLoops) test holds fails truth thenBlock
        elseBlock merge tested opened branched joined last →
      post () { last with builder := { last.builder with insertPoint := some merge } }) :
    Ensures (conditional test position holds fails) post state := by
  rw [conditional_eq, ensures_bind]
  refine ensures_openConditional ready knows test position ?_
  intro truth thenBlock elseBlock merge tested opened branched forks
  have sameElse := forks.sameElse
  rw [ensures_bind]
  intro _ joined isThen
  obtain ⟨sound, movesThen, isCurrent, knowsElse, isMerge⟩ :=
    forks.joins ready runsHolds holdsLoops () joined isThen
  rw [ensures_bind]
  intro _ last isElse
  obtain ⟨soundMerge, movesElse⟩ := sound_intoBlock runsFails sound (sameElse ▸ isCurrent)
    (sameElse ▸ knowsElse) (sameElse ▸ isMerge) () last isElse
  rw [ensures_build]
  exact h truth thenBlock elseBlock merge tested opened branched joined last
    ⟨forks, isThen, movesThen, isElse, sound, movesElse, soundMerge⟩

theorem goes_conditional {loop : Option LoopId} {next : Nat} {holds fails : Lower (Option Ending)}
    {holdsLoops : Nat} (ready : state.Ready here pending)
    (knows : state.KnowsExit here.function loop next)
    (runsHolds : Runs loop next holds) (runsFails : Runs loop (next + holdsLoops) fails)
    (test : Expr) (position : Position) :
    Ensures (conditional test position holds fails)
      (fun _ state' => state.Goes here pending next none state') state := by
  refine ensures_conditional ready knows runsHolds runsFails test position ?_
  intro truth thenBlock elseBlock merge tested opened branched joined last branches
  have leadsThen := branches.leads ready (by simp : thenBlock ∈ _)
  have leadsElse := branches.leads ready (by simp : elseBlock ∈ _)
  have leadsMerge := branches.leads ready (by simp : merge ∈ _)
  have moves := ((branches.movesBranch ready).trans leadsThen branches.movesThen
    (Nat.le_refl _)).trans leadsElse branches.movesElse (Nat.le_add_right _ _)
  have isCurrent := moves.current.trans ready.isCurrent
  rw [← leadsMerge.same] at isCurrent
  exact ⟨moves.setInsertPoint _,
    fun _ => ⟨merge, leadsMerge, branches.readyMerge.setInsertPoint isCurrent⟩, by simp⟩

def openLoop (function : IR.FunctionId) (id : LoopId) (test : Lower Operand) :
    Lower (BlockId × BlockId × BlockId) := do
  let testBlock ← build (IR.Build.appendBlock function "condblock")
  let bodyBlock ← build (IR.Build.appendBlock function "loop")
  let after ← build (IR.Build.appendBlock function "afterloop")
  build (IR.Build.jump testBlock)
  build (IR.Build.setInsertPoint testBlock)
  let truth ← test
  build (IR.Build.branch truth bodyBlock after)
  modify fun state => { state with exits := (id, after) :: state.exits }
  return (testBlock, bodyBlock, after)

theorem loop_eq (function : IR.FunctionId) (id : LoopId) (test : Lower Operand)
    (body : Lower (Option Ending)) :
    Lower.loop function id test body = (do
      let (testBlock, bodyBlock, after) ← openLoop function id test
      intoBlock bodyBlock testBlock body
      build (IR.Build.setInsertPoint after)) := by
  simp only [Lower.loop, openLoop, bind_assoc, pure_bind]

structure Begins (state : Lowering) (here : BlockId) (pending : List Nat) (next : Nat)
    (test : Lower Operand) (truth : Operand) (testBlock bodyBlock after : BlockId)
    (opened jumped tested branched : Lowering) : Prop where
  adds : state.AddsThree here pending testBlock bodyBlock after opened
  isJump : build (IR.Build.jump testBlock) opened = .ok () jumped
  straightJump : opened.Straight jumped
  readyTest : { jumped with builder := { jumped.builder with insertPoint := some testBlock } }.Ready
    testBlock (bodyBlock.index :: after.index :: pending)
  isTest : test { jumped with builder := { jumped.builder with insertPoint := some testBlock } } =
    .ok truth tested
  straightTest : { jumped with
    builder := { jumped.builder with insertPoint := some testBlock } }.Straight tested
  ready : tested.Ready testBlock (bodyBlock.index :: after.index :: pending)
  isBranch : build (IR.Build.branch truth bodyBlock after) tested = .ok () branched
  straightBranch : tested.Straight branched
  readyBody : { branched with exits := (⟨next⟩, after) :: branched.exits }.Sound
    (bodyBlock.index :: after.index :: pending)
  knows : { branched with exits := (⟨next⟩, after) :: branched.exits }.KnowsExit here.function
    (some ⟨next⟩) (next + 1)
  isTarget : { branched with exits := (⟨next⟩, after) :: branched.exits }.IsTarget here.function
    testBlock

structure Rounds (state : Lowering) (here : BlockId) (pending : List Nat) (next : Nat)
    (test : Lower Operand) (body : Lower (Option Ending)) (truth : Operand)
    (testBlock bodyBlock after : BlockId) (opened jumped tested branched last : Lowering) : Prop
    extends Begins state here pending next test truth testBlock bodyBlock after opened jumped tested
      branched where
  isBody : intoBlock bodyBlock testBlock body
    { branched with exits := (⟨next⟩, after) :: branched.exits } = .ok () last
  movesBody : { branched with exits := (⟨next⟩, after) :: branched.exits }.Moves bodyBlock
    (next + 1) last
  readyAfter : last.Sound (after.index :: pending)

namespace Begins

variable {next : Nat} {test : Lower Operand} {truth : Operand}
  {testBlock bodyBlock after : BlockId} {opened jumped tested branched : Lowering}
  (begins : Begins state here pending next test truth testBlock bodyBlock after opened jumped tested
    branched)

include begins

theorem movesJump (readyHere : state.Ready here pending) : state.Moves here next jumped :=
  (begins.adds.straight.trans begins.straightJump).moves readyHere.insertPoint next

theorem movesTest : jumped.Moves testBlock next branched :=
  ((begins.straightTest.trans begins.straightBranch).moves
    begins.readyTest.insertPoint next).forgetInsertPoint

theorem movesBranch (readyHere : state.Ready here pending) : state.Moves here next branched :=
  (begins.movesJump readyHere).trans (begins.adds.leads testBlock (by simp)) begins.movesTest
    (Nat.le_refl _)

theorem current (readyHere : state.Ready here pending) :
    branched.current? = some here.function :=
  (begins.movesBranch readyHere).current.trans readyHere.isCurrent

theorem sameTest : testBlock.function = here.function := (begins.adds.leads testBlock (by simp)).same

theorem sameBody : bodyBlock.function = here.function := (begins.adds.leads bodyBlock (by simp)).same

theorem sameAfter : after.function = here.function := (begins.adds.leads after (by simp)).same

/-! Each of the blocks has no code before its part of the loop is translated. -/

theorem emptyTest : jumped.IsEmpty testBlock := by
  have distinct := begins.adds.distinct
  simp only [List.nodup_cons, List.mem_cons, List.not_mem_nil, or_false, not_or] at distinct
  exact (begins.adds.isEmpty testBlock (by simp)).moves
    (begins.straightJump.moves begins.adds.ready.insertPoint next) begins.sameTest
    (Ne.symm distinct.1.1)

theorem emptyBranched {target : BlockId} (isTarget : target ∈ [bodyBlock, after]) :
    branched.IsEmpty target := by
  have isAdded : target ∈ [testBlock, bodyBlock, after] := List.mem_cons_of_mem _ isTarget
  have same := (begins.adds.leads target isAdded).same
  have distinct := begins.adds.distinct
  simp only [List.nodup_cons, List.mem_cons, List.not_mem_nil, or_false, not_or] at distinct
  have differs : target.index ≠ here.index ∧ target.index ≠ testBlock.index := by
    obtain rfl | rfl : target = bodyBlock ∨ target = after := by simpa using isTarget
    · exact ⟨Ne.symm distinct.1.2.1, Ne.symm distinct.2.1.1⟩
    · exact ⟨Ne.symm distinct.1.2.2, Ne.symm distinct.2.1.2⟩
  exact ((begins.adds.isEmpty target isAdded).moves
    (begins.straightJump.moves begins.adds.ready.insertPoint next) same differs.1).moves
    begins.movesTest (same.trans begins.sameTest.symm) differs.2

theorem emptyBody : branched.IsEmpty bodyBlock := begins.emptyBranched (by simp)

/-! What has been emitted between two parts is still there behind the next. -/

theorem partOpened (readyHere : state.Ready here pending) :
    state.builder.ir.Part here.function opened.builder.ir :=
  (begins.adds.straight.grows here readyHere.insertPoint).part

theorem partJumped : opened.builder.ir.Part here.function jumped.builder.ir :=
  (begins.straightJump.grows here begins.adds.ready.insertPoint).part

theorem partTested : jumped.builder.ir.Part here.function tested.builder.ir :=
  begins.sameTest ▸ (begins.straightTest.grows testBlock begins.readyTest.insertPoint).part

theorem partBranched : tested.builder.ir.Part here.function branched.builder.ir :=
  begins.sameTest ▸ (begins.straightBranch.grows testBlock begins.ready.insertPoint).part

end Begins

namespace Rounds

variable {next : Nat} {test : Lower Operand} {body : Lower (Option Ending)} {truth : Operand}
  {testBlock bodyBlock after : BlockId} {opened jumped tested branched last : Lowering}
  (rounds : Rounds state here pending next test body truth testBlock bodyBlock after opened jumped
    tested branched last)

include rounds

theorem moves (readyHere : state.Ready here pending) : state.Moves here next last :=
  ((rounds.movesBranch readyHere).trans (.refl _ _) (.addExit branched here next after)
    (Nat.le_refl _)).trans (rounds.adds.leads bodyBlock (by simp)) rounds.movesBody (Nat.le_succ _)

theorem emptyAfter : last.IsEmpty after := by
  have distinct := rounds.adds.distinct
  simp only [List.nodup_cons, List.mem_cons, List.not_mem_nil, or_false, not_or] at distinct
  have isEmpty : { branched with exits := (⟨next⟩, after) :: branched.exits }.IsEmpty after :=
    rounds.emptyBranched (by simp)
  exact isEmpty.moves rounds.movesBody (rounds.sameAfter.trans rounds.sameBody.symm)
    (Ne.symm distinct.2.2.1)

theorem partLast : branched.builder.ir.Part here.function last.builder.ir :=
  rounds.sameBody ▸ rounds.movesBody.grows.part

end Rounds

theorem ensures_openLoop {next : Nat} {test : Lower Operand}
    {post : BlockId × BlockId × BlockId → Lowering → Prop} (ready : state.Ready here pending)
    (yields : Yields test) (straight : test.IsStraight)
    (h : ∀ truth testBlock bodyBlock after opened jumped tested branched,
      Begins state here pending next test truth testBlock bodyBlock after opened jumped tested
        branched →
      post (testBlock, bodyBlock, after)
        { branched with exits := (⟨next⟩, after) :: branched.exits }) :
    Ensures (openLoop here.function ⟨next⟩ test) post state := by
  unfold openLoop
  refine ready.appendThree _ _ _ fun testBlock bodyBlock after state₁ adds => ?_
  have isTest := adds.isTarget testBlock (by simp)
  have isBody := adds.isTarget bodyBlock (by simp)
  have isAfter := adds.isTarget after (by simp)
  have sameTest := (adds.leads testBlock (by simp)).same
  rw [ensures_bind]
  intro _ state₂ isJump
  obtain ⟨⟨sound₂, -⟩, straight₂⟩ := ((adds.ready.terminate (.jump testBlock) (allows_jump isTest) rfl).and
    (isStraight_build (IR.Build.isStraight_emit _) state₁)) () state₂ isJump
  have moves₂ := straight₂.moves adds.ready.insertPoint next
  have isCurrent₂ : state₂.current? = some here.function :=
    (adds.straight.trans straight₂).current.trans ready.isCurrent
  have isSome₂ := moves₂.isSome adds.ready.isSome
  rw [ensures_bind, ensures_build]
  have ready₂ := sound₂.setInsertPoint (sameTest ▸ isCurrent₂)
  rw [ensures_bind]
  intro truth state₃ tested
  obtain ⟨⟨ready₃, has₃⟩, straight₃⟩ := ((yields ready₂).and (straight _)) truth state₃ tested
  have moves₃ := (straight₃.moves ready₂.insertPoint next).forgetInsertPoint
  -- the blocks that wait stay targets while code goes to the block of the test
  have isBody₃ := (isBody.moves adds.ready.isSome moves₂ rfl).moves isSome₂ moves₃ sameTest
  have isAfter₃ := (isAfter.moves adds.ready.isSome moves₂ rfl).moves isSome₂ moves₃ sameTest
  have isTest₃ := (isTest.moves adds.ready.isSome moves₂ rfl).moves isSome₂ moves₃ sameTest
  have isSome₃ : state₃.builder.ir.functions[here.function]?.isSome := sameTest ▸ ready₃.isSome
  rw [ensures_bind]
  intro _ state₄ isBranch
  obtain ⟨⟨sound₄, -⟩, straight₄⟩ := ((ready₃.terminate (.branch truth bodyBlock after)
    (allows_branch has₃ (sameTest ▸ isBody₃) (sameTest ▸ isAfter₃)) rfl).and
    (isStraight_build (IR.Build.isStraight_emit _) state₃)) () state₄ isBranch
  have moves₄ := straight₄.moves ready₃.insertPoint next
  have isAfter₄ := isAfter₃.moves isSome₃ moves₄ sameTest
  have isTest₄ := isTest₃.moves isSome₃ moves₄ sameTest
  rw [ensures_bind, ensures_modify, ensures_pure]
  have sound₅ := sound₄.addExit (⟨next⟩, after)
  have knows₅ : { state₄ with exits := (⟨next⟩, after) :: state₄.exits }.KnowsExit here.function
      (some ⟨next⟩) (next + 1) := by
    rintro _ ⟨⟩
    exact ⟨Nat.lt_succ_self _, _, by simp, isAfter₄⟩
  exact h truth testBlock bodyBlock after state₁ state₂ state₃ state₄
    ⟨adds, isJump, straight₂, ready₂, tested, straight₃, ready₃, isBranch, straight₄, sound₅, knows₅,
      isTest₄⟩

theorem ensures_loop {next : Nat} {test : Lower Operand} {body : Lower (Option Ending)}
    {post : Unit → Lowering → Prop} (ready : state.Ready here pending) (yields : Yields test)
    (straight : test.IsStraight) (runs : Runs (some ⟨next⟩) (next + 1) body)
    (h : ∀ truth testBlock bodyBlock after opened jumped tested branched last,
      Rounds state here pending next test body truth testBlock bodyBlock after opened jumped tested
        branched last →
      post () { last with builder := { last.builder with insertPoint := some after } }) :
    Ensures (Lower.loop here.function ⟨next⟩ test body) post state := by
  rw [loop_eq, ensures_bind]
  refine ensures_openLoop ready yields straight ?_
  intro truth testBlock bodyBlock after opened jumped tested branched begins
  have same := begins.sameBody
  rw [ensures_bind]
  intro _ last isBody
  obtain ⟨sound, moves⟩ := sound_intoBlock runs begins.readyBody (same ▸ begins.current ready)
    (same ▸ begins.knows) (same ▸ begins.isTarget) () last isBody
  rw [ensures_build]
  exact h truth testBlock bodyBlock after opened jumped tested branched last
    ⟨begins, isBody, moves, sound⟩

theorem goes_loop {next : Nat} {test : Lower Operand} {body : Lower (Option Ending)}
    (ready : state.Ready here pending) (yields : Yields test) (straight : test.IsStraight)
    (runs : Runs (some ⟨next⟩) (next + 1) body) :
    Ensures (Lower.loop here.function ⟨next⟩ test body)
      (fun _ state' => state.Goes here pending next none state') state := by
  refine ensures_loop ready yields straight runs ?_
  intro truth testBlock bodyBlock after opened jumped tested branched last rounds
  have leadsAfter := rounds.adds.leads after (by simp)
  have moves := rounds.moves ready
  have isCurrent := moves.current.trans ready.isCurrent
  rw [← leadsAfter.same] at isCurrent
  exact ⟨moves.setInsertPoint _,
    fun _ => ⟨after, leadsAfter, rounds.readyAfter.setInsertPoint isCurrent⟩, by simp⟩

/-! ### Statements -/

theorem goes_straight (next : Nat) {state' : Lowering} (ready : state.Ready here pending)
    (straight : state.Straight state') (ready' : state'.Ready here pending) :
    state.Goes here pending next none state' :=
  ⟨straight.moves ready.insertPoint next, fun _ => ⟨here, .refl state here, ready'⟩, by simp⟩

theorem runs_none (loop : Option LoopId) (next : Nat) : Runs loop next (return none) := by
  intro state here pending ready knows
  exact ensures_pure.2 (goes_straight _ ready (.refl state) ready)

theorem ready_withinLimit (counter : Expr) (direction : Direction) (limit : Expr) :
    Yields (withinLimit counter direction limit) := by
  intro state here pending ready
  unfold withinLimit
  rw [ensures_bind]
  refine (yields_expression limit ready).mono ?_
  rintro last state₁ ⟨ready₁, hasLast⟩
  rw [ensures_bind]
  refine ((yields_expression counter ready₁).and (isStraight_expression .running counter state₁)).mono ?_
  rintro current state₂ ⟨⟨ready₂, hasCurrent⟩, straight₂⟩
  cases direction <;> exact ready_compare ready₂ _ hasCurrent (hasLast.straight ready₁ straight₂)

theorem ready_advanceCounter (ready : state.Ready here pending) (counter : Expr)
    (direction : Direction) :
    Ensures (advanceCounter counter direction) (fun _ state' => state'.Ready here pending) state := by
  unfold advanceCounter
  rw [ensures_bind]
  refine (yields_pointer counter ready).mono ?_
  rintro pointer state₁ ⟨ready₁, hasPointer⟩
  rw [ensures_bind]
  refine ((yields_expression counter ready₁).and (isStraight_expression .running counter state₁)).mono ?_
  rintro current state₂ ⟨⟨ready₂, hasCurrent⟩, straight₂⟩
  have hasPointer₂ := hasPointer.straight ready₁ straight₂
  cases direction <;>
  · simp only [ensures_bind]
    refine ((ready_arith ready₂ _ hasCurrent (has_int 1)).and
      (isStraight_build (IR.Build.isStraight_arith _ _ _) state₂)).mono ?_
    rintro moved state₃ ⟨⟨ready₃, hasMoved⟩, straight₃⟩
    exact ready_store ready₃ hasMoved (hasPointer₂.straight ready₂ straight₃)

theorem runs_advance {loop : Option LoopId} {next : Nat} {body : Lower (Option Ending)}
    (runs : Runs loop next body) (counter : Expr) (direction : Direction) :
    Runs loop next (do
      let ending ← body
      if ending.isNone then advanceCounter counter direction
      return ending) := by
  intro state here pending ready knows
  rw [ensures_bind]
  refine (runs ready knows).mono fun ending state₁ goes => ?_
  cases ending with
  | some ending => simpa using goes
  | none =>
      obtain ⟨there, leads, ready₁⟩ := goes.continues rfl
      simp only [Option.isNone_none, if_true, ensures_bind, ensures_pure]
      refine ((ready_advanceCounter ready₁ counter direction).and
        (isStraight_advanceCounter counter direction state₁)).mono ?_
      rintro _ state₂ ⟨ready₂, straight₂⟩
      have moves := goes.moves.trans leads (straight₂.moves ready₁.insertPoint next) (Nat.le_refl _)
      exact ⟨moves, fun _ => ⟨there, leads, ready₂⟩, by simp⟩

theorem goes_callStatement {next : Nat} (ready : state.Ready here pending) (name : String)
    (arguments : List Expr) (position : Position) :
    Ensures (statement (.call name arguments position)) (state.Goes here pending next) state := by
  simp only [statement, callStatement, ensures_bind]
  refine ((leaves_call ready name arguments position false (yieldsAll_expressions arguments)
    (isStraight_expressions arguments) (yields_firstPointer arguments)).and
    (isStraight_call name arguments position false state)).mono ?_
  rintro result state₁ ⟨left, straight⟩
  cases result with
  | value value => exact ensures_pure.2 (goes_straight _ ready straight left.1)
  | nothing => exact ensures_pure.2 (goes_straight _ ready straight left)
  | exited =>
      exact ensures_pure.2 ⟨straight.moves ready.insertPoint next, by simp, fun _ => left⟩

theorem goes_leaveLoop {loop : LoopId} {next : Nat} (ready : state.Ready here pending)
    (knows : state.KnowsExit here.function (some loop) next) (position : Position) :
    Ensures (leaveLoop loop position) (fun _ => state.Goes here pending next (some .leave)) state := by
  obtain ⟨-, exit, isExit, isTarget⟩ := knows loop rfl
  simp only [leaveLoop, ensures_bind, ensures_get, isExit]
  refine ((ready.terminate (.jump exit) (allows_jump isTarget) rfl).and
    (isStraight_build (IR.Build.isStraight_emit _) state)).mono ?_
  rintro _ state₁ ⟨ended, straight⟩
  exact ⟨straight.moves ready.insertPoint next, by simp, fun _ => ended⟩

mutual

theorem runs_statement {loop : Option LoopId} {next : Nat} (action : Statement)
    (isAction : action.IsAction loop next) : Runs loop next (statement action) := by
  intro state here pending ready knows
  cases action with
  | call name arguments position => exact goes_callStatement ready name arguments position
  | assign assignment =>
      simp only [statement, ensures_bind, ensures_pure]
      refine ((ready_assign ready assignment).and (isStraight_assign assignment state)).mono ?_
      rintro _ state₁ ⟨ready₁, straight₁⟩
      exact goes_straight _ ready straight₁ ready₁
  | block body =>
      rw [statement]
      exact runs_statements body isAction ready knows
  | ifThen test holds position =>
      simp only [statement, ensures_bind, ensures_pure]
      exact goes_conditional ready knows (runs_statement holds isAction.2)
        (runs_none loop (next + holds.loops)) test position
  | ifThenElse test holds fails position =>
      simp only [statement, ensures_bind, ensures_pure]
      exact goes_conditional ready knows (runs_statement holds isAction.2.1)
        (runs_statement fails isAction.2.2) test position
  | whileLoop id test body position =>
      obtain ⟨rfl, -, isBody⟩ := isAction
      simp only [statement, whileLoop, ensures_bind, ensures_pure]
      refine ensures_currentFunction ready .whileLoop position ?_
      exact goes_loop ready (yields_condition test) (isStraight_condition test)
        (runs_statement body isBody)
  | forLoop id initial direction limit body position =>
      obtain ⟨rfl, -, -, -, isBody⟩ := isAction
      simp only [statement, forLoop]
      rw [ensures_bind, ensures_bind]
      refine ensures_currentFunction ready .forLoop position ?_
      rw [ensures_bind]
      refine ((ready_assign ready initial).and (isStraight_assign initial state)).mono ?_
      rintro _ state₁ ⟨ready₁, straight₁⟩
      have first := goes_straight next ready straight₁ ready₁
      refine (goes_loop ready₁ (ready_withinLimit initial.target direction limit)
        (isStraight_withinLimit _ _ _)
        (runs_advance (runs_statement body isBody) initial.target direction)).mono ?_
      rintro _ state₂ goes
      exact ensures_pure.2 (first.andThen (.refl state here) goes (Nat.le_refl _))
  | leave id position =>
      obtain rfl := isAction
      simp only [statement, ensures_bind, ensures_pure]
      exact goes_leaveLoop ready knows position
  | _ => exact isAction.elim

theorem runs_statements {loop : Option LoopId} {next : Nat} (actions : List Statement)
    (areActions : Statement.AreActions loop next actions) :
    Runs loop next (statements actions) := by
  intro state here pending ready knows
  cases actions with
  | nil => exact runs_none loop next ready knows
  | cons first others =>
      obtain ⟨isAction, areOthers⟩ := areActions
      simp only [statements, ensures_bind]
      refine (runs_statement first isAction ready knows).mono fun ending state₁ goes => ?_
      cases ending with
      | some ending => exact ensures_pure.2 goes
      | none =>
          obtain ⟨there, leads, ready₁⟩ := goes.continues rfl
          have knows₁ := knows.moves ready.isSome goes.moves rfl (Nat.le_add_right next first.loops)
          rw [← leads.same] at knows₁
          refine (runs_statements others areOthers ready₁ knows₁).mono fun ending state₂ goes₂ => ?_
          exact goes.andThen leads goes₂ (Nat.le_add_right _ _)

end

end Lower

end MiniPascal
