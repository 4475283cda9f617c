import MiniPascal.Proofs.Machine.Texts
import MiniPascal.Proofs.Simulation.Context

/-!
# Steps of bodies

Each instruction that the translation of an expression emits does its part of the evaluation.
-/

namespace MiniPascal

open Evaluation (Eval Memory Place Stop)
open IR (BlockId Operand Instruction)
open Lowering (Ready)
open Machine (Config Frame Limits State Word Pointer)
open Machine.Run (execute)

variable {α : Type}

/-! ### Calls in progress -/

structure Scene extends Context where
  limits : Limits
  activation : Activation
  fuel : Nat
  invoke : Heading → List Statement → List Int32 → Eval (Option Int32)

structure Plan.Begins (plan : Plan) (activation : Activation) (id : IR.FunctionId)
    (arguments : List Int32) (memory : Memory) (config : Config) : Prop where
  frame : ∃ function, plan.ir.functions[id]? = some function ∧
    config.frame = Machine.Run.entryFrame function id (arguments.map .int) activation.below.length
      activation.depth activation.result
  holds : plan.Holds activation [] memory config.state

structure Plan.Returns (plan : Plan) (activation : Activation) (value? : Option Int32)
    (memory : Memory) (config : Config) : Prop where
  fetched : ∃ operand?, config.frame.fetch plan.ir = .ok (.ret operand?) ∧
    Option.Rel (fun operand value => config.frame.word plan.ir operand = .ok (.int value)) operand?
      value?
  base : config.frame.base = activation.below.length
  result : config.frame.result = activation.result
  globals : plan.Globals memory config.state.globals
  stack : activation.below <+: config.state.stack.toList
  callers : config.state.callers = activation.callers
  console : config.state.console = memory.console

def Plan.Calls (plan : Plan) (limits : Limits) (fuel : Nat)
    (invoke : Heading → List Statement → List Int32 → Eval (Option Int32)) : Prop :=
  ∀ ⦃id heading body⦄, plan.code id heading body → ∀ ⦃arguments : List Int32⦄,
    arguments.length = heading.parameterCount → ∀ ⦃activation memory config⦄,
      plan.Begins activation id arguments memory config →
        Simulates plan.ir limits fuel (limits.depth < activation.depth + fuel) config
          (invoke heading body arguments memory) fun value? memory' last =>
            plan.Returns activation value? memory' last ∧
              value?.isSome = heading.returns.isSome ∧
              memory'.locals = memory.locals ∧ memory'.result = memory.result

namespace Scene

structure Fair (scene : Scene) : Prop extends scene.toContext.Fair where
  calls : scene.plan.Calls scene.limits scene.fuel scene.invoke

abbrev Here (scene : Scene) (state : Lowering) (here : BlockId) (memory : Memory)
    (config : Config) : Prop :=
  scene.toContext.Here scene.activation state here memory config

abbrev Follows (scene : Scene) (config : Config) (result : EStateM.Result Stop Memory α)
    (good : α → Memory → Config → Prop) : Prop :=
  Simulates scene.plan.ir scene.limits (scene.fuel + 1)
    (scene.limits.depth < scene.activation.depth + (scene.fuel + 1)) config result good

structure Reaches (scene : Scene) (state : Lowering) (here : BlockId) (config : Config)
    (state' : Lowering) (memory : Memory) (last : Config) : Prop where
  isHere : scene.Here state' here memory last
  keeps : config.frame.Keeps (state.builder.ir.registers here.function) last.frame

abbrev Reads (scene : Scene) (state : Lowering) (here : BlockId) (operand : Operand) (word : Word)
    (frame : Frame) : Prop :=
  frame.Reads scene.plan.ir (state.builder.ir.registers here.function) operand word

variable {scene : Scene} {state state' : Lowering} {here : BlockId} {pending : List Nat}
  {memory memory' : Memory} {config last : Config}

theorem Reaches.refl (isHere : scene.Here state here memory config) :
    scene.Reaches state here config state memory config := ⟨isHere, .refl _ _⟩

theorem Reaches.trans {state₁ : Lowering} {middle : Config}
    (h₁ : scene.Reaches state here config state₁ memory middle)
    (h₂ : scene.Reaches state₁ here middle state' memory' last)
    (le : state.builder.ir.registers here.function ≤ state₁.builder.ir.registers here.function) :
    scene.Reaches state here config state' memory' last :=
  ⟨h₂.isHere, h₁.keeps.trans h₂.keeps le⟩

theorem room {instruction : Instruction} (emits : state.Emits here instruction 1 state')
    (part : state'.builder.ir.Part here.function scene.plan.ir)
    (isHere : scene.Here state here memory config) :
    state.builder.ir.registers here.function < config.frame.registers.size := by
  rw [isHere.owns.size]
  have enough := part.registers
  rw [emits.registers] at enough
  omega

theorem reaches_defined {instruction : Instruction} (emits : state.Emits here instruction 1 state')
    (part : state'.builder.ir.Part here.function scene.plan.ir)
    (isHere : scene.Here state here memory config) (word : Word) {after : State}
    (holds : scene.plan.Holds scene.activation scene.slots memory' after) :
    scene.Reaches state here config state' memory'
        ⟨(config.frame.define (state.builder.ir.registers here.function) word).advance, after⟩ ∧
      scene.Reads state' here (.register (state.builder.ir.registers here.function)) word
        (config.frame.define (state.builder.ir.registers here.function) word).advance := by
  have keeps := config.frame.keeps_define (state.builder.ir.registers here.function) word
  have bound := room emits part isHere
  refine ⟨⟨⟨?_, ?_, ?_, holds⟩, keeps⟩, ?_, ?_⟩
  · exact emits.isAt isHere.isAt rfl rfl
  · exact isHere.owns.keeps keeps isHere.room
  · rw [emits.registers]
    exact Nat.le_succ_of_le isHere.room
  · simp [Frame.word, Frame.define, Frame.advance, bound]
  · simp [Operand.Below, emits.registers]

theorem reaches_define {instruction : Instruction} (emits : state.Emits here instruction 1 state')
    (part : state'.builder.ir.Part here.function scene.plan.ir)
    (isHere : scene.Here state here memory config) {word : Word} {after : State}
    (executed : execute scene.plan.ir scene.limits config.frame instruction config.state.counted =
      .ok (.next (config.frame.define (state.builder.ir.registers here.function) word).advance)
        after)
    (holds : scene.plan.Holds scene.activation scene.slots memory' after) :
    ∃ last, config.Runs scene.plan.ir scene.limits 1 last ∧
      scene.Reaches state here config state' memory' last ∧
      scene.Reads state' here (.register (state.builder.ir.registers here.function)) word
        last.frame :=
  ⟨_, .one (emits.fetch part isHere.isAt) executed, reaches_defined emits part isHere word holds⟩

theorem reaches_advanced {instruction : Instruction} (emits : state.Emits here instruction 0 state')
    (isHere : scene.Here state here memory config) {after : State}
    (holds : scene.plan.Holds scene.activation scene.slots memory' after) :
    scene.Reaches state here config state' memory' ⟨config.frame.advance, after⟩ := by
  have keeps := config.frame.keeps_advance (state.builder.ir.registers here.function)
  refine ⟨⟨?_, ?_, ?_, holds⟩, keeps⟩
  · exact emits.isAt isHere.isAt rfl rfl
  · exact isHere.owns.keeps keeps isHere.room
  · rw [emits.registers]
    exact isHere.room

theorem reaches_advance {instruction : Instruction} (emits : state.Emits here instruction 0 state')
    (part : state'.builder.ir.Part here.function scene.plan.ir)
    (isHere : scene.Here state here memory config) {after : State}
    (executed : execute scene.plan.ir scene.limits config.frame instruction config.state.counted =
      .ok (.next config.frame.advance) after)
    (holds : scene.plan.Holds scene.activation scene.slots memory' after) :
    ∃ last, config.Runs scene.plan.ir scene.limits 1 last ∧
      scene.Reaches state here config state' memory' last :=
  ⟨_, .one (emits.fetch part isHere.isAt) executed, reaches_advanced emits isHere holds⟩

/-! ### Operations -/

theorem reads_int (value : Int32) (frame : Frame) :
    scene.Reads state here (.int value) (.int value) frame := ⟨rfl, trivial⟩

theorem reads_bool (value : Bool) (frame : Frame) :
    scene.Reads state here (.bool value) (.int (truth value)) frame := ⟨rfl, trivial⟩

def ofOption (result? : Option Int32) : Eval Int32 :=
  match result? with
  | some value => return value
  | none => throw .divisionByZero

theorem evaluateBool {op : IR.ArithOp} {left right result : Bool}
    (isResult : op.evaluateBool? left right = some result) :
    op.evaluate? (truth left) (truth right) = some (truth result) := by
  cases op <;> simp only [IR.ArithOp.evaluateBool?, Option.some.injEq, reduceCtorEq] at isResult
  · subst isResult
    cases left <;> cases right <;> rfl
  · subst isResult
    cases left <;> cases right <;> rfl
  · subst isResult
    cases left <;> cases right <;> rfl

theorem reads_foldArith {op : IR.ArithOp} {left right folded : Operand} {x y : Int32} {frame : Frame}
    {ir : IR.Module} {bound : Nat} (isFolded : op.fold? left right = some folded)
    (readsLeft : frame.Reads ir bound left (.int x))
    (readsRight : frame.Reads ir bound right (.int y)) :
    ∃ value, op.evaluate? x y = some value ∧ frame.Reads ir bound folded (.int value) := by
  have isLeft := readsLeft.word
  have isRight := readsRight.word
  cases left <;> cases right <;>
    simp only [IR.ArithOp.fold?, Option.map_eq_some_iff, reduceCtorEq] at isFolded
  · obtain ⟨value, isValue, rfl⟩ := isFolded
    simp only [Frame.word, Except.ok.injEq, Word.int.injEq] at isLeft isRight
    subst isLeft isRight
    exact ⟨value, isValue, rfl, trivial⟩
  · obtain ⟨value, isValue, rfl⟩ := isFolded
    simp only [Frame.word, Except.ok.injEq, Word.int.injEq] at isLeft isRight
    subst isLeft isRight
    exact ⟨truth value, evaluateBool isValue, rfl, trivial⟩

variable (scene) in
theorem follows_arith (ready : state.Ready here pending) (op : IR.ArithOp) (left right : Operand) :
    Ensures (Lower.build (IR.Build.arith op left right)) (fun operand state' =>
      state'.builder.ir.Part here.function scene.plan.ir → ∀ ⦃memory config x y⦄,
        scene.Here state here memory config → scene.Reads state here left (.int x) config.frame →
          scene.Reads state here right (.int y) config.frame →
            scene.Follows config (ofOption (op.evaluate? x y) memory) fun value memory' last =>
              scene.Reaches state here config state' memory' last ∧
                scene.Reads state' here operand (.int value) last.frame) state := by
  unfold IR.Build.arith
  cases folded : op.fold? left right with
  | some operand =>
      refine Lower.ensures_build.2 fun part memory config x y isHere readsLeft readsRight => ?_
      obtain ⟨value, isValue, reads⟩ := reads_foldArith folded readsLeft readsRight
      rw [isValue]
      exact .done ⟨.refl isHere, reads⟩
  | none =>
      refine (ready.emitsValue _).mono ?_
      rintro _ state' ⟨rfl, emits⟩ part memory config x y isHere readsLeft readsRight
      have executed := Machine.Run.execute_arith scene.limits config.state.counted op readsLeft.int
        readsRight.int (room emits part isHere)
      cases isValue : op.evaluate? x y with
      | some value =>
          rw [isValue] at executed
          obtain ⟨last, runs, reaches, reads⟩ :=
            reaches_define emits part isHere executed isHere.holds.counted
          exact .steps runs (.done ⟨reaches, reads⟩)
      | none =>
          simp only [isValue] at executed
          exact .throws ⟨_, emits.fetch part isHere.isAt, executed⟩ trivial isHere.holds.console

theorem reads_foldCompare {predicate : IR.Predicate} {left right folded : Operand} {x y : Int32}
    {frame : Frame} {ir : IR.Module} {bound : Nat}
    (isFolded : predicate.fold? left right = some folded)
    (readsLeft : frame.Reads ir bound left (.int x))
    (readsRight : frame.Reads ir bound right (.int y)) :
    frame.Reads ir bound folded (.int (truth (predicate.evaluate x y))) := by
  have isLeft := readsLeft.word
  have isRight := readsRight.word
  cases left <;> cases right <;>
    simp only [IR.Predicate.fold?, Option.some.injEq, reduceCtorEq] at isFolded
  · simp only [Frame.word, Except.ok.injEq, Word.int.injEq] at isLeft isRight
    subst isLeft isRight isFolded
    exact ⟨rfl, trivial⟩
  · simp only [Frame.word, Except.ok.injEq, Word.int.injEq] at isLeft isRight
    subst isLeft isRight isFolded
    exact ⟨rfl, trivial⟩

variable (scene) in
theorem follows_compare (ready : state.Ready here pending) (predicate : IR.Predicate)
    (left right : Operand) :
    Ensures (Lower.build (IR.Build.compare predicate left right)) (fun operand state' =>
      state'.builder.ir.Part here.function scene.plan.ir → ∀ ⦃memory config x y⦄,
        scene.Here state here memory config → scene.Reads state here left (.int x) config.frame →
          scene.Reads state here right (.int y) config.frame →
            scene.Follows config ((pure (truth (predicate.evaluate x y)) : Eval Int32) memory)
              fun value memory' last => scene.Reaches state here config state' memory' last ∧
                scene.Reads state' here operand (.int value) last.frame) state := by
  unfold IR.Build.compare
  cases folded : predicate.fold? left right with
  | some operand =>
      refine Lower.ensures_build.2 fun part memory config x y isHere readsLeft readsRight => ?_
      exact .done ⟨.refl isHere, reads_foldCompare folded readsLeft readsRight⟩
  | none =>
      refine (ready.emitsValue _).mono ?_
      rintro _ state' ⟨rfl, emits⟩ part memory config x y isHere readsLeft readsRight
      obtain ⟨last, runs, reaches, reads⟩ := reaches_define emits part isHere
        (Machine.Run.execute_compare scene.limits config.state.counted predicate readsLeft.int
          readsRight.int (room emits part isHere)) isHere.holds.counted
      exact .steps runs (.done ⟨reaches, reads⟩)

/-! ### Storage -/

def Leads (scene : Scene) (state : Lowering) (here : BlockId) (operand : Operand) (place : Place)
    (frame : Frame) : Prop :=
  ∃ pointer, scene.Reads state here operand (.pointer pointer) frame ∧
    scene.plan.Points scene.activation scene.slots place pointer

theorem follows_load (fair : scene.Fair) (ready : state.Ready here pending) (pointer : Operand) :
    Ensures (Lower.build (IR.Build.load pointer)) (fun operand state' =>
      state'.builder.ir.Part here.function scene.plan.ir → ∀ ⦃memory config place⦄,
        scene.Here state here memory config → scene.Leads state here pointer place config.frame →
          scene.Follows config (Evaluation.read place memory) fun value memory' last =>
            scene.Reaches state here config state' memory' last ∧
              scene.Reads state' here operand (.int value) last.frame) state := by
  refine (ready.emitsValue _).mono ?_
  rintro _ state' ⟨rfl, emits⟩ part memory config place isHere ⟨target, reads, points⟩
  have executed := Machine.Run.execute_load scene.limits config.state.counted reads.pointer
    (room emits part isHere)
  rcases load_of_points fair.plan isHere.holds.counted points config.frame.function with
    ⟨value, isRead, isLoaded⟩ | ⟨isRead, name, offset, isLoaded⟩
  · rw [isLoaded] at executed
    obtain ⟨last, runs, reaches, reads⟩ :=
      reaches_define emits part isHere executed isHere.holds.counted
    rw [isRead]
    exact .steps runs (.done ⟨reaches, reads⟩)
  · rw [isLoaded] at executed
    rw [isRead]
    exact .throws ⟨_, emits.fetch part isHere.isAt, executed⟩ trivial isHere.holds.console

theorem follows_store (fair : scene.Fair) (ready : state.Ready here pending)
    (source pointer : Operand) :
    Ensures (Lower.build (IR.Build.store source pointer)) (fun _ state' =>
      state'.builder.ir.Part here.function scene.plan.ir → ∀ ⦃memory config place value⦄,
        scene.Here state here memory config →
          scene.Reads state here source (.int value) config.frame →
            scene.Leads state here pointer place config.frame →
              scene.Follows config (Evaluation.write place value memory) fun _ memory' last =>
                scene.Reaches state here config state' memory' last) state := by
  refine (ready.emits _).mono ?_
  rintro _ state' emits part memory config place value isHere readsValue ⟨target, reads, points⟩
  have executed := Machine.Run.execute_store scene.limits config.state.counted readsValue.int
    reads.pointer
  rcases store_of_points fair.plan fair.nodup isHere.holds.counted points config.frame.function
    value with ⟨later, after, isWritten, isStored, holds⟩ | ⟨isWritten, name, offset, isStored⟩
  · rw [isStored] at executed
    obtain ⟨last, runs, reaches⟩ := reaches_advance emits part isHere executed holds
    rw [isWritten]
    exact .steps runs (.done reaches)
  · rw [isStored] at executed
    rw [isWritten]
    exact .throws ⟨_, emits.fetch part isHere.isAt, executed⟩ trivial isHere.holds.console

variable (scene) in
theorem follows_element (ready : state.Ready here pending) (base index : Operand) :
    Ensures (Lower.build (IR.Build.element base index)) (fun operand state' =>
      state'.builder.ir.Part here.function scene.plan.ir → ∀ ⦃memory config id offset⦄,
        scene.Here state here memory config →
          scene.Reads state here base (.pointer (.global id 0)) config.frame →
            scene.Reads state here index (.int offset) config.frame →
              ∃ last, config.Runs scene.plan.ir scene.limits 1 last ∧
                scene.Reaches state here config state' memory last ∧
                scene.Reads state' here operand (.pointer (.global id offset.toInt)) last.frame)
      state := by
  refine (ready.emitsValue _).mono ?_
  rintro _ state' ⟨rfl, emits⟩ part memory config id offset isHere readsBase readsIndex
  have executed := Machine.Run.execute_element scene.limits config.state.counted readsBase.pointer
    readsIndex.int (room emits part isHere)
  rw [Int.zero_add] at executed
  exact reaches_define emits part isHere executed isHere.holds.counted

end Scene

end MiniPascal
