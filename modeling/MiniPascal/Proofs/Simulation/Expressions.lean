import MiniPascal.Proofs.Simulation.Names

/-!
# Simulation of expressions

The code of an expression evaluates it: the machine gets to where the operand reads as the value, or
fails where the evaluation does.
-/

namespace MiniPascal

open Evaluation (Eval Memory Place Meaning)
open IR (BlockId Operand Instruction)
open Lowering (Ready)
open Machine (Config Frame Word Pointer)

namespace Scene

variable {scene : Scene} {state state' : Lowering} {here : BlockId} {pending : List Nat}
  {memory : Memory} {config : Config}

/-! ### Operators -/

theorem compute_notEqual (left right : Int32) :
    BinaryOp.notEqual.compute? left right =
      some (truth (IR.Predicate.notEqual.evaluate left right)) := by
  by_cases same : left = right
  · simp [BinaryOp.compute?, IR.Predicate.evaluate, same]
  · simp [BinaryOp.compute?, IR.Predicate.evaluate, same, bne_iff_ne.2 same]

theorem run_binary (scene : Scene) (ready : state.Ready here pending) (op : BinaryOp) {left right : Operand}
    (hasLeft : state.Has here left) (hasRight : state.Has here right) :
    Ensures (Lower.build (op.emit left right)) (fun operand state' =>
      Tracks state here pending state' ∧ state'.Has here operand ∧
      (state'.builder.ir.Part here.function scene.plan.ir → ∀ ⦃memory config x y⦄,
        scene.Here state here memory config → scene.Reads state here left (.int x) config.frame →
          scene.Reads state here right (.int y) config.frame →
            scene.Follows config (ofOption (op.compute? x y) memory) fun value memory' last =>
              scene.Reaches state here config state' memory' last ∧
                scene.Reads state' here operand (.int value) last.frame)) state := by
  cases op with
  | add => exact run_arith scene ready .add hasLeft hasRight
  | sub => exact run_arith scene ready .sub hasLeft hasRight
  | mul => exact run_arith scene ready .mul hasLeft hasRight
  | div => exact run_arith scene ready .div hasLeft hasRight
  | mod => exact run_arith scene ready .rem hasLeft hasRight
  | and => exact run_arith scene ready .and hasLeft hasRight
  | or => exact run_arith scene ready .or hasLeft hasRight
  | equal => exact run_compare scene ready .equal hasLeft hasRight
  | notEqual =>
      simp only [compute_notEqual]
      exact run_compare scene ready .notEqual hasLeft hasRight
  | less => exact run_compare scene ready .less hasLeft hasRight
  | greater => exact run_compare scene ready .greater hasLeft hasRight
  | lessEqual => exact run_compare scene ready .lessEqual hasLeft hasRight
  | greaterEqual => exact run_compare scene ready .greaterEqual hasLeft hasRight

theorem values_binary {op : BinaryOp} {left right : Expr} (position : Position)
    (first : scene.Values (Lower.expression .running left)
      (Evaluation.value scene.invoke scene.scope left))
    (second : scene.Values (Lower.expression .running right)
      (Evaluation.value scene.invoke scene.scope right)) :
    scene.Values (Lower.expression .running (.binary op left right position))
      (Evaluation.value scene.invoke scene.scope (.binary op left right position)) := by
  intro state here pending ready within
  simp only [Lower.expression, ensures_bind]
  refine (first.run (Lower.yields_expression left ready) (Lower.isStraight_expression _ left) ready
    within).mono ?_
  rintro x state₁ ⟨tracks₁, has₁, follows₁⟩
  refine (second.run (Lower.yields_expression right tracks₁.ready)
    (Lower.isStraight_expression _ right) tracks₁.ready (within.straight tracks₁.straight)).mono ?_
  rintro y state₂ ⟨tracks₂, has₂, follows₂⟩
  simp only [reduceCtorEq, false_and, if_false]
  refine (run_binary scene tracks₂.ready op (has₁.straight tracks₁.ready tracks₂.straight) has₂).mono ?_
  rintro z state₃ ⟨tracks₃, -, follows₃⟩ part memory config isHere
  have part₂ := tracks₃.part tracks₂.ready part
  have part₁ := tracks₂.part tracks₁.ready part₂
  have le₁ := tracks₁.registers ready
  have le₂ := tracks₂.registers tracks₁.ready
  rw [Evaluation.value]
  refine (follows₁ part₁ isHere).bind ?_
  rintro value memory₁ config₁ ⟨reaches₁, reads₁⟩
  refine (follows₂ part₂ reaches₁.isHere).bind ?_
  rintro other memory₂ config₂ ⟨reaches₂, reads₂⟩
  refine (follows₃ part reaches₂.isHere (reads₁.keeps reaches₂.keeps le₂) reads₂).weaken ?_
  rintro result memory₃ config₃ ⟨reaches₃, reads₃⟩
  exact ⟨(reaches₁.trans reaches₂ le₁).trans reaches₃ (Nat.le_trans le₁ le₂), reads₃⟩

theorem values_unary {operand : Expr} {evaluation : Eval Int32} (op : IR.ArithOp)
    {left right : Operand → Operand} (compute : Int32 → Int32)
    (values : scene.Values (Lower.expression .running operand) evaluation)
    (has : ∀ {state here value}, Lowering.Has state here value →
      state.Has here (left value) ∧ state.Has here (right value))
    (computes : ∀ {state here value frame operand}, scene.Reads state here operand (.int value) frame →
      ∃ x y, scene.Reads state here (left operand) (.int x) frame ∧
        scene.Reads state here (right operand) (.int y) frame ∧
        op.evaluate? x y = some (compute value)) :
    scene.Values (do
      let value ← Lower.expression .running operand
      Lower.build (IR.Build.arith op (left value) (right value)))
      (do return compute (← evaluation)) := by
  intro state here pending ready within
  rw [ensures_bind]
  refine (values.run (Lower.yields_expression operand ready) (Lower.isStraight_expression _ operand)
    ready within).mono ?_
  rintro x state₁ ⟨tracks₁, has₁, follows₁⟩
  refine (run_arith scene tracks₁.ready op (has has₁).1 (has has₁).2).mono ?_
  rintro y state₂ ⟨tracks₂, -, follows₂⟩ part memory config isHere
  refine (follows₁ (tracks₂.part tracks₁.ready part) isHere).bind ?_
  rintro value memory₁ config₁ ⟨reaches₁, reads₁⟩
  obtain ⟨x, y, readsLeft, readsRight, isResult⟩ := computes reads₁
  have follows := follows₂ part reaches₁.isHere readsLeft readsRight
  rw [isResult] at follows
  refine follows.weaken ?_
  rintro result memory₂ config₂ ⟨reaches₂, reads₂⟩
  exact ⟨reaches₁.trans reaches₂ (tracks₁.registers ready), reads₂⟩

theorem values_negate {operand : Expr} (position : Position)
    (values : scene.Values (Lower.expression .running operand)
      (Evaluation.value scene.invoke scene.scope operand)) :
    scene.Values (Lower.expression .running (.negate operand position))
      (Evaluation.value scene.invoke scene.scope (.negate operand position)) := by
  rw [Lower.expression, Evaluation.value]
  refine values_unary .sub (fun value => -value) values (fun has => ⟨Lower.has_int 0, has⟩) ?_
  intro state here value frame operand reads
  exact ⟨0, value, reads_int 0 frame, reads, by simp [IR.ArithOp.evaluate?]⟩

theorem values_not {operand : Expr} (position : Position)
    (values : scene.Values (Lower.expression .running operand)
      (Evaluation.value scene.invoke scene.scope operand)) :
    scene.Values (Lower.expression .running (.not operand position))
      (Evaluation.value scene.invoke scene.scope (.not operand position)) := by
  rw [Lower.expression, Evaluation.value]
  refine values_unary .xor (fun value => value ^^^ 1) values
    (fun has => ⟨has, Lower.has_bool true⟩) ?_
  intro state here value frame operand reads
  exact ⟨value, truth true, reads, reads_bool true frame, rfl⟩

/-! ### Arguments -/

abbrev AllValues (scene : Scene) : Lower (List Operand) → Eval (List Int32) → Prop :=
  scene.Carries fun state here operands values frame =>
    List.Forall₂ (fun operand value => scene.Reads state here operand (.int value) frame) operands
      values

theorem allValues_nil : scene.AllValues (Lower.expressions [])
    (Evaluation.values scene.invoke scene.scope []) := by
  intro state here pending ready within
  rw [Lower.expressions, Evaluation.values]
  exact ensures_pure.2 fun part memory config isHere => .done ⟨.refl isHere, .nil⟩

theorem allValues_cons {first : Expr} {others : List Expr}
    (values : scene.Values (Lower.expression .running first)
      (Evaluation.value scene.invoke scene.scope first))
    (allValues : scene.AllValues (Lower.expressions others)
      (Evaluation.values scene.invoke scene.scope others)) :
    scene.AllValues (Lower.expressions (first :: others))
      (Evaluation.values scene.invoke scene.scope (first :: others)) := by
  intro state here pending ready within
  rw [Lower.expressions, Evaluation.values, ensures_bind]
  refine (values.run (Lower.yields_expression first ready) (Lower.isStraight_expression _ first)
    ready within).mono ?_
  rintro operand state₁ ⟨tracks₁, -, follows₁⟩
  rw [ensures_bind]
  refine (allValues.run (Lower.yieldsAll_expressions others tracks₁.ready)
    (Lower.isStraight_expressions others) tracks₁.ready (within.straight tracks₁.straight)).mono ?_
  rintro operands state₂ ⟨tracks₂, -, follows₂⟩
  refine ensures_pure.2 fun part memory config isHere => ?_
  refine (follows₁ (tracks₂.part tracks₁.ready part) isHere).bind ?_
  rintro value memory₁ config₁ ⟨reaches₁, reads₁⟩
  refine (follows₂ part reaches₁.isHere).bind ?_
  rintro values memory₂ config₂ ⟨reaches₂, areRead⟩
  refine .done ⟨reaches₁.trans reaches₂ (tracks₁.registers ready), .cons ?_ areRead⟩
  exact reads₁.keeps reaches₂.keeps (tracks₂.registers tracks₁.ready)

/-! ### Built-in callables with places -/

def Assignable (scene : Scene) (target : Expr) : Prop :=
  ∀ name position, target = .ident name position →
    ∀ entry, scene.symbols.get? name = some entry → entry.constant = none

theorem assignable_of_requireReadable (within : scene.Within state) (target : Expr) :
    Ensures (Lower.requireReadable target)
      (fun _ state' => state' = state ∧ scene.Assignable target) state := by
  cases target with
  | ident name position =>
      rw [Lower.requireReadable, ensures_bind]
      refine Lower.ensures_notConstant fun entry isEntry notConstant => ?_
      rw [within.symbols] at isEntry
      split
      · simp
      · refine ensures_pure.2 ⟨rfl, ?_⟩
        rintro _ _ ⟨⟩ other isOther
        obtain rfl := Option.some.inj (isOther.symm.trans isEntry)
        exact notConstant
  | element array index position =>
      rw [Lower.requireReadable, ensures_bind]
      refine Lower.ensures_notConstant fun entry _ _ => ensures_pure.2 ⟨rfl, ?_⟩
      rintro _ _ ⟨⟩
  | _ => simp [Lower.requireReadable]

theorem follows_decrement (fair : scene.Fair) (ready : state.Ready here pending)
    (within : scene.Within state) (name : String) (position : Position) :
    Ensures (Lower.decrement (.ident name position)) (fun _ state' =>
      state'.builder.ir.Part here.function scene.plan.ir → ∀ ⦃memory config⦄,
        scene.Here state here memory config →
          scene.Follows config ((Evaluation.namePlace scene.scope name >>= Evaluation.decrement)
            memory) fun _ memory' last => scene.Reaches state here config state' memory' last)
      state := by
  simp only [Lower.decrement, ensures_bind]
  refine Lower.ensures_notConstant fun entry isEntry notConstant => ?_
  split
  · simp
  · simp only [ensures_bind]
    have places := places_namePointer fair name position fun other isOther => by
      rw [within.symbols] at isEntry
      obtain rfl := Option.some.inj (isOther.symm.trans isEntry)
      exact notConstant
    refine (places.run (Lower.yields_namePointer name position ready)
      (Lower.isStraight_namePointer name position) ready within).mono ?_
    rintro pointer state₁ ⟨tracks₁, has₁, follows₁⟩
    refine (run_load fair tracks₁.ready has₁).mono ?_
    rintro current state₂ ⟨tracks₂, has₂, follows₂⟩
    refine (run_arith scene tracks₂.ready .sub has₂ (Lower.has_int 1)).mono ?_
    rintro next state₃ ⟨tracks₃, has₃, follows₃⟩
    have tracks₂₃ := tracks₂.trans tracks₃
    have hasPointer := has₁.straight tracks₁.ready tracks₂₃.straight
    refine (run_store fair tracks₃.ready has₃ hasPointer).mono ?_
    rintro _ state₄ ⟨tracks₄, follows₄⟩ part memory config isHere
    have part₃ := tracks₄.part tracks₃.ready part
    have part₂ := tracks₃.part tracks₂.ready part₃
    have le₁ := tracks₁.registers ready
    have le₂ := tracks₂.registers tracks₁.ready
    have le₃ := tracks₃.registers tracks₂.ready
    refine (follows₁ (tracks₂.part tracks₁.ready part₂) isHere).bind ?_
    rintro place memory₁ config₁ ⟨reaches₁, leads₁⟩
    refine (follows₂ part₂ reaches₁.isHere leads₁).bind ?_
    rintro value memory₂ config₂ ⟨reaches₂, reads₂⟩
    have computed := follows₃ part₃ reaches₂.isHere reads₂ (reads_int 1 _)
    rw [IR.ArithOp.evaluate?, ← pure_bind (value - 1) (Evaluation.write place)] at *
    refine computed.bind ?_
    rintro result memory₃ config₃ ⟨reaches₃, reads₃⟩
    have leads₃ := leads₁.keeps (reaches₂.keeps.trans reaches₃.keeps le₂) (Nat.le_trans le₂ le₃)
    refine (follows₄ part reaches₃.isHere reads₃ leads₃).weaken ?_
    intro _ memory₄ config₄ reaches₄
    have reaches₁₂ := reaches₁.trans reaches₂ le₁
    have reaches₁₃ := reaches₁₂.trans reaches₃ (Nat.le_trans le₁ le₂)
    exact reaches₁₃.trans reaches₄ (Nat.le_trans (Nat.le_trans le₁ le₂) le₃)

/-! ### Calls -/

abbrev evaluateCall (scene : Scene) (name : String) (arguments : List Expr) : Eval (Option Int32) :=
  Evaluation.call scene.invoke scene.scope name arguments
    (Evaluation.values scene.invoke scene.scope arguments)
    (Evaluation.firstPlace scene.invoke scene.scope arguments)

/-- The code of a call does what the call is evaluated to. -/
def Calls (scene : Scene) (state : Lowering) (here : BlockId) (evaluation : Eval (Option Int32))
    (result : CallResult) (state' : Lowering) : Prop :=
  state'.builder.ir.Part here.function scene.plan.ir → ∀ ⦃memory config⦄,
    scene.Here state here memory config →
      scene.Follows config (evaluation memory) fun value? memory' last =>
        scene.Reaches state here config state' memory' last ∧
          scene.Results state' here last.frame result value?

theorem calls_function (fair : scene.Fair) (ready : state.Ready here pending)
    (within : scene.Within state) {name : String} {arguments : List Expr} {heading : Heading}
    {body : List Statement} {entry : Entry} {id : IR.FunctionId} {returnsValue : Bool}
    (isEntry : scene.symbols.get? name = some entry)
    (isShape : entry.shape = .callable arguments.length returnsValue)
    (isMeaning : scene.scope.find? name = some (.callable heading body))
    (sameShape : entry.shape = heading.shape) (isStorage : entry.storage = .function id)
    (isCode : scene.plan.code id heading body)
    (values : scene.AllValues (Lower.expressions arguments)
      (Evaluation.values scene.invoke scene.scope arguments)) :
    Ensures (do Lower.emitCall id (← Lower.expressions arguments))
      (scene.Calls state here (scene.evaluateCall name arguments)) state := by
  rw [isShape, Heading.shape, Shape.callable.injEq] at sameShape
  rw [ensures_bind]
  refine (values.run (Lower.yieldsAll_expressions arguments ready)
    (Lower.isStraight_expressions arguments) ready within).mono ?_
  rintro operands state₁ ⟨tracks₁, ⟨count, -⟩, follows₁⟩
  have isEntry₁ : state₁.symbols.get? name = some entry := by
    rw [tracks₁.straight.symbols, within.symbols, isEntry]
  have sound := tracks₁.ready.sound.get? isEntry₁
  simp only [Entry.Sound, isStorage] at sound
  obtain ⟨called, isCalled, -, isSignature⟩ := sound
  rw [isShape, Shape.callable.injEq] at isSignature
  refine ((follows_emitCall fair tracks₁.ready isCalled
    (isSignature.2.symm.trans sameShape.2) isCode operands).and
    (Lower.isStraight_emitCall id operands state₁)).mono ?_
  rintro result state₂ ⟨follows₂, straight₂⟩ part memory config isHere
  have isCall : scene.evaluateCall name arguments =
      (Evaluation.values scene.invoke scene.scope arguments >>= scene.invoke heading body) := by
    simp only [evaluateCall, Evaluation.call, isMeaning, sameShape.1, if_true]
  rw [isCall]
  refine (follows₁ (straight₂.part tracks₁.ready.insertPoint part) isHere).bind ?_
  rintro values memory₁ config₁ ⟨reaches₁, areRead⟩
  have isCount : values.length = heading.parameterCount := by
    rw [← areRead.length_eq, count, sameShape.1]
  refine (follows₂ part isCount reaches₁.isHere areRead).weaken ?_
  rintro value? memory₂ config₂ ⟨reaches₂, results⟩
  exact ⟨reaches₁.trans reaches₂ (tracks₁.registers ready), results⟩

theorem calls_writeln (fair : scene.Fair) (ready : state.Ready here pending)
    (within : scene.Within state) {name : String} {argument : Expr}
    (isMeaning : scene.scope.find? name = some (.builtin .writeln))
    (values : scene.AllValues (Lower.expressions [argument])
      (Evaluation.values scene.invoke scene.scope [argument])) :
    Ensures (do
      let values ← Lower.expressions [argument]
      let support := (← get).support
      Lower.emitCall support.printf (support.writelnFormat :: values))
      (scene.Calls state here (scene.evaluateCall name [argument])) state := by
  rw [ensures_bind]
  refine (values.run (Lower.yieldsAll_expressions [argument] ready)
    (Lower.isStraight_expressions [argument]) ready within).mono ?_
  rintro operands state₁ ⟨tracks₁, ⟨count, -⟩, follows₁⟩
  obtain ⟨operand, rfl⟩ := List.length_eq_one_iff.1 count
  rw [ensures_bind, ensures_get]
  refine ((follows_writeln fair tracks₁.ready (within.straight tracks₁.straight).support operand).and
    (Lower.isStraight_emitCall _ _ state₁)).mono ?_
  rintro result state₂ ⟨follows₂, straight₂⟩ part memory config isHere
  simp only [evaluateCall, Evaluation.call, isMeaning]
  refine (follows₁ (straight₂.part tracks₁.ready.insertPoint part) isHere).bind ?_
  rintro values memory₁ config₁ ⟨reaches₁, areRead⟩
  cases areRead with
  | cons reads areRead =>
      cases areRead
      refine ((follows₂ part reaches₁.isHere reads).bind ?_)
      rintro value memory₂ config₂ ⟨reaches₂, results⟩
      exact .done ⟨reaches₁.trans reaches₂ (tracks₁.registers ready), results⟩

variable (scene) in
theorem run_addText (ready : state.Ready here pending) (text : String) :
    Ensures (Lower.build (IR.Build.addText text)) (fun operand state' =>
      Tracks state here pending state' ∧
      (state'.builder.ir.Part here.function scene.plan.ir → scene.plan.ir.IsText operand text) ∧
      ∀ ⦃memory config⦄, scene.Here state here memory config →
        scene.Reaches state here config state' memory config) state := by
  refine ((ready.addGlobal textGlobalName (.bytes text) true .internal).and
    (Lower.isStraight_build (IR.Build.isStraight_addGlobal _ _ _ _) state)).and ?_ |>.mono
      (fun operand state' known => ⟨⟨known.1.1.1, known.1.2⟩, known.2⟩)
  rw [Lower.ensures_build]
  constructor
  · intro part
    have isGlobal : (IR.Build.addText text state.builder).2.ir.globals[
        state.builder.ir.globals.size]? = some
          ⟨IR.uniqueName (state.builder.ir.globals.toList.map (·.name)) textGlobalName, .bytes text,
            true, .internal⟩ := by
      change (state.builder.ir.globals.push _)[state.builder.ir.globals.size]? = _
      rw [Array.getElem?_push, if_pos rfl]
    exact ⟨_, _, rfl, IR.Module.getElem?_of_part part isGlobal, rfl, rfl⟩
  · intro memory config isHere
    exact ⟨⟨⟨isHere.isAt.block, isHere.isAt.next⟩, isHere.owns, isHere.room, isHere.holds⟩,
      .refl _ _⟩

theorem calls_write (fair : scene.Fair) (ready : state.Ready here pending)
    (within : scene.Within state) {name text : String} {position : Position}
    (isMeaning : scene.scope.find? name = some (.builtin .write)) :
    Ensures (do
      let values ← Lower.expressions [.literal text position]
      let support := (← get).support
      let _ ← Lower.emitCall support.printf (support.writeFormat :: values)
      return CallResult.nothing)
      (scene.Calls state here (scene.evaluateCall name [.literal text position])) state := by
  simp only [Lower.expressions, Lower.expression, Lower.requireRunning, pure_bind, bind_assoc]
  rw [ensures_bind]
  intro operand state₁ added
  obtain ⟨tracks₁, isText, unmoved⟩ := run_addText scene ready text operand state₁ added
  rw [ensures_bind, ensures_get, ensures_bind]
  have isText : ∀ state₂ result, Lower.emitCall state₁.support.printf
      [state₁.support.writeFormat, operand] state₁ = .ok result state₂ →
      state₂.builder.ir.Part here.function scene.plan.ir → scene.plan.ir.IsText operand text :=
    fun state₂ result ok part =>
      isText ((Lower.isStraight_emitCall _ _ state₁ result state₂ ok).part
        tracks₁.ready.insertPoint part)
  intro result state₂ ok
  refine ensures_pure.2 fun part memory config isHere => ?_
  have follows₂ := follows_write fair tracks₁.ready (within.straight tracks₁.straight).support
    (isText state₂ result ok part) result state₂ ok
  simp only [evaluateCall, Evaluation.call, isMeaning]
  refine (follows₂ part (unmoved isHere).isHere).bind ?_
  rintro value memory₂ config₂ ⟨reaches₂, -⟩
  exact .done ⟨(unmoved isHere).trans reaches₂ (tracks₁.registers ready), trivial⟩

theorem forM_singleton {α : Type} (action : α → Lower Unit) (item : α) :
    [item].forM action = action item := by
  change (action item >>= fun _ => pure ()) = action item
  simp

theorem calls_readln (fair : scene.Fair) (ready : state.Ready here pending)
    (within : scene.Within state) {name : String} {argument : Expr}
    (isMeaning : scene.scope.find? name = some (.builtin .readln))
    (places : scene.Assignable argument → scene.Places (Lower.pointer argument)
      (Evaluation.place scene.invoke scene.scope argument)) :
    Ensures (do
      [argument].forM Lower.requireReadable
      let pointer ← Lower.firstPointer [argument]
      let support := (← get).support
      Lower.emitCall support.scanf [support.readlnFormat, pointer])
      (scene.Calls state here (scene.evaluateCall name [argument])) state := by
  simp only [forM_singleton, Lower.firstPointer]
  rw [ensures_bind]
  refine (assignable_of_requireReadable within argument).mono ?_
  rintro _ _ ⟨rfl, assignable⟩
  rw [ensures_bind]
  refine ((places assignable).run (Lower.yields_pointer argument ready)
    (Lower.isStraight_pointer argument) ready within).mono ?_
  rintro pointer state₁ ⟨tracks₁, -, follows₁⟩
  rw [ensures_bind, ensures_get]
  refine ((follows_readln fair tracks₁.ready (within.straight tracks₁.straight).support pointer).and
    (Lower.isStraight_emitCall _ _ state₁)).mono ?_
  rintro result state₂ ⟨follows₂, straight₂⟩ part memory config isHere
  simp only [evaluateCall, Evaluation.call, isMeaning, Evaluation.firstPlace]
  refine (follows₁ (straight₂.part tracks₁.ready.insertPoint part) isHere).bind ?_
  rintro place memory₁ config₁ ⟨reaches₁, leads₁⟩
  refine (follows₂ part reaches₁.isHere leads₁).bind ?_
  rintro value memory₂ config₂ ⟨reaches₂, results⟩
  exact .done ⟨reaches₁.trans reaches₂ (tracks₁.registers ready), results⟩

theorem calls_dec (fair : scene.Fair) (ready : state.Ready here pending)
    (within : scene.Within state) {name : String} {argument : Expr}
    (isMeaning : scene.scope.find? name = some (.builtin .dec)) :
    Ensures (do
      [argument].forM Lower.decrement
      return CallResult.nothing)
      (scene.Calls state here (scene.evaluateCall name [argument])) state := by
  rw [forM_singleton]
  rw [ensures_bind]
  cases argument with
  | ident target position =>
      refine (follows_decrement fair ready within target position).mono ?_
      intro _ state₁ follows₁
      refine ensures_pure.2 fun part memory config isHere => ?_
      simp only [evaluateCall, Evaluation.call, isMeaning, Evaluation.firstPlace, Evaluation.place]
      rw [← bind_assoc]
      refine (follows₁ part isHere).bind fun _ memory₁ config₁ reaches₁ => ?_
      exact .done ⟨reaches₁, trivial⟩
  | _ => simp [Lower.decrement]

theorem calls_call (fair : scene.Fair) (ready : state.Ready here pending)
    (within : scene.Within state) (name : String) (arguments : List Expr) (position : Position)
    (used : Bool) (shape : arguments ≠ [] → ArgumentShape name arguments)
    (values : Builtin.ofName? name ≠ some .write →
      scene.AllValues (Lower.expressions arguments)
        (Evaluation.values scene.invoke scene.scope arguments))
    (places : Builtin.ofName? name ≠ some .write → ∀ argument, arguments = [argument] →
      scene.Assignable argument → scene.Places (Lower.pointer argument)
        (Evaluation.place scene.invoke scene.scope argument)) :
    Ensures (Lower.call name arguments position used (Lower.expressions arguments)
      (Lower.firstPointer arguments)) (fun result state' => result ≠ .exited →
        scene.Calls state here (scene.evaluateCall name arguments) result state') state := by
  unfold Lower.call
  rw [ensures_bind]
  refine (Lower.ensures_callee name arguments.length position used state).mono ?_
  rintro storage _ ⟨rfl, callable⟩
  obtain ⟨entry, returnsValue, isEntry, isShape, rfl, -⟩ := callable.entry
  rw [within.symbols] at isEntry
  obtain ⟨meaning, isMeaning, means⟩ := fair.names name entry isEntry
  rcases means.of_callable isShape with ⟨heading, body, rfl⟩ | ⟨builtin, rfl⟩
  · obtain ⟨-, sameShape, -, notBuiltin, id, isStorage, isCode⟩ := means
    rw [isStorage]
    refine (calls_function fair ready within isEntry isShape isMeaning sameShape isStorage isCode
      (values (by simp [notBuiltin]))).mono fun result state' calls _ => calls
  · obtain ⟨rfl, sameShape, -, isStorage⟩ := means
    rw [isShape, Shape.callable.injEq] at sameShape
    rw [isStorage]
    cases builtin with
    | writeln =>
        obtain ⟨argument, rfl⟩ := List.length_eq_one_iff.1 sameShape.1
        exact (calls_writeln fair ready within isMeaning (values (by decide))).mono
          fun result state' calls _ => calls
    | readln =>
        obtain ⟨argument, rfl⟩ := List.length_eq_one_iff.1 sameShape.1
        exact (calls_readln fair ready within isMeaning (places (by decide) argument rfl)).mono
          fun result state' calls _ => calls
    | write =>
        obtain ⟨text, position, rfl, -⟩ := shape (List.ne_nil_of_length_eq_add_one sameShape.1)
        exact (calls_write fair ready within isMeaning).mono fun result state' calls _ => calls
    | dec =>
        obtain ⟨argument, rfl⟩ := List.length_eq_one_iff.1 sameShape.1
        exact (calls_dec fair ready within isMeaning).mono fun result state' calls _ => calls
    | exit =>
        simp only [ensures_bind, ensures_pure]
        exact fun _ _ _ notExited => absurd rfl notExited

/-! ### Expressions -/

theorem values_call (fair : scene.Fair) (name : String) (arguments : List Expr)
    (position : Position) (shape : ArgumentShape name arguments)
    (values : Builtin.ofName? name ≠ some .write →
      scene.AllValues (Lower.expressions arguments)
        (Evaluation.values scene.invoke scene.scope arguments))
    (places : Builtin.ofName? name ≠ some .write → ∀ argument, arguments = [argument] →
      scene.Assignable argument → scene.Places (Lower.pointer argument)
        (Evaluation.place scene.invoke scene.scope argument)) :
    scene.Values (Lower.expression .running (.call name arguments position))
      (Evaluation.value scene.invoke scene.scope (.call name arguments position)) := by
  intro state here pending ready within
  simp only [Lower.expression, Lower.requireRunning, pure_bind, ensures_bind, Evaluation.value]
  refine (calls_call fair ready within name arguments position true (fun _ => shape) values places).mono ?_
  intro result state₁ calls
  refine Lower.ensures_asValue ?_
  rintro operand rfl part memory config isHere
  refine (calls (by simp) part isHere).bind ?_
  rintro value? memory₁ config₁ ⟨reaches₁, results⟩
  cases value? with
  | none => exact results.elim
  | some value => exact .done ⟨reaches₁, results⟩

mutual

theorem values_expression (fair : scene.Fair) {grammar : Grammar} (expr : Expr)
    (fits : expr.Fits grammar) :
    scene.Values (Lower.expression .running expr)
      (Evaluation.value scene.invoke scene.scope expr) := by
  cases expr with
  | ident name position =>
      simp only [Lower.expression, Evaluation.value]
      exact values_nameValue fair name position
  | number value position =>
      intro state here pending ready within
      simp only [Lower.expression, Evaluation.value]
      exact ensures_pure.2 fun part memory config isHere =>
        .done ⟨.refl isHere, reads_int value config.frame⟩
  | literal text position => exact fits.elim
  | binary op left right position =>
      obtain ⟨-, leftFits, rightFits⟩ := by simpa [Expr.Fits] using fits
      exact values_binary position (values_expression fair left leftFits)
        (values_expression fair right rightFits)
  | negate operand position =>
      rw [Expr.Fits] at fits
      exact values_negate position (values_expression fair operand fits)
  | not operand position =>
      obtain ⟨-, operandFits⟩ := by simpa [Expr.Fits] using fits
      exact values_not position (values_expression fair operand operandFits)
  | element array index position =>
      obtain ⟨-, indexFits⟩ := by simpa [Expr.Fits] using fits
      simp only [Lower.expression, Lower.requireRunning, pure_bind, Evaluation.value]
      exact values_load fair
        (places_elementPointer fair array position (values_expression fair index indexFits)
          (Lower.yields_expression index) (Lower.isStraight_expression _ index))
        (Lower.yields_elementPointer array position (Lower.yields_expression index)
          (Lower.isStraight_expression _ index))
        (Lower.composed_elementPointer array position
          (Lower.composed_expression _ index)).isStraight
  | call name arguments position =>
      obtain ⟨-, shape, areFit⟩ := by simpa only [Expr.Fits] using fits
      refine values_call fair name arguments position shape
        (fun notWrite => allValues_expressions fair arguments (areFit notWrite)) ?_
      rintro notWrite argument rfl assignable
      obtain ⟨argumentFits, -⟩ := by simpa only [Expr.AllFit] using areFit notWrite
      exact places_pointer fair argument argumentFits assignable

theorem allValues_expressions (fair : scene.Fair) (exprs : List Expr) (fit : Expr.AllFit exprs) :
    scene.AllValues (Lower.expressions exprs)
      (Evaluation.values scene.invoke scene.scope exprs) := by
  cases exprs with
  | nil => exact allValues_nil
  | cons first others =>
      obtain ⟨firstFits, othersFit⟩ := by simpa only [Expr.AllFit] using fit
      exact allValues_cons (values_expression fair first firstFits)
        (allValues_expressions fair others othersFit)

theorem places_pointer (fair : scene.Fair) {grammar : Grammar} (expr : Expr)
    (fits : expr.Fits grammar) (assignable : scene.Assignable expr) :
    scene.Places (Lower.pointer expr) (Evaluation.place scene.invoke scene.scope expr) := by
  cases expr with
  | ident name position =>
      simp only [Lower.pointer, Evaluation.place]
      exact places_namePointer fair name position (assignable name position rfl)
  | element array index position =>
      obtain ⟨-, indexFits⟩ := by simpa [Expr.Fits] using fits
      simp only [Lower.pointer, Evaluation.place]
      exact places_elementPointer fair array position (values_expression fair index indexFits)
        (Lower.yields_expression index) (Lower.isStraight_expression _ index)
  | _ =>
      intro state here pending ready within
      simp [Lower.pointer]

end

end Scene

end MiniPascal
