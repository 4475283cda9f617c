import MiniPascal.Proofs.Simulation.Steps

/-!
# Calls

A call runs the body that the name stands for, and the built-in callables read and print.
-/

namespace MiniPascal

open Evaluation (Eval Memory Place Stop)
open IR (BlockId Operand Instruction)
open Lowering (Ready)
open Machine (Config Frame Halt Limits State Word Pointer Cells)

theorem Evaluation.readTo_eq (place : Place) (memory : Memory) :
    Evaluation.readTo place memory =
      match memory.input with
      | [] => .ok (-1) memory
      | value :: rest =>
          match Evaluation.write place value { memory with input := rest } with
          | .ok _ memory => .ok 1 memory
          | .error stop memory => .error stop memory := by
  rw [Evaluation.readTo, get_bind]
  cases isInput : memory.input with
  | nil => rfl
  | cons value rest =>
      change (Evaluation.write place value >>= fun _ => pure 1) { memory with input := rest } = _
      cases written : Evaluation.write place value { memory with input := rest } with
      | ok _ memory' =>
          simp only [written]
          exact bind_of_ok _ written
      | error stop memory' =>
          simp only [written]
          exact bind_of_error _ written

namespace Scene

variable {scene : Scene} {state state' : Lowering} {here : BlockId} {pending : List Nat}
  {memory memory' : Memory} {config last : Config}

def Results (scene : Scene) (state : Lowering) (here : BlockId) (frame : Frame) :
    CallResult → Option Int32 → Prop
  | .value operand, some value => scene.Reads state here operand (.int value) frame
  | .nothing, none => True
  | _, _ => False

theorem emits_call (ready : state.Ready here pending) {callee : IR.FunctionId}
    {called : IR.Function} (isCalled : state.builder.ir.functions[callee]? = some called)
    (operands : List Operand) :
    Ensures (Lower.emitCall callee operands) (fun result state' =>
      if called.returnsValue then
        result = .value (.register (state.builder.ir.registers here.function)) ∧
          state.Emits here (.call (some (state.builder.ir.registers here.function)) callee operands) 1
            state'
      else result = .nothing ∧ state.Emits here (.call none callee operands) 0 state') state := by
  unfold Lower.emitCall
  rw [ensures_bind, Lower.ensures_build, IR.Build.call_eq isCalled]
  cases returns : called.returnsValue with
  | true =>
      have emitted := ready.emitsValue (fun result => .call (some result) callee operands)
      rw [Lower.ensures_build] at emitted
      simpa using emitted
  | false =>
      have emitted := ready.emits (.call none callee operands)
      rw [Lower.ensures_build] at emitted
      simpa using emitted

/-! ### Bodies -/

theorem toList_shrink {stack : Array Int32} {below : List Int32}
    (isPrefix : below <+: stack.toList) : (stack.shrink below.length).toList = below := by
  obtain ⟨others, isStack⟩ := isPrefix
  simp [← isStack]

theorem map_slot_eq {slots : List Place} (locals : memory'.locals = memory.locals)
    (result : memory'.result = memory.result) :
    slots.map memory'.slot = slots.map memory.slot := by
  refine List.map_congr_left fun place _ => ?_
  cases place <;> simp [Memory.slot, locals, result]

theorem runs_return {activation : Activation} {caller : Frame} {callers : List Frame}
    {value? : Option Int32} (returns : scene.plan.Returns activation value? memory' last)
    (isCaller : activation.callers = caller :: callers)
    (agrees : activation.result.isSome = value?.isSome)
    (inside : ∀ register, activation.result = some register → register < caller.registers.size) :
    ∃ after, last.Runs scene.plan.ir scene.limits 1
        ⟨caller.take activation.result (value?.map .int), after⟩ ∧
      scene.plan.Globals memory' after.globals ∧ after.stack.toList = activation.below ∧
      after.callers = callers ∧ after.console = memory'.console := by
  obtain ⟨operand?, isRet, isValue⟩ := returns.fetched
  have isReturn : Machine.Run.execute scene.plan.ir scene.limits last.frame (.ret operand?)
      last.state.counted =
        Machine.Run.returnFrom scene.plan.ir last.frame (value?.map .int) last.state.counted := by
    cases isValue with
    | none => exact Machine.Run.execute_ret scene.limits last.state.counted trivial
    | some isWord => exact Machine.Run.execute_ret scene.limits last.state.counted isWord
  have hasValue : last.frame.result.isSome → (value?.map Word.int).isSome := by
    rw [returns.result, agrees, Option.isSome_map]
    exact fun isSome => isSome
  have back := isReturn.trans
    (Machine.Run.returnFrom_caller last.state.counted (returns.callers.trans isCaller) hasValue
      (returns.result ▸ inside))
  rw [returns.result, returns.base] at back
  exact ⟨_, .one isRet back, returns.globals, toList_shrink returns.stack, rfl,
    returns.console⟩

variable (scene) in
theorem exists_destination (ready : state.Ready here pending) {id : IR.FunctionId}
    {called : IR.Function} (isCalled : state.builder.ir.functions[id]? = some called)
    (operands : List Operand) :
    Ensures (Lower.emitCall id operands) (fun result state' =>
      ∃ destination count, state.Emits here (.call destination id operands) count state' ∧
        destination.isSome = called.returnsValue ∧
        (state'.builder.ir.Part here.function scene.plan.ir → ∀ ⦃memory config⦄,
          scene.Here state here memory config →
            (∀ register, destination = some register → register < config.frame.registers.size) ∧
            ∀ value? memory' after, destination.isSome = value?.isSome →
              scene.plan.Holds scene.activation scene.slots memory' after →
                scene.Reaches state here config state' memory'
                    ⟨config.frame.advance.take destination (value?.map .int), after⟩ ∧
                  scene.Results state' here
                    (config.frame.advance.take destination (value?.map .int)) result value?)) state := by
  refine (emits_call ready isCalled operands).mono ?_
  intro result state' emitted
  cases returns : called.returnsValue with
  | true =>
      simp only [returns, if_true] at emitted
      obtain ⟨rfl, emits⟩ := emitted
      refine ⟨_, 1, emits, rfl, fun part memory config isHere => ⟨?_, ?_⟩⟩
      · rintro _ ⟨⟩
        exact room emits part isHere
      intro value? memory' after isSome holds
      cases value? with
      | none => cases isSome
      | some value => exact reaches_defined emits part isHere (.int value) holds
  | false =>
      simp only [returns, Bool.false_eq_true, if_false] at emitted
      obtain ⟨rfl, emits⟩ := emitted
      refine ⟨_, 0, emits, rfl, fun _ memory config isHere => ⟨nofun, ?_⟩⟩
      intro value? memory' after isNone holds
      cases value? with
      | none => exact ⟨reaches_advanced emits isHere holds, trivial⟩
      | some value => cases isNone

theorem follows_emitCall (fair : scene.Fair) (ready : state.Ready here pending)
    {id : IR.FunctionId} {called : IR.Function} {heading : Heading} {body : List Statement}
    (isCalled : state.builder.ir.functions[id]? = some called)
    (sameReturn : called.returnsValue = heading.returns.isSome)
    (isCode : scene.plan.code id heading body) (operands : List Operand) :
    Ensures (Lower.emitCall id operands) (fun result state' =>
      state'.builder.ir.Part here.function scene.plan.ir → ∀ ⦃memory config values⦄,
        values.length = heading.parameterCount → scene.Here state here memory config →
          List.Forall₂ (fun operand value =>
            scene.Reads state here operand (.int value) config.frame) operands values →
              scene.Follows config (scene.invoke heading body values memory)
                fun value? memory' last => scene.Reaches state here config state' memory' last ∧
                  scene.Results state' here last.frame result value?) state := by
  refine (exists_destination scene ready isCalled operands).mono ?_
  rintro result state' ⟨destination, emitCount, emits, isDestination, behind⟩ part memory config values
    count isHere areRead
  rw [sameReturn] at isDestination
  obtain ⟨inside, behind⟩ := behind part isHere
  obtain ⟨function, isFunction, hasBody⟩ := fair.bodies id heading body isCode
  have areWords : List.Forall₂ (fun operand word =>
      config.frame.word scene.plan.ir operand = .ok word) operands (values.map .int) :=
    List.forall₂_map_right_iff.2 (areRead.imp fun _ _ reads => reads.word)
  have fetched := emits.fetch part isHere.isAt
  have executed := Machine.Run.execute_call scene.limits config.state.counted destination isFunction
    hasBody areWords
  by_cases isDeep : scene.limits.depth ≤ config.frame.depth
  · rw [if_pos isDeep] at executed
    have depth := isHere.owns.depth
    exact ⟨0, config, .refl config, .inl ⟨_, ⟨_, fetched, executed⟩, by omega⟩⟩
  · rw [if_neg isDeep] at executed
    have holds := isHere.holds
    have begins : scene.plan.Begins
        ⟨config.state.stack.toList, config.frame.advance :: config.state.callers,
          config.frame.depth + 1, destination⟩ id values memory
        ⟨Machine.Run.entryFrame function id (values.map .int) config.state.counted.stack.size
          (config.frame.depth + 1) destination,
          { config.state.counted with
            callers := config.frame.advance :: config.state.counted.callers }⟩ :=
      ⟨⟨function, isFunction, rfl⟩, holds.globals, by simp [State.counted], rfl, holds.console⟩
    refine (((fair.calls isCode count begins).extend ?_).after (.one fetched executed)).mono
      (Nat.le_refl _) ?_ fun _ _ _ good => good
    · rintro value? memory' last ⟨returns, isSome, locals, result⟩
      obtain ⟨after, runs, globals, stack, callers, console⟩ :=
        runs_return returns rfl (isDestination.trans isSome.symm) inside
      refine ⟨1, _, runs, behind value? memory' after (isDestination.trans isSome.symm) ?_⟩
      refine ⟨globals, ?_, callers.trans holds.callers, console⟩
      rw [stack, holds.stack, map_slot_eq locals result]
    · have depth := isHere.owns.depth
      intro isLess
      simp only at isLess
      omega

/-! ### Built-in callables -/

/-- A function that is defined elsewhere does what the evaluation does. -/
def Mirrors (scene : Scene) : EStateM.Result Halt State Word →
    EStateM.Result Stop Memory Int32 → Prop
  | .ok word after, .ok value memory =>
      word = .int value ∧ scene.plan.Holds scene.activation scene.slots memory after
  | .error (.failed error) after, .error stop memory =>
      stop.Matches error ∧ after.console = memory.console
  | _, _ => False

theorem follows_external (ready : state.Ready here pending) {callee : IR.FunctionId} {name : String}
    (takes : state.builder.ir.TakesFormat callee) (isExternal : scene.plan.ir.IsExternal callee name)
    (operands : List Operand) :
    Ensures (Lower.emitCall callee operands) (fun result state' =>
      state'.builder.ir.Part here.function scene.plan.ir →
        ∀ ⦃memory config words⦄ ⦃evaluation : Eval Int32⦄,
          scene.Here state here memory config →
            List.Forall₂ (fun operand word => config.frame.word scene.plan.ir operand = .ok word)
              operands words →
              scene.Mirrors (Machine.Run.callExternal scene.plan.ir callee words
                config.state.counted) (evaluation memory) →
                scene.Follows config (evaluation memory) fun value memory' last =>
                  scene.Reaches state here config state' memory' last ∧
                    scene.Results state' here last.frame result (some value)) state := by
  obtain ⟨called, isCalled, -, -, returnsValue⟩ := takes
  obtain ⟨function, isFunction, -, noBody⟩ := isExternal
  refine (emits_call ready isCalled operands).mono ?_
  intro result state' emitted part memory config words evaluation isHere areWords mirrors
  simp only [returnsValue, if_true] at emitted
  obtain ⟨rfl, emits⟩ := emitted
  have inside register (isResult : some (state.builder.ir.registers here.function) = some register) :
      register < config.frame.registers.size := Option.some.inj isResult ▸ room emits part isHere
  have executed := Machine.Run.execute_callExternal scene.limits config.state.counted inside
    isFunction noBody areWords
  cases called : Machine.Run.callExternal scene.plan.ir callee words config.state.counted with
  | ok word after =>
      rw [called] at mirrors executed
      cases evaluated : evaluation memory with
      | error stop memory' =>
          rw [evaluated] at mirrors
          exact mirrors.elim
      | ok value memory' =>
          rw [evaluated] at mirrors
          obtain ⟨rfl, holds⟩ := mirrors
          obtain ⟨last, runs, reaches, reads⟩ := reaches_define emits part isHere executed holds
          exact .steps runs (.done ⟨reaches, reads⟩)
  | error halt after =>
      rw [called] at mirrors executed
      cases halt with
      | panic =>
          cases evaluated : evaluation memory <;> rw [evaluated] at mirrors <;> exact mirrors.elim
      | failed error =>
      cases evaluated : evaluation memory with
      | ok value memory' =>
          rw [evaluated] at mirrors
          exact mirrors.elim
      | error stop memory' =>
          rw [evaluated] at mirrors
          exact .throws ⟨_, emits.fetch part isHere.isAt, executed⟩ mirrors.1 mirrors.2

theorem text_of_isText {activation : Activation} {slots : List Place} {machine : State}
    {operand : Operand} {text : String} (isText : scene.plan.ir.IsText operand text)
    (holds : scene.plan.Holds activation slots memory machine) :
    ∃ id, operand = .global id ∧
      machine.globals[id]? = some (Cells.ofContent (.bytes text)) := by
  obtain ⟨id, global, rfl, isGlobal, content, isConstant⟩ := isText
  obtain ⟨cells, isCells, -, fixed, -⟩ := holds.globals id global isGlobal
  rw [fixed isConstant, content] at isCells
  exact ⟨id, rfl, isCells⟩

theorem functionName_of_isExternal {ir : IR.Module} {id : IR.FunctionId} {name : String}
    (isExternal : ir.IsExternal id name) : ir.functionName id = name := by
  obtain ⟨function, isFunction, isName, -⟩ := isExternal
  simp [IR.Module.functionName, isFunction, isName]

theorem holds_print {activation : Activation} {slots : List Place} {plan : Plan} {machine : State}
    (holds : plan.Holds activation slots memory machine) (text : String) :
    plan.Holds activation slots { memory with output := memory.output ++ text }
      { machine with console := machine.console.print text } :=
  ⟨holds.globals, holds.stack, holds.callers, by rw [holds.console]; rfl⟩

theorem follows_writeln (fair : scene.Fair) (ready : state.Ready here pending)
    (same : state.support = scene.support) (operand : Operand) :
    Ensures (Lower.emitCall state.support.printf [state.support.writelnFormat, operand])
      (fun result state' =>
        state'.builder.ir.Part here.function scene.plan.ir → ∀ ⦃memory config value⦄,
          scene.Here state here memory config →
            scene.Reads state here operand (.int value) config.frame →
              scene.Follows config (Evaluation.print (toString value ++ "\n") memory)
                fun value memory' last => scene.Reaches state here config state' memory' last ∧
                  scene.Results state' here last.frame result (some value)) state := by
  have support := fair.support
  rw [← same] at support
  refine (follows_external ready ready.sound.support.printf support.printf _).mono ?_
  intro result state' follows part memory config value isHere reads
  obtain ⟨id, isFormat, isGlobal⟩ := text_of_isText support.writelnFormat isHere.holds.counted
  refine follows part isHere (.cons (by rw [isFormat]; rfl) (.cons reads.word .nil)) ?_
  rw [Machine.Run.callExternal_writeln (functionName_of_isExternal support.printf) isGlobal value]
  exact ⟨rfl, holds_print isHere.holds.counted _⟩

theorem follows_write (fair : scene.Fair) (ready : state.Ready here pending)
    (same : state.support = scene.support) {operand : Operand} {text : String}
    (isText : scene.plan.ir.IsText operand text) :
    Ensures (Lower.emitCall state.support.printf [state.support.writeFormat, operand])
      (fun result state' =>
        state'.builder.ir.Part here.function scene.plan.ir → ∀ ⦃memory config⦄,
          scene.Here state here memory config →
            scene.Follows config (Evaluation.print (Evaluation.printed text) memory)
              fun value memory' last => scene.Reaches state here config state' memory' last ∧
                scene.Results state' here last.frame result (some value)) state := by
  have support := fair.support
  rw [← same] at support
  refine (follows_external ready ready.sound.support.printf support.printf _).mono ?_
  intro result state' follows part memory config isHere
  obtain ⟨id, isFormat, isGlobal⟩ := text_of_isText support.writeFormat isHere.holds.counted
  obtain ⟨other, rfl, isOther⟩ := text_of_isText isText isHere.holds.counted
  refine follows part isHere (.cons (by rw [isFormat]; rfl) (.cons rfl .nil)) ?_
  rw [Machine.Run.callExternal_write (functionName_of_isExternal support.printf) isGlobal isOther]
  exact ⟨rfl, holds_print isHere.holds.counted _⟩

theorem follows_readln (fair : scene.Fair) (ready : state.Ready here pending)
    (same : state.support = scene.support) (operand : Operand) :
    Ensures (Lower.emitCall state.support.scanf [state.support.readlnFormat, operand])
      (fun result state' =>
        state'.builder.ir.Part here.function scene.plan.ir → ∀ ⦃memory config place⦄,
          scene.Here state here memory config →
            scene.Leads state here operand place config.frame →
              scene.Follows config (Evaluation.readTo place memory)
                fun value memory' last => scene.Reaches state here config state' memory' last ∧
                  scene.Results state' here last.frame result (some value)) state := by
  have support := fair.support
  rw [← same] at support
  refine (follows_external ready ready.sound.support.scanf support.scanf _).mono ?_
  intro result state' follows part memory config place isHere leads
  obtain ⟨pointer, reads, points⟩ := leads
  obtain ⟨id, isFormat, isGlobal⟩ := text_of_isText support.readlnFormat isHere.holds.counted
  refine follows part isHere (.cons (by rw [isFormat]; rfl) (.cons reads.word .nil)) ?_
  rw [Machine.Run.callExternal_readln (functionName_of_isExternal support.scanf) isGlobal pointer]
  have holds := isHere.holds.counted
  have sameInput : config.state.counted.console.read = memory.console.read := by
    rw [holds.console]
  rw [sameInput, Evaluation.readTo_eq]
  cases isInput : memory.input with
  | nil =>
      simp only [Console.read, Memory.console, isInput]
      exact ⟨rfl, holds.globals, holds.stack, holds.callers, by rw [Memory.console, isInput]⟩
  | cons value rest =>
      have taken : scene.plan.Holds scene.activation scene.slots { memory with input := rest }
          { config.state.counted with console := ⟨memory.output, rest⟩ } :=
        ⟨holds.globals, holds.stack, holds.callers, rfl⟩
      simp only [Console.read, Memory.console, isInput]
      rcases store_of_points fair.plan fair.nodup taken points state.support.scanf value with
        ⟨later, after, isWritten, isStored, holds'⟩ | ⟨isWritten, name, offset, isStored⟩
      · rw [isWritten, isStored]
        exact ⟨rfl, holds'⟩
      · rw [isWritten, isStored]
        exact ⟨trivial, rfl⟩

end Scene

end MiniPascal
