import MiniPascal.Proofs.Simulation.Openings
import MiniPascal.Proofs.Simulation.Statements

/-!
# Bodies

A call runs the start of the body, then its actions, and then the return behind them.
-/

namespace MiniPascal

open Evaluation (Eval Memory Place Names Scope Meaning Progress)
open IR (BlockId Operand Instruction)
open Lowering (Ready)
open Machine (Config Frame Limits State Word Run)

/-! ### The machine at the start of a body -/

section

variable {ir : IR.Module} {plan : Plan} {limits : Limits}

structure MakesRoom (first : Config) (count : Nat) (config : Config) : Prop where
  keeps : first.frame.Keeps 0 config.frame
  block : config.frame.block = first.frame.block
  next : config.frame.next = count
  slots : ∀ slot < count, config.frame.registers[slot]? =
    some (some (.pointer (.slot (first.state.stack.size + slot))))
  globals : config.state.globals = first.state.globals
  stack : config.state.stack.toList = first.state.stack.toList ++ List.replicate count 0
  callers : config.state.callers = first.state.callers
  console : config.state.console = first.state.console

theorem MakesRoom.height {first config : Config} {count : Nat}
    (makes : MakesRoom first count config) :
    config.state.stack.size = first.state.stack.size + count := by
  simpa using congrArg List.length makes.stack

variable (limits) in
theorem runs_room {first : Config} {names : List String} {others : List Instruction}
    (isCode : ir.code first.frame.block = room names ++ others) (isStart : first.frame.next = 0)
    (enough : names.length ≤ first.frame.registers.size) {count : Nat} (le : count ≤ names.length) :
    ∃ config, first.Runs ir limits count config ∧ MakesRoom first count config := by
  induction count with
  | zero => exact ⟨first, .refl first, .refl _ _, rfl, isStart, by simp, rfl, by simp, rfl, rfl⟩
  | succ count ih =>
      obtain ⟨config, runs, makes⟩ := ih (by omega)
      have isNext : (ir.code config.frame.block)[config.frame.next]? =
          some (.alloca count names[count]) := by
        rw [makes.block, makes.next, isCode, List.getElem?_append_left (by simp [room]; omega), room,
          List.getElem?_mapIdx, List.getElem?_eq_getElem (by omega)]
        rfl
      have height : config.state.counted.stack.size = first.state.stack.size + count :=
        makes.height
      have size := makes.keeps.size
      have inside : count < config.frame.registers.size := by omega
      have executed : Run.execute ir limits config.frame (.alloca count names[count])
          config.state.counted = .ok (.next (config.frame.define count
            (.pointer (.slot (first.state.stack.size + count)))).advance)
          { config.state.counted with stack := config.state.counted.stack.push 0 } := by
        rw [Run.execute_alloca _ _ inside, height]
      refine ⟨_, runs.trans (.one (Lowering.fetch_of_code isNext) executed), ?_, makes.block, ?_, ?_,
        makes.globals, ?_, makes.callers, makes.console⟩
      · exact makes.keeps.trans (Frame.keeps_define _ count _) (Nat.zero_le _)
      · rw [Frame.advance, Frame.define, makes.next]
      · intro slot isSlot
        simp only [Frame.advance, Frame.define, Array.getElem?_setIfInBounds]
        by_cases same : count = slot
        · subst same
          rw [if_pos rfl, if_pos (by omega)]
        · rw [if_neg same, makes.slots slot (by omega)]
      · simp [State.counted, makes.stack, List.replicate_succ']

def Evaluation.Memory.put (memory : Memory) : Place × Int32 → Memory
  | (.local name, value) => { memory with locals := Evaluation.change memory.locals name value }
  | (.result, value) => { memory with result := value }
  | _ => memory

structure Fills (plan : Plan) (slots : List Place) (frame : Frame)
    (store : Operand × IR.Register) (write : Place × Int32) : Prop where
  word : ∀ next, { frame with next := next }.word plan.ir store.1 = .ok (.int write.2)
  isSlot : slots[store.2]? = some write.1
  isLocal : (∃ name, write.1 = .local name) ∨ write.1 = .result

variable (limits) in
theorem runs_fillings (fair : plan.Fair) {activation : Activation} {registers : Nat}
    {slots : List Place} (nodup : slots.Nodup) {stores : List (Operand × IR.Register)}
    {writes : List (Place × Int32)} {config : Config} {others : List Instruction} {memory : Memory}
    (fills : List.Forall₂ (Fills plan slots config.frame) stores writes)
    (isCode : (plan.ir.code config.frame.block).drop config.frame.next = fillings stores ++ others)
    (owns : activation.Owns registers slots.length config.frame)
    (holds : plan.Holds activation slots memory config.state) :
    ∃ state, config.Runs plan.ir limits stores.length
        ⟨{ config.frame with next := config.frame.next + stores.length }, state⟩ ∧
      plan.Holds activation slots (writes.foldl Memory.put memory) state := by
  induction stores generalizing writes config memory with
  | nil =>
      cases fills
      exact ⟨config.state, .refl config, holds⟩
  | cons store rest ih =>
      cases fills with
      | @cons _ write _ writes fill fills =>
        obtain ⟨value, slot⟩ := store
        obtain ⟨place, number⟩ := write
        have isNext : (plan.ir.code config.frame.block)[config.frame.next]? =
            some (.store value (.register slot)) := by
          rw [← List.head?_drop, isCode]
          rfl
        have isRead : config.frame.int plan.ir value = .ok number :=
          Frame.int_eq_ok.2 (fill.word config.frame.next)
        have bound : slot < slots.length := (List.getElem?_eq_some_iff.1 fill.isSlot).1
        have isPointer : config.frame.pointer plan.ir (.register slot) =
            .ok (.slot (activation.below.length + slot)) :=
          Frame.pointer_eq_ok.2 (by simp only [Frame.word, owns.slots slot bound])
        have points : plan.Points activation slots place
            (.slot (activation.below.length + slot)) := by
          rcases fill.isLocal with ⟨name, isName⟩ | isResult
          · simp only at isName
            subst isName
            exact ⟨slot, fill.isSlot, rfl⟩
          · simp only at isResult
            subst isResult
            exact ⟨slot, fill.isSlot, rfl⟩
        have written : Evaluation.write place number memory = .ok () (memory.put (place, number)) := by
          rcases fill.isLocal with ⟨name, isName⟩ | isResult
          · simp only at isName
            subst isName
            rfl
          · simp only at isResult
            subst isResult
            rfl
        have executed : Run.execute plan.ir limits config.frame (.store value (.register slot))
            config.state.counted = _ := Run.execute_store limits config.state.counted isRead isPointer
        -- a slot of the call is always there, so that the store does not fail
        rcases store_of_points fair nodup holds.counted points config.frame.function number with
          ⟨later, state', isLater, stored, holds'⟩ | ⟨failed, -⟩
        · obtain rfl : memory.put (place, number) = later := by
            rw [written] at isLater
            exact (EStateM.Result.ok.inj isLater).2
          rw [stored] at executed
          have isRest : (plan.ir.code config.frame.block).drop (config.frame.next + 1) =
              fillings rest ++ others := by
            rw [← List.drop_drop, isCode]
            rfl
          obtain ⟨last, runs, holdsLast⟩ := @ih writes ⟨config.frame.advance, state'⟩ _
            (fills.imp fun _ _ fill => ⟨fill.word, fill.isSlot, fill.isLocal⟩) isRest
            ⟨owns.base, owns.depth, owns.result, owns.size, owns.slots⟩ holds'
          refine ⟨last, ?_, holdsLast⟩
          have whole := (Config.Runs.one (Lowering.fetch_of_code isNext) executed).trans runs
          simpa [Frame.advance, Nat.add_assoc, Nat.add_comm 1] using whole
        · rw [written] at failed
          cases failed

def argumentValues (names : List String) (values : List Int32) (name : String) : Int32 :=
  ((names.zip values).lookup name).getD 0

def argumentWrites (names : List String) (values : List Int32) : List (Place × Int32) :=
  (names.zip values).map fun (name, value) => (.local name, value)

theorem foldl_put {names : List String} (nodup : names.Nodup) (values : List Int32)
    (memory : Memory) :
    (argumentWrites names values).foldl Memory.put memory =
      { memory with locals := fun name =>
        ((names.zip values).lookup name).getD (memory.locals name) } := by
  induction names generalizing values memory with
  | nil => simp [argumentWrites]
  | cons name others ih =>
      cases values with
      | nil => simp [argumentWrites]
      | cons value values =>
          obtain ⟨isNew, nodup⟩ := List.nodup_cons.1 nodup
          simp only [argumentWrites] at ih
          simp only [argumentWrites, List.zip_cons_cons, List.map_cons, List.foldl_cons]
          rw [ih nodup]
          simp only [Memory.put, Memory.mk.injEq, and_true, true_and]
          funext other
          rw [List.lookup_cons]
          by_cases same : other = name
          · subst same
            have notLater : (others.zip values).lookup other = none := by
              rw [List.lookup_eq_none_iff]
              rintro ⟨found, number⟩ isIn
              have different : other ≠ found := by
                rintro rfl
                exact isNew (List.of_mem_zip isIn).1
              simp [different]
            simp [notLater, Evaluation.change]
          · simp [beq_false_of_ne same, same, Evaluation.change]

theorem fills_arguments {slots : List Place} {frame : Frame} (names : List String)
    {values : List Int32} {first slot : Nat} (sameLength : values.length = names.length)
    (areArguments : ∀ index value, values[index]? = some value →
      frame.arguments[first + index]? = some (.int value))
    (areSlots : ∀ index name, names[index]? = some name →
      slots[slot + index]? = some (.local name)) :
    List.Forall₂ (Fills plan slots frame) (argumentStores first slot names)
      (argumentWrites names values) := by
  induction names generalizing values first slot with
  | nil => exact .nil
  | cons name others ih =>
      cases values with
      | nil => simp at sameLength
      | cons value values =>
          refine .cons ⟨fun next => ?_, areSlots 0 name rfl, .inl ⟨name, rfl⟩⟩
            (ih (by simpa using sameLength) (fun index value isValue => ?_)
              fun index name isName => ?_)
          · have isArgument := areArguments 0 value rfl
            simp only [Nat.add_zero] at isArgument
            simp only [Frame.word, isArgument]
          · rw [Nat.add_assoc, Nat.add_comm 1]
            exact areArguments (index + 1) value isValue
          · rw [Nat.add_assoc, Nat.add_comm 1]
            exact areSlots (index + 1) name isName

def Heading.initialWrites (heading : Heading) (values : List Int32) : List (Place × Int32) :=
  (if heading.returns.isSome then [(.result, 0)] else []) ++
    argumentWrites heading.parameterNames values

theorem fills_initial {slots more : List Place} {frame : Frame} {heading : Heading}
    {values : List Int32} (sameLength : values.length = heading.parameterCount)
    (areArguments : frame.arguments = (values.map Word.int).toArray)
    (isSlots : slots = heading.slots ++ more) :
    List.Forall₂ (Fills plan slots frame) heading.initialStores (heading.initialWrites values) := by
  have arguments (index : Nat) (value : Int32) (isValue : values[index]? = some value) :
      frame.arguments[0 + index]? = some (.int value) := by
    simp [areArguments, isValue]
  unfold Heading.initialStores Heading.initialWrites
  unfold Heading.slots at isSlots
  cases returns : heading.returns.isSome with
  | false =>
      simp only [returns, Bool.false_eq_true, if_false, List.nil_append] at isSlots ⊢
      refine fills_arguments heading.parameterNames sameLength arguments fun index name isName => ?_
      have bound := (List.getElem?_eq_some_iff.1 isName).1
      rw [isSlots, Nat.zero_add, List.getElem?_append_left (by simpa using bound)]
      simp [isName]
  | true =>
      simp only [returns, if_true, List.singleton_append] at isSlots ⊢
      refine .cons ⟨fun next => rfl, by rw [isSlots]; rfl, .inr rfl⟩
        (fills_arguments heading.parameterNames sameLength arguments fun index name isName => ?_)
      have bound := (List.getElem?_eq_some_iff.1 isName).1
      rw [isSlots, Nat.add_comm, List.cons_append, List.getElem?_cons_succ,
        List.getElem?_append_left (by simpa using bound)]
      simp [isName]

theorem foldl_initialWrites {heading : Heading} (nodup : heading.parameterNames.Nodup)
    (values : List Int32) (memory : Memory) :
    (heading.initialWrites values).foldl Memory.put
        { memory with locals := fun _ => 0, result := 0 } =
      { memory with locals := argumentValues heading.parameterNames values, result := 0 } := by
  unfold Heading.initialWrites
  rw [List.foldl_append, foldl_put nodup]
  cases heading.returns.isSome <;> rfl

theorem slot_zero (memory : Memory) (slots : List Place) :
    slots.map (Memory.slot { memory with locals := fun _ => 0, result := 0 }) =
      List.replicate slots.length 0 := by
  rw [← List.map_const']
  refine List.map_congr_left fun place _ => ?_
  cases place <;> rfl

/-- A body that is called gets to the end of its start, with the variables that the evaluation of the
call assumes. -/
theorem runs_opening (limits : Limits) {context : Context} (fair : context.plan.Fair)
    (nodup : context.slots.Nodup) {state : Lowering} {id : IR.FunctionId} {heading : Heading}
    (opening : state.Opening id context.slots.length heading.initialStores)
    (part : state.builder.ir.Part id context.plan.ir) {more : List Place}
    (isSlots : context.slots = heading.slots ++ more) (names : heading.parameterNames.Nodup)
    {activation : Activation} {values : List Int32}
    (sameLength : values.length = heading.parameterCount) {memory : Memory} {config : Config}
    (begins : context.plan.Begins activation id values memory config) :
    ∃ count last, config.Runs context.plan.ir limits count last ∧
      context.Here activation state ⟨id, 0⟩
        { memory with locals := argumentValues heading.parameterNames values, result := 0 } last := by
  obtain ⟨function, isFunction, isFrame⟩ := begins.frame
  obtain ⟨room, count, isCode⟩ := opening.code
  obtain ⟨others, isWhole⟩ := part.code 0
  have block : config.frame.block = ⟨id, 0⟩ := by rw [isFrame]; rfl
  have size : config.frame.registers.size = context.plan.ir.registers id := by
    rw [isFrame, IR.Module.registers_of_function isFunction]
    simp [Machine.Run.entryFrame]
  have enough := part.registers
  rw [opening.registers, ← count, ← size] at enough
  have wholeCode : context.plan.ir.code config.frame.block =
      MiniPascal.room room ++ (fillings heading.initialStores ++ others) := by
    rw [block, ← isWhole, isCode, List.append_assoc]
  obtain ⟨config₁, runs₁, makes⟩ := runs_room limits wholeCode (by rw [isFrame]; rfl)
    enough (Nat.le_refl room.length)
  have height : config.state.stack.size = activation.below.length := by
    rw [← Array.length_toList, begins.holds.stack]
    simp
  have owns : activation.Owns (context.plan.ir.registers id) context.slots.length config₁.frame := by
    refine ⟨?_, ?_, ?_, makes.keeps.size.trans size, fun slot isSlot => ?_⟩
    · rw [makes.keeps.base, isFrame]; rfl
    · rw [makes.keeps.depth, isFrame]; rfl
    · rw [makes.keeps.result, isFrame]; rfl
    · rw [makes.slots slot (count ▸ isSlot), height]
  have holds : context.plan.Holds activation context.slots
      { memory with locals := fun _ => 0, result := 0 } config₁.state := by
    refine ⟨?_, ?_, makes.callers.trans begins.holds.callers,
      makes.console.trans begins.holds.console⟩
    · rw [makes.globals]
      exact begins.holds.globals
    · rw [makes.stack, begins.holds.stack, slot_zero, count]
      simp
  have isRest : (context.plan.ir.code config₁.frame.block).drop config₁.frame.next =
      fillings heading.initialStores ++ others := by
    rw [makes.block, makes.next, wholeCode, List.drop_left' (by simp [MiniPascal.room])]
  have areArguments : config₁.frame.arguments = (values.map Word.int).toArray := by
    rw [makes.keeps.arguments, isFrame]
    rfl
  obtain ⟨state₂, runs₂, holds₂⟩ := runs_fillings limits fair nodup
    (fills_initial sameLength areArguments isSlots) isRest owns holds
  rw [foldl_initialWrites names] at holds₂
  refine ⟨_, _, runs₁.trans runs₂, ⟨makes.block.trans block, ?_⟩,
    ⟨owns.base, owns.depth, owns.result, owns.size, owns.slots⟩, ?_, holds₂⟩
  · rw [makes.next, isCode]
    simp [MiniPascal.room, fillings]
  · rw [opening.registers]

end

/-! ### Actions and the return behind them -/

theorem part_implicitReturn {heading : Heading} {here : BlockId} {pending : List Nat} {next : Nat}
    {ending : Option Ending} {state state' : Lowering}
    (goes : state.Goes here pending next ending state') :
    Ensures (Lower.implicitReturn heading) (fun _ last => ∀ whole : IR.Module,
      last.builder.ir.Part here.function whole → state'.builder.ir.Part here.function whole)
      state' := by
  cases ending with
  | some ending =>
      have isEnded : (IR.Build.isTerminated state'.builder).1 = true := (goes.ends rfl).2
      unfold Lower.implicitReturn
      rw [ensures_bind, Lower.ensures_build]
      simp only [isEnded, Bool.not_true, Bool.false_eq_true, if_false, ensures_pure]
      exact fun whole => id
  | none =>
      obtain ⟨there, leads, ready⟩ := goes.continues rfl
      refine (Lower.isStraight_implicitReturn heading state').mono ?_
      intro _ last straight whole part
      rw [← leads.same] at part ⊢
      exact straight.part ready.insertPoint part

namespace Scene

variable {scene : Scene} {state : Lowering} {here : BlockId} {pending : List Nat}

theorem follows_implicitReturn (fair : scene.Fair) (ready : state.Ready here pending)
    (within : scene.Within state) {heading : Heading}
    (isOwn : scene.scope.callable = some heading) :
    Ensures (Lower.implicitReturn heading) (fun _ state' =>
      state'.builder.ir.Part here.function scene.plan.ir → ∀ ⦃memory config⦄,
        scene.Here state here memory config →
          scene.Follows config ((pure () : Eval Unit) memory) fun _ memory' last =>
            scene.Exits memory' last) state := by
  have notEnded : (IR.Build.isTerminated state.builder).1 = false :=
    Bool.eq_false_iff.2 ready.notEnded
  have isReturning : scene.returnsValue = heading.returns.isSome := by simp [returnsValue, isOwn]
  unfold Lower.implicitReturn
  rw [ensures_bind, Lower.ensures_build]
  simp only [notEnded, Bool.not_false, if_true]
  cases returns : heading.returns.isSome with
  | true => exact follows_retResult fair ready within _ _ (isReturning.trans returns)
  | false => exact follows_retNone ready (isReturning.trans returns)

theorem follows_body (fair : scene.Fair) (ready : state.Ready here pending)
    (within : scene.Within state) {heading : Heading}
    (isOwn : scene.scope.callable = some heading) {next : Nat} {actions : List Statement}
    (areActions : Statement.AreActions none next actions) :
    Ensures (do
      let _ ← Lower.statements actions
      Lower.implicitReturn heading) (fun _ state' =>
        state'.builder.ir.Part here.function scene.plan.ir → ∀ ⦃memory config⦄,
          scene.Here state here memory config →
            scene.Follows config
              (Evaluation.statements scene.invoke scene.scope scene.fuel actions memory)
              fun _ memory' last => scene.Exits memory' last) state := by
  have noLoop : state.KnowsExit here.function none next := by simp [Lowering.KnowsExit]
  rw [ensures_bind]
  refine ((acts_statements fair actions areActions ready within noLoop).and
    (Lower.runs_statements actions areActions ready noLoop)).mono ?_
  rintro ending state₁ ⟨acts, goes⟩
  have returns : Ensures (Lower.implicitReturn heading) (fun _ state' =>
      state'.builder.ir.Part here.function scene.plan.ir → ending = none → ∀ ⦃memory config⦄,
        scene.GoesOn here ending state₁ memory config →
          scene.Follows config ((pure () : Eval Unit) memory) fun _ memory' last =>
            scene.Exits memory' last) state₁ := by
    cases ending with
    | some ending => exact fun _ _ _ _ isNone => by cases isNone
    | none =>
        obtain ⟨there, leads, ready₁⟩ := goes.continues rfl
        refine (follows_implicitReturn fair ready₁ (within.moves goes.moves) isOwn).mono ?_
        rintro _ state₂ follows part - memory config ⟨-, there', isThere, -, isHere⟩
        obtain rfl := Option.some.inj (ready₁.insertPoint.symm.trans isThere)
        exact follows (leads.same ▸ part) isHere
  refine (returns.and (part_implicitReturn goes)).mono ?_
  rintro _ state₂ ⟨returns, back⟩ part memory config isHere
  have followed := acts (back _ part) isHere
  have split : Evaluation.statements scene.invoke scene.scope scene.fuel actions =
      Evaluation.statements scene.invoke scene.scope scene.fuel actions >>= pure :=
    (bind_pure _).symm
  rw [split]
  refine followed.bind fun progress memory' last proceeds => ?_
  cases progress with
  | next =>
      have goesOn : scene.GoesOn here ending state₁ memory' last := proceeds
      exact (returns part goesOn.1 goesOn).recast fun _ exits => exits
  | left id => cases proceeds.1
  | exited => exact .done proceeds

end Scene

/-! ### Calls -/

/-- A call of this body does what it is evaluated to. -/
def Plan.Performs (plan : Plan) (limits : Limits) (fuel : Nat)
    (invoke : Heading → List Statement → List Int32 → Eval (Option Int32)) (id : IR.FunctionId)
    (heading : Heading) (body : List Statement) : Prop :=
  ∀ ⦃arguments : List Int32⦄, arguments.length = heading.parameterCount →
    ∀ ⦃activation memory config⦄, plan.Begins activation id arguments memory config →
      Simulates plan.ir limits fuel (limits.depth < activation.depth + fuel) config
        (invoke heading body arguments memory) fun value? memory' last =>
          plan.Returns activation value? memory' last ∧
            value?.isSome = heading.returns.isSome ∧
            memory'.locals = memory.locals ∧ memory'.result = memory.result

theorem takeWhile_body {declarations actions : List Statement} {next : Nat}
    (areStorage : ∀ declaration ∈ declarations, declaration.IsStorage)
    (areActions : Statement.AreActions none next actions) :
    (declarations ++ actions).takeWhile (·.isDeclaration) = declarations ∧
      (declarations ++ actions).dropWhile (·.isDeclaration) = actions := by
  have areDeclarations (declaration : Statement) (isIn : declaration ∈ declarations) :
      declaration.isDeclaration = true := (areStorage declaration isIn).isDeclaration
  rw [List.takeWhile_append_of_pos areDeclarations, List.dropWhile_append_of_pos areDeclarations]
  cases actions with
  | nil => simp
  | cons first others => simp [areActions.1.isDeclaration]

theorem invoke_succ {outer : Names} {fuel : Nat} {heading : Heading}
    {declarations actions : List Statement} {next : Nat} {scope : Scope}
    (areStorage : ∀ declaration ∈ declarations, declaration.IsStorage)
    (areActions : Statement.AreActions none next actions)
    (isScope : Scope.ofBody? outer heading declarations = some scope) (values : List Int32)
    (memory : Memory) :
    Evaluation.invoke outer (fuel + 1) heading (declarations ++ actions) values memory =
      (Evaluation.statements (Evaluation.invoke outer fuel) scope fuel actions >>= fun _ => do
        let callee ← get
        set { callee with locals := memory.locals, result := memory.result }
        return if heading.returns.isSome then some callee.result else none)
        { memory with locals := argumentValues heading.parameterNames values, result := 0 } := by
  obtain ⟨isTaken, isDropped⟩ := takeWhile_body areStorage areActions
  unfold Evaluation.invoke
  rw [isTaken, isDropped, isScope]
  rfl

theorem part_body {state : Lowering} {here : BlockId} {pending : List Nat}
    (ready : state.Ready here pending) {heading : Heading} {next : Nat} {actions : List Statement}
    (areActions : Statement.AreActions none next actions) :
    Ensures (do
      let _ ← Lower.statements actions
      Lower.implicitReturn heading) (fun _ last => ∀ whole : IR.Module,
        last.builder.ir.Part here.function whole → state.builder.ir.Part here.function whole)
      state := by
  rw [ensures_bind]
  refine (Lower.runs_statements actions areActions ready (by simp [Lowering.KnowsExit])).mono ?_
  intro ending state₁ goes
  refine (part_implicitReturn goes).mono fun _ state₂ back whole part => ?_
  exact goes.moves.part rfl (back whole part)

/-- The body of a callable does what a call of it is evaluated to, if the calls in it do. -/
theorem performs_body {context : Context} (fair : context.Fair) {state : Lowering}
    {id : IR.FunctionId} (ready : state.Ready ⟨id, 0⟩ [])
    (symbols : state.symbols = context.symbols) (support : state.support = context.support)
    {heading : Heading} (isOwn : context.scope.callable = some heading) {outer : Names}
    {declarations actions : List Statement} {next : Nat}
    (areStorage : ∀ declaration ∈ declarations, declaration.IsStorage)
    (areActions : Statement.AreActions none next actions)
    (isScope : Scope.ofBody? outer heading declarations = some context.scope)
    (opening : state.Opening id context.slots.length heading.initialStores) {more : List Place}
    (isSlots : context.slots = heading.slots ++ more) (names : heading.parameterNames.Nodup) :
    Ensures (do
      let _ ← Lower.statements actions
      Lower.implicitReturn heading) (fun _ state' =>
        state'.builder.ir.Part id context.plan.ir → ∀ (limits : Limits) (fuel : Nat),
          context.plan.Calls limits fuel (Evaluation.invoke outer fuel) →
            context.plan.Performs limits (fuel + 1) (Evaluation.invoke outer (fuel + 1)) id heading
              (declarations ++ actions)) state := by
  intro result state' ok part limits fuel calls values sameLength activation memory config begins
  let scene : Scene :=
    { context with
      limits := limits, activation := activation, fuel := fuel
      invoke := Evaluation.invoke outer fuel }
  have sceneFair : scene.Fair := ⟨fair, calls⟩
  have before := part_body ready areActions result state' ok _ part
  have follows := Scene.follows_body sceneFair ready ⟨symbols, support⟩ isOwn areActions result
    state' ok part
  obtain ⟨count, last, runs, isHere⟩ := runs_opening limits fair.plan fair.nodup opening before
    isSlots names sameLength begins
  rw [invoke_succ areStorage areActions isScope]
  refine .steps runs ((follows isHere).bind fun _ memory' last exits => .done ?_)
  have isReturning : scene.returnsValue = heading.returns.isSome := by
    simp [Scene.returnsValue, scene, isOwn]
  have exits : scene.plan.Returns activation (scene.result memory') memory' last := exits
  have value : scene.result memory' =
      if heading.returns.isSome then some memory'.result else none := by
    simp [Scene.result, isReturning]
  rw [value] at exits
  refine ⟨⟨exits.fetched, exits.base, exits.result, exits.globals, exits.stack, exits.callers,
    exits.console⟩, ?_, rfl, rfl⟩
  cases heading.returns.isSome <;> rfl

end MiniPascal
