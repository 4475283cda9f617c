import MiniPascal.Proofs.Lowering.Sound

/-!
# Operands of translated expressions

The translation of an expression leaves the state ready for more code, and its operand may be read
behind the code that it has emitted.
-/

namespace MiniPascal

open IR (BlockId Builder Operand Instruction)
open Lowering (Ready)

namespace Lower

variable {α : Type} {state : Lowering} {here : BlockId} {pending : List Nat}

/-- An action that leaves the state ready and an operand that may be read. -/
def Yields (action : Lower Operand) : Prop :=
  ∀ ⦃state : Lowering⦄ ⦃here : BlockId⦄ ⦃pending : List Nat⦄, state.Ready here pending →
    Ensures action (fun operand state' => state'.Ready here pending ∧ state'.Has here operand) state

theorem has_int (value : Int32) : state.Has here (.int value) := fun _ _ _ _ => trivial

theorem has_bool (value : Bool) : state.Has here (.bool value) := fun _ _ _ _ => trivial

/-! ### Operations -/

theorem has_foldArith {op : IR.ArithOp} {left right folded : Operand}
    (isFolded : op.fold? left right = some folded) : state.Has here folded := by
  cases left <;> cases right <;>
    simp only [IR.ArithOp.fold?, Option.map_eq_some_iff, reduceCtorEq] at isFolded
  · obtain ⟨value, -, rfl⟩ := isFolded
    exact has_int value
  · obtain ⟨value, -, rfl⟩ := isFolded
    exact has_bool value

theorem has_foldCompare {predicate : IR.Predicate} {left right folded : Operand}
    (isFolded : predicate.fold? left right = some folded) : state.Has here folded := by
  cases left <;> cases right <;>
    simp only [IR.Predicate.fold?, Option.some.injEq, reduceCtorEq] at isFolded <;>
    exact isFolded ▸ has_bool _

theorem allows_value {instruction : Instruction}
    (operands : ∀ operand ∈ instruction.operands, state.Has here operand)
    (plain : instruction.targets = [] ∧ ¬ instruction.isAlloca ∧
      (∀ result callee arguments, instruction ≠ .call result callee arguments) ∧
      ∀ value, instruction ≠ .ret value) : state.Allows here instruction where
  operands := operands
  targets := by simp [plain.1]
  notAlloca := plain.2.1
  call result callee arguments isCall := absurd isCall (plain.2.2.1 _ _ _)
  ret value isRet := absurd isRet (plain.2.2.2 _)

theorem allows_ret {value : Option Operand} (has : ∀ operand ∈ value, state.Has here operand)
    (returns : state.Returns here.function value.isSome) : state.Allows here (.ret value) := by
  refine ⟨by simpa [Instruction.operands] using has, by simp [Instruction.targets],
    by simp [Instruction.isAlloca], by simp, ?_⟩
  rintro _ ⟨⟩
  exact returns

theorem ready_arith (ready : state.Ready here pending) (op : IR.ArithOp) {left right : Operand}
    (hasLeft : state.Has here left) (hasRight : state.Has here right) :
    Ensures (build (IR.Build.arith op left right))
      (fun operand state' => state'.Ready here pending ∧ state'.Has here operand) state := by
  unfold IR.Build.arith
  cases folded : op.fold? left right with
  | some operand => exact ensures_build.2 ⟨ready, has_foldArith folded⟩
  | none =>
      refine ready.emitValue _ (fun _ => allows_value ?_ ?_) (fun _ => rfl) fun _ => ?_
      · simp [Instruction.operands, hasLeft, hasRight]
      · simp [Instruction.targets, Instruction.isAlloca]
      · simp [Instruction.isTerminator]

theorem ready_compare (ready : state.Ready here pending) (predicate : IR.Predicate)
    {left right : Operand} (hasLeft : state.Has here left) (hasRight : state.Has here right) :
    Ensures (build (IR.Build.compare predicate left right))
      (fun operand state' => state'.Ready here pending ∧ state'.Has here operand) state := by
  unfold IR.Build.compare
  cases folded : predicate.fold? left right with
  | some operand => exact ensures_build.2 ⟨ready, has_foldCompare folded⟩
  | none =>
      refine ready.emitValue _ (fun _ => allows_value ?_ ?_) (fun _ => rfl) fun _ => ?_
      · simp [Instruction.operands, hasLeft, hasRight]
      · simp [Instruction.targets, Instruction.isAlloca]
      · simp [Instruction.isTerminator]

theorem ready_binary (ready : state.Ready here pending) (op : BinaryOp) {left right : Operand}
    (hasLeft : state.Has here left) (hasRight : state.Has here right) :
    Ensures (build (op.emit left right))
      (fun operand state' => state'.Ready here pending ∧ state'.Has here operand) state := by
  cases op with
  | add | sub | mul | div | mod | and | or => exact ready_arith ready _ hasLeft hasRight
  | _ => exact ready_compare ready _ hasLeft hasRight

theorem ready_load (ready : state.Ready here pending) {pointer : Operand}
    (has : state.Has here pointer) :
    Ensures (build (IR.Build.load pointer))
      (fun operand state' => state'.Ready here pending ∧ state'.Has here operand) state := by
  refine ready.emitValue _ (fun _ => allows_value ?_ ?_) (fun _ => rfl) fun _ => ?_
  · simp [Instruction.operands, has]
  · simp [Instruction.targets, Instruction.isAlloca]
  · simp [Instruction.isTerminator]

theorem ready_element (ready : state.Ready here pending) {base index : Operand}
    (hasBase : state.Has here base) (hasIndex : state.Has here index) :
    Ensures (build (IR.Build.element base index))
      (fun operand state' => state'.Ready here pending ∧ state'.Has here operand) state := by
  refine ready.emitValue _ (fun _ => allows_value ?_ ?_) (fun _ => rfl) fun _ => ?_
  · simp [Instruction.operands, hasBase, hasIndex]
  · simp [Instruction.targets, Instruction.isAlloca]
  · simp [Instruction.isTerminator]

theorem ready_store (ready : state.Ready here pending) {value pointer : Operand}
    (hasValue : state.Has here value) (hasPointer : state.Has here pointer) :
    Ensures (build (IR.Build.store value pointer))
      (fun _ state' => state'.Ready here pending) state := by
  refine ready.emit _ (allows_value ?_ ?_) rfl ?_
  · simp [Instruction.operands, hasValue, hasPointer]
  · simp [Instruction.targets, Instruction.isAlloca]
  · simp [Instruction.isTerminator]

/-! ### Calls -/

theorem ready_emitCall (ready : state.Ready here pending) {callee : IR.FunctionId}
    {called : IR.Function} {arguments : List Operand}
    (isCalled : state.builder.ir.functions[callee]? = some called)
    (arity : if called.variadic then called.parameters ≤ arguments.length
      else arguments.length = called.parameters)
    (has : ∀ argument ∈ arguments, state.Has here argument) :
    Ensures (emitCall callee arguments) (fun result state' => state'.Ready here pending ∧
      ∀ value, result = .value value → state'.Has here value) state := by
  have allows (result : Option IR.Register) (isResult : result.isSome = called.returnsValue) :
      state.Allows here (.call result callee arguments) := by
    refine ⟨has, by simp [Instruction.targets], by simp [Instruction.isAlloca], ?_, by simp⟩
    rintro _ _ _ ⟨⟩
    exact ⟨called, isCalled, arity, isResult⟩
  unfold emitCall
  rw [ensures_bind, ensures_build, IR.Build.call_eq isCalled]
  cases returns : called.returnsValue with
  | true =>
      have emitted := ready.emitValue (fun result => .call (some result) callee arguments)
        (fun _ => allows _ returns.symm) (fun _ => rfl) (fun _ => by simp [Instruction.isTerminator])
      rw [ensures_build] at emitted
      simpa using emitted
  | false =>
      have emitted := ready.emit (.call none callee arguments)
        (allows none returns.symm) rfl (by simp [Instruction.isTerminator])
      rw [ensures_build] at emitted
      simpa using emitted

theorem ensures_asValue {callee : String} {position : Position} {result : CallResult}
    {post : Operand → Lowering → Prop} (h : ∀ value, result = .value value → post value state) :
    Ensures (asValue callee position result) post state := by
  cases result with
  | value value => exact ensures_pure.2 (h value rfl)
  | nothing | exited => simp [asValue]

theorem ensures_address {name : String} {position : Position} {post : Operand → Lowering → Prop}
    (h : ∀ entry pointer, state.symbols.get? name = some entry →
      entry.storage = .address pointer → post pointer state) :
    Ensures (address name position) post state := by
  refine ensures_ask fun pointer isPointer => ?_
  unfold SymbolTable.declared at isPointer
  cases found : state.symbols.get? name with
  | none => simp [found] at isPointer
  | some entry =>
      cases isStorage : entry.storage with
      | address pointer' =>
          obtain rfl : pointer' = pointer := by
            simpa [found, Entry.address?, isStorage] using isPointer
          exact h entry _ found isStorage
      | _ => simp [found, Entry.address?, isStorage] at isPointer

theorem ready_address (ready : state.Ready here pending) (name : String) (position : Position) :
    Ensures (address name position)
      (fun operand state' => state'.Ready here pending ∧ state'.Has here operand) state := by
  refine ensures_address fun entry pointer isEntry isStorage => ⟨ready, ready.has_address ?_⟩
  simpa [Entry.Sound, isStorage] using ready.sound.get? isEntry

/-! ### Names -/

theorem yields_namePointer (name : String) (position : Position) :
    Yields (namePointer name position) := by
  intro state here pending ready
  unfold namePointer
  rw [ensures_bind]
  refine ensures_declared fun entry isEntry => ?_
  split
  · exact ready_address ready _ _
  · exact ready_address ready _ _
  · simp

theorem yields_elementPointer (array : String) (position : Position) {index : Lower Operand}
    (yields : Yields index) (straight : index.IsStraight) :
    Yields (elementPointer array position index) := by
  intro state here pending ready
  unfold elementPointer
  rw [ensures_bind]
  refine ensures_declared fun entry isEntry => ?_
  split
  · rw [ensures_bind]
    refine (ready_address ready array position).mono ?_
    rintro base state₁ ⟨ready₁, hasBase⟩
    rw [ensures_bind]
    refine ((yields ready₁).and (straight state₁)).mono ?_
    rintro index state₂ ⟨⟨ready₂, hasIndex⟩, straight₂⟩
    rw [ensures_bind]
    refine ((ready_arith ready₂ .sub hasIndex (has_int _)).and
      (isStraight_build (IR.Build.isStraight_arith _ _ _) state₂)).mono ?_
    rintro offset state₃ ⟨⟨ready₃, hasOffset⟩, straight₃⟩
    have hasBase₃ := (hasBase.straight ready₁ straight₂).straight ready₂ straight₃
    exact ready_element ready₃ hasBase₃ hasOffset
  · simp

theorem Callable.function {name : String} {arguments : Nat} {used : Bool} {id : IR.FunctionId}
    (callable : Callable state.symbols name arguments used (.function id))
    (ready : state.Ready here pending) :
    ∃ called, state.builder.ir.functions[id]? = some called ∧ called.variadic = false ∧
      called.parameters = arguments := by
  obtain ⟨entry, returnsValue, isEntry, isShape, isStorage, -⟩ := callable.entry
  have sound := ready.sound.get? isEntry
  simp only [Entry.Sound, isStorage] at sound
  obtain ⟨called, isCalled, notVariadic, same⟩ := sound
  rw [isShape, Shape.callable.injEq] at same
  exact ⟨called, isCalled, notVariadic, same.1.symm⟩

theorem yields_plainValue (name : String) (position : Position) :
    Yields (plainValue name position) := by
  intro state here pending ready
  unfold plainValue
  rw [ensures_bind]
  refine ensures_declared fun entry isEntry => ?_
  split
  · rw [ensures_bind]
    refine (ready_address ready name position).mono ?_
    rintro pointer state₁ ⟨ready₁, has⟩
    exact ready_load ready₁ has
  · simp
  · rw [ensures_bind]
    refine (ensures_callee name 0 position true state).mono ?_
    rintro storage _ ⟨rfl, callable⟩
    split
    · obtain ⟨called, isCalled, notVariadic, isZero⟩ := callable.function ready
      rw [ensures_bind]
      refine (ready_emitCall ready isCalled (by simp [notVariadic, isZero]) (by simp)).mono ?_
      rintro result state₁ ⟨ready₁, has⟩
      exact ensures_asValue fun value isValue => ⟨ready₁, has value isValue⟩
    · simp

theorem yields_nameValue (name : String) (position : Position) :
    Yields (nameValue .running name position) := by
  intro state here pending ready
  simp only [nameValue, ensures_bind, ensures_get]
  exact yields_plainValue _ _ ready

/-! ### Built-in callables -/

def Checks (action : Lower Unit) : Prop := ∀ state, Ensures action (fun _ state' => state' = state) state

theorem checks_requireReadable (target : Expr) : Checks (requireReadable target) := by
  intro state
  cases target with
  | ident name position =>
      simp only [requireReadable, ensures_bind]
      refine ensures_ask fun entry isEntry => ?_
      split <;> simp
  | element array index position =>
      simp only [requireReadable, ensures_bind]
      exact ensures_ask fun entry isEntry => by simp
  | _ => simp [requireReadable]

theorem checks_forM {items : List α} {action : α → Lower Unit} (h : ∀ item, Checks (action item)) :
    Checks (items.forM action) := by
  intro state
  induction items with
  | nil => simp
  | cons first others ih =>
      change Ensures (action first >>= fun _ => others.forM action) _ state
      rw [ensures_bind]
      refine (h first state).mono ?_
      rintro _ _ rfl
      exact ih

theorem ready_decrement (ready : state.Ready here pending) (target : Expr) :
    Ensures (decrement target) (fun _ state' => state'.Ready here pending) state := by
  cases target with
  | ident name position =>
      have rest : Ensures (do
          let pointer ← namePointer name position
          let value ← build (IR.Build.load pointer)
          let next ← build (IR.Build.arith .sub value (.int 1))
          build (IR.Build.store next pointer))
          (fun _ state' => state'.Ready here pending) state := by
        rw [ensures_bind]
        refine (yields_namePointer name position ready).mono ?_
        rintro pointer state₁ ⟨ready₁, hasPointer⟩
        rw [ensures_bind]
        refine ((ready_load ready₁ hasPointer).and
          (isStraight_build (IR.Build.isStraight_emitValue _) state₁)).mono ?_
        rintro value state₂ ⟨⟨ready₂, hasValue⟩, straight₂⟩
        rw [ensures_bind]
        refine ((ready_arith ready₂ .sub hasValue (has_int 1)).and
          (isStraight_build (IR.Build.isStraight_arith _ _ _) state₂)).mono ?_
        rintro next state₃ ⟨⟨ready₃, hasNext⟩, straight₃⟩
        exact ready_store ready₃ hasNext
          ((hasPointer.straight ready₁ straight₂).straight ready₂ straight₃)
      simp only [decrement, ensures_bind]
      refine ensures_ask fun entry isEntry => ?_
      split
      · simp
      · exact rest
  | _ => simp [decrement]

theorem ready_forM {items : List α} {action : α → Lower Unit} (ready : state.Ready here pending)
    (h : ∀ item {state}, state.Ready here pending →
      Ensures (action item) (fun _ state' => state'.Ready here pending) state) :
    Ensures (items.forM action) (fun _ state' => state'.Ready here pending) state := by
  induction items generalizing state with
  | nil => simpa using ready
  | cons first others ih =>
      change Ensures (action first >>= fun _ => others.forM action) _ state
      rw [ensures_bind]
      exact (h first ready).mono fun _ _ ready₁ => ih ready₁

theorem ended_exitCallable (ready : state.Ready here pending) (position : Position) :
    Ensures (exitCallable position) (fun _ state' => state'.Sound pending ∧ state'.Ended) state := by
  obtain ⟨name, isEnclosing⟩ := ready.enclosing
  obtain ⟨entry, isEntry, isStorage⟩ := ready.sound.enclosing _ isEnclosing
  have isCallable : state.symbols.enclosingCallable? = some entry := by
    simp [SymbolTable.enclosingCallable?, isEnclosing, isEntry]
  have sound := ready.sound.outer isEntry
  simp only [Entry.Sound, isStorage] at sound
  obtain ⟨function, isFunction, -, isShape⟩ := sound
  have returns : state.Returns here.function function.returnsValue := by
    intro other isOther
    obtain rfl := Option.some.inj (isOther.symm.trans isFunction)
    rfl
  simp only [exitCallable, ensures_bind, ensures_get, isEnclosing, isCallable, isShape]
  cases isValue : function.returnsValue with
  | true =>
      rw [isValue] at returns
      simp only [ensures_bind]
      refine ((yields_nameValue _ position ready).and (isStraight_nameValue _ _ _ state)).mono ?_
      rintro value state₁ ⟨⟨ready₁, has⟩, straight₁⟩
      exact ready₁.terminate _ (allows_ret (by simpa using has) (returns.straight ready straight₁))
        rfl
  | false =>
      rw [isValue] at returns
      exact ready.terminate _ (allows_ret (by simp) returns) rfl

/-! ### Expressions -/

def Leaves (here : BlockId) (pending : List Nat) (result : CallResult) (state : Lowering) : Prop :=
  match result with
  | .value value => state.Ready here pending ∧ state.Has here value
  | .nothing => state.Ready here pending
  | .exited => state.Sound pending ∧ state.Ended

def YieldsAll (count : Nat) (action : Lower (List Operand)) : Prop :=
  ∀ ⦃state : Lowering⦄ ⦃here : BlockId⦄ ⦃pending : List Nat⦄, state.Ready here pending →
    Ensures action (fun operands state' => state'.Ready here pending ∧ operands.length = count ∧
      ∀ operand ∈ operands, state'.Has here operand) state

theorem leaves_emitCall (ready : state.Ready here pending) {callee : IR.FunctionId}
    {called : IR.Function} {arguments : List Operand}
    (isCalled : state.builder.ir.functions[callee]? = some called)
    (arity : if called.variadic then called.parameters ≤ arguments.length
      else arguments.length = called.parameters)
    (has : ∀ argument ∈ arguments, state.Has here argument) :
    Ensures (emitCall callee arguments) (fun result state' => state'.Ready here pending ∧
      Leaves here pending result state') state := by
  intro result state' ok
  obtain ⟨ready', has'⟩ := ready_emitCall ready isCalled arity has result state' ok
  refine ⟨ready', ?_⟩
  cases result with
  | value value => exact ⟨ready', has' value rfl⟩
  | nothing => exact ready'
  | exited =>
      obtain ⟨value?, state₁, -, ok⟩ := bind_eq_ok.1 ok
      cases value? <;> simp at ok

theorem leaves_formatCall (ready : state.Ready here pending) {callee : IR.FunctionId}
    {format : Operand} {arguments : List Operand}
    (takes : state.builder.ir.TakesFormat callee)
    (isAddress : format.IsAddress state.builder.ir [])
    (has : ∀ argument ∈ arguments, state.Has here argument) :
    Ensures (emitCall callee (format :: arguments)) (fun result state' =>
      state'.Ready here pending ∧ Leaves here pending result state') state := by
  obtain ⟨called, isCalled, isOne, isVariadic, -⟩ := takes
  refine leaves_emitCall ready isCalled (by simp [isVariadic, isOne]) fun argument isArgument => ?_
  rcases List.mem_cons.1 isArgument with rfl | isArgument
  · exact ready.has_address (isAddress.within (.refl _) (by simp))
  · exact has argument isArgument

theorem leaves_call (ready : state.Ready here pending) (name : String) (arguments : List Expr)
    (position : Position) (used : Bool) {values : Lower (List Operand)} {target : Lower Operand}
    (yieldsValues : YieldsAll arguments.length values) (straight : values.IsStraight)
    (yieldsTarget : Yields target) :
    Ensures (call name arguments position used values target) (Leaves here pending) state := by
  unfold call
  rw [ensures_bind]
  refine (ensures_callee name arguments.length position used state).mono ?_
  rintro storage _ ⟨rfl, callable⟩
  cases storage with
  | address pointer => simp
  | function id =>
      simp only [ensures_bind]
      refine ((yieldsValues ready).and (straight _)).mono ?_
      rintro operands state₁ ⟨⟨ready₁, count, has⟩, straight₁⟩
      rw [← straight₁.symbols] at callable
      obtain ⟨called, isCalled, notVariadic, arity⟩ := callable.function ready₁
      exact (leaves_emitCall ready₁ isCalled (by simp [notVariadic, arity, count]) has).mono
        fun _ _ left => left.2
  | builtin builtin =>
      cases builtin with
      | writeln =>
          simp only [ensures_bind, ensures_get]
          refine (yieldsValues ready).mono ?_
          rintro operands state₁ ⟨ready₁, -, has⟩
          have support := ready₁.sound.support
          exact (leaves_formatCall ready₁ support.printf support.writelnFormat has).mono
            fun _ _ left => left.2
      | readln =>
          simp only [ensures_bind, ensures_get]
          refine (checks_forM checks_requireReadable _).mono ?_
          rintro _ _ rfl
          refine (yieldsTarget ready).mono ?_
          rintro pointer state₁ ⟨ready₁, has⟩
          have support := ready₁.sound.support
          exact (leaves_formatCall ready₁ support.scanf support.readlnFormat (by simpa using has)).mono
            fun _ _ left => left.2
      | write =>
          simp only [ensures_bind, ensures_get, ensures_pure]
          refine (yieldsValues ready).mono ?_
          rintro operands state₁ ⟨ready₁, -, has⟩
          have support := ready₁.sound.support
          exact (leaves_formatCall ready₁ support.printf support.writeFormat has).mono
            fun _ _ left => left.1
      | dec =>
          simp only [ensures_bind, ensures_pure]
          exact ready_forM ready fun target _ ready => ready_decrement ready target
      | exit =>
          simp only [ensures_bind, ensures_pure]
          exact ended_exitCallable ready position

mutual

theorem yields_expression (expr : Expr) : Yields (expression .running expr) := by
  intro state here pending ready
  cases expr with
  | ident name position => exact yields_nameValue name position ready
  | number value position => simpa [expression] using ⟨ready, has_int value⟩
  | literal text position =>
      simp only [expression, requireRunning, pure_bind]
      exact ready.addGlobal _ _ _ _
  | binary op left right position =>
      simp only [expression, ensures_bind]
      refine (yields_expression left ready).mono ?_
      rintro first state₁ ⟨ready₁, hasFirst⟩
      refine ((yields_expression right ready₁).and
        (isStraight_expression .running right state₁)).mono ?_
      rintro second state₂ ⟨⟨ready₂, hasSecond⟩, straight₂⟩
      simpa using ready_binary ready₂ op (hasFirst.straight ready₁ straight₂) hasSecond
  | negate operand position =>
      simp only [expression, ensures_bind]
      refine (yields_expression operand ready).mono ?_
      rintro value state₁ ⟨ready₁, has⟩
      exact ready_arith ready₁ .sub (has_int 0) has
  | not operand position =>
      simp only [expression, ensures_bind]
      refine (yields_expression operand ready).mono ?_
      rintro value state₁ ⟨ready₁, has⟩
      exact ready_arith ready₁ .xor has (has_bool true)
  | element array index position =>
      simp only [expression, requireRunning, pure_bind, ensures_bind]
      refine (yields_elementPointer array position (yields_expression index)
        (isStraight_expression .running index) ready).mono ?_
      rintro pointer state₁ ⟨ready₁, has⟩
      exact ready_load ready₁ has
  | call name arguments position =>
      simp only [expression, requireRunning, pure_bind, ensures_bind]
      refine (leaves_call ready name arguments position true (yieldsAll_expressions arguments)
        (isStraight_expressions arguments) (yields_firstPointer arguments)).mono ?_
      intro result state₁ left
      refine ensures_asValue ?_
      rintro value rfl
      exact left

theorem yieldsAll_expressions (exprs : List Expr) :
    YieldsAll exprs.length (expressions exprs) := by
  intro state here pending ready
  cases exprs with
  | nil => simpa [expressions] using ready
  | cons first others =>
      simp only [expressions, ensures_bind, ensures_pure]
      refine (yields_expression first ready).mono ?_
      rintro value state₁ ⟨ready₁, has⟩
      refine ((yieldsAll_expressions others ready₁).and
        (isStraight_expressions others state₁)).mono ?_
      rintro values state₂ ⟨⟨ready₂, count, hasOthers⟩, straight₂⟩
      refine ⟨ready₂, by simp [count], ?_⟩
      simpa using ⟨has.straight ready₁ straight₂, hasOthers⟩

theorem yields_firstPointer (exprs : List Expr) : Yields (firstPointer exprs) := by
  intro state here pending ready
  cases exprs with
  | nil => simpa [firstPointer] using ⟨ready, has_int 0⟩
  | cons first others => exact yields_pointer first ready

theorem yields_pointer (expr : Expr) : Yields (pointer expr) := by
  intro state here pending ready
  cases expr with
  | ident name position => exact yields_namePointer name position ready
  | element array index position =>
      exact yields_elementPointer array position (yields_expression index)
        (isStraight_expression .running index) ready
  | _ => simp [pointer]

end

theorem ready_assign (ready : state.Ready here pending) (assignment : Assignment) :
    Ensures (assign assignment) (fun _ state' => state'.Ready here pending) state := by
  unfold assign
  dsimp only
  split
  · simp
  · rw [ensures_bind]
    refine ensures_ask fun _ _ => ?_
    rw [ensures_bind]
    refine (yields_pointer assignment.target ready).mono ?_
    rintro pointer state₁ ⟨ready₁, hasPointer⟩
    rw [ensures_bind]
    refine ((yields_expression assignment.value ready₁).and
      (isStraight_expression .running assignment.value state₁)).mono ?_
    rintro value state₂ ⟨⟨ready₂, hasValue⟩, straight₂⟩
    exact ready_store ready₂ hasValue (hasPointer.straight ready₁ straight₂)

end Lower

end MiniPascal
