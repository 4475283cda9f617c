import MiniPascal.Proofs.Machine.Nesting

/-!
# The loop and the recursion agree

Whatever a task does by recursion, the loop of the machine does with any functions waiting.  Where a
run has come to no value the loop has not yet given back the slots of the functions that it leaves;
below the base of the outermost of them the two machines are the same.
-/

namespace MiniPascal.Machine

variable {ir : IR.Module} {limits : Limits}

theorem shrink_shrink (stack : Array Int32) (first second : Nat) :
    (stack.shrink first).shrink second = stack.shrink (min second first) := by
  apply Array.ext'
  simp only [Array.toList_shrink, List.take_take]

/-- The machines are the same but for the stack above a height and the functions that wait. -/
structure State.AgreesBelow (height : Nat) (first second : State) : Prop where
  globals : first.globals = second.globals
  console : first.console = second.console
  steps : first.steps = second.steps
  stack : first.stack.shrink height = second.stack.shrink height

theorem State.AgreesBelow.leave {height below : Nat} {first : State} {second : Nested}
    (agrees : first.AgreesBelow height second.state) (inside : below ≤ height) :
    first.AgreesBelow below (second.leave height).state := by
  refine ⟨agrees.globals, agrees.console, agrees.steps, ?_⟩
  have same := congrArg (Array.shrink · below) agrees.stack
  simp only [shrink_shrink, Nat.min_eq_left inside] at same
  rw [same, Nested.leave, State.dropSlots, shrink_shrink, Nat.min_eq_left inside]

namespace Run

def loop (ir : IR.Module) (limits : Limits) (frame : Frame) (state : State) :
    EStateM.Result Halt State (Option Word) :=
  go ir limits (limits.steps - state.steps) frame state

def goOn (ir : IR.Module) (limits : Limits) :
    EStateM.Result Halt State Flow → EStateM.Result Halt State (Option Word)
  | .ok (.next frame) state => loop ir limits frame state
  | .ok (.done value) state => .ok value state
  | .error halt state => .error halt state

variable {frame : Frame} {state : State} {instruction : IR.Instruction}

section
variable {callee : IR.FunctionId} {function : IR.Function} (arguments : List Word) (depth : Nat)
  (result : Option IR.Register)

theorem call_unknown (noFunction : ir.functions[callee]? = none) :
    call ir limits callee arguments depth result = throw .panic := by
  simp only [call, noFunction]

theorem call_external (isFunction : ir.functions[callee]? = some function)
    (noBody : function.isDeclaration = true) :
    call ir limits callee arguments depth result =
      (do return .inr (← callExternal ir callee arguments)) := by
  simp only [call, isFunction, noBody, if_true]

theorem call_tooDeep (isFunction : ir.functions[callee]? = some function)
    (hasBody : function.isDeclaration = false) (isDeep : limits.depth ≤ depth) :
    call ir limits callee arguments depth result = throw (.failed (.callDepth limits.depth)) := by
  simp [call, isFunction, hasBody, isDeep]

theorem call_enters (isFunction : ir.functions[callee]? = some function)
    (hasBody : function.isDeclaration = false) (notDeep : depth < limits.depth) (state : State) :
    call ir limits callee arguments depth result state =
      .ok (.inl (entryFrame function callee arguments state.stack.size (depth + 1) result)) state := by
  have isCall : call ir limits callee arguments depth result = (do
      let base := (← get).stack.size
      return .inl (entryFrame function callee arguments base (depth + 1) result)) := by
    simp only [call, isFunction, hasBody, Nat.not_le_of_lt notDeep, if_false, Bool.false_eq_true]
    rfl
  rw [isCall]
  rfl

end

def resumed (later : Except Halt Frame) (state : State) : EStateM.Result Halt State Flow :=
  match later with
  | .ok later => .ok (.next later) state
  | .error halt => .error halt state

theorem proceed_eq_resumed (frame : Frame) (register : IR.Register) (word : Word) (state : State) :
    proceed frame register word state =
      resumed (frame.resume ir callee (some register) (some word)) state := by
  by_cases inside : register < frame.registers.size
  · rw [proceed_inside inside, Frame.resume, if_pos inside]
    rfl
  · rw [proceed_outside inside, Frame.resume, if_neg inside]
    rfl

theorem assign_advance (frame : Frame) (register : IR.Register) (word : Word) :
    Flow.next <$> assign frame.advance register word = proceed frame register word := by
  by_cases inside : register < frame.registers.size
  · rw [proceed_inside inside, assign, if_pos (c := register < frame.advance.registers.size) inside]
    rfl
  · rw [proceed_outside inside, assign, if_neg (c := register < frame.advance.registers.size) inside]
    rfl

theorem returnFrom_eq_resumed {caller body : Frame} (value : Option Word) (callers : List Frame)
    (state : State) :
    returnFrom ir body value (state.under (caller.advance :: callers)) =
      resumed (caller.resume ir body.function body.result value)
        ((state.dropSlots body.base).under callers) := by
  cases isResult : body.result with
  | none => simp only [returnFrom, State.dropSlots, State.under, isResult]; rfl
  | some register =>
      cases value with
      | none => simp only [returnFrom, State.dropSlots, State.under, isResult]; rfl
      | some word =>
          simp only [returnFrom, State.dropSlots, State.under, isResult, assign_advance]
          exact proceed_eq_resumed caller register word _

theorem loop_unfinished {halt : Halt} (notFetched : frame.fetch ir = .error halt)
    (state : State) : loop ir limits frame state = .error halt state := by
  unfold loop
  cases limits.steps - state.steps <;> exact bind_of_error _ (by rw [notFetched]; rfl)

theorem loop_over (fetched : frame.fetch ir = .ok instruction) (state : State)
    (isOver : limits.steps ≤ state.steps) :
    loop ir limits frame state = .error (.failed (.stepLimit limits.steps)) state.counted := by
  rw [loop, Nat.sub_eq_zero_of_le isOver, go_zero fetched]

theorem execute_callTask {result : Option IR.Register} {callee : IR.FunctionId}
    {operands : List IR.Operand} {arguments : List Word}
    (areArguments : operands.mapM (frame.word ir) = .ok arguments) :
    execute ir limits frame (.call result callee operands) state =
      match call ir limits callee arguments frame.depth result state with
      | .ok (.inl body) after =>
          .ok (.next body) { after with callers := frame.advance :: after.callers }
      | .ok (.inr word) after => resumed (frame.resume ir callee result (some word)) after
      | .error halt after => .error halt after := by
  simp only [execute, areArguments, ofExcept, pure_bind]
  rw [bind_run]
  cases call ir limits callee arguments frame.depth result state with
  | error halt after => rfl
  | ok entered after =>
      cases entered with
      | inl body => rfl
      | inr word =>
          cases result with
          | none => rfl
          | some register => exact proceed_eq_resumed frame register word after

theorem execute_return (operand : Option IR.Operand) :
    execute ir limits frame (.ret operand) state =
      match frame.returned ir operand with
      | .ok value => returnFrom ir frame value state
      | .error halt => .error halt state := by
  cases operand with
  | none => rfl
  | some operand =>
      cases isWord : frame.word ir operand with
      | error halt => simp only [execute, isWord, Frame.returned, Except.map]; rfl
      | ok word => simp only [execute, isWord, Frame.returned, Except.map]; rfl

theorem execute_notCalled {result : Option IR.Register} {callee : IR.FunctionId}
    {operands : List IR.Operand} {halt : Halt}
    (noArguments : operands.mapM (frame.word ir) = .error halt) :
    execute ir limits frame (.call result callee operands) state = .error halt state := by
  simp only [execute, noArguments]
  rfl

theorem steps_returnFrom {value : Option Word} {flow : Flow} {after : State}
    (returned : returnFrom ir frame value state = .ok flow after) : after.steps = state.steps := by
  unfold returnFrom at returned
  dsimp only at returned
  split at returned
  · cases returned
    rfl
  · split at returned
    · cases returned
      rfl
    · obtain ⟨_, assigned, -⟩ := map_eq_ok.1 returned
      obtain ⟨-, -, rfl⟩ := (assign_eq_ok _).1 assigned
      rfl
    · cases returned

theorem steps_call {callee : IR.FunctionId} {arguments : List Word} {depth : Nat}
    {result : Option IR.Register} {entered : Frame ⊕ Word} {after : State}
    (called : call ir limits callee arguments depth result state = .ok entered after) :
    after.steps = state.steps := by
  cases isFunction : ir.functions[callee]? with
  | none =>
      rw [call_unknown _ _ _ isFunction] at called
      cases called
  | some function =>
      cases hasBody : function.isDeclaration with
      | true =>
          rw [call_external _ _ _ isFunction hasBody] at called
          obtain ⟨word, after', isCalled, isEntered⟩ := bind_eq_ok.1 called
          cases isEntered
          exact ((isLocal_callExternal _ _ _).of_ok isCalled).1.steps
      | false =>
          rcases Nat.lt_or_ge depth limits.depth with notDeep | isDeep
          · rw [call_enters _ _ _ isFunction hasBody notDeep] at called
            cases called
            rfl
          · rw [call_tooDeep _ _ _ isFunction hasBody isDeep] at called
            cases called

/-- Steps are counted by the loop and not by the instructions. -/
theorem steps_execute {flow : Flow} {after : State}
    (executed : execute ir limits frame instruction state = .ok flow after) :
    after.steps = state.steps := by
  cases isPlain : instruction.isPlain with
  | true => exact (execute_ok isPlain executed).2.1.steps
  | false =>
      cases instruction with
      | ret operand =>
          rw [execute_return] at executed
          cases isReturned : frame.returned ir operand with
          | error halt =>
              rw [isReturned] at executed
              cases executed
          | ok value =>
              rw [isReturned] at executed
              exact steps_returnFrom executed
      | call result callee operands =>
          cases areArguments : operands.mapM (frame.word ir) with
          | error halt =>
              rw [execute_notCalled areArguments] at executed
              cases executed
          | ok arguments =>
              rw [execute_callTask areArguments] at executed
              cases isCalled : call ir limits callee arguments frame.depth result state with
              | error halt state' =>
                  rw [isCalled] at executed
                  cases executed
              | ok entered state' =>
                  rw [isCalled] at executed
                  cases entered with
                  | inl body =>
                      cases executed
                      exact (steps_call isCalled :)
                  | inr word =>
                      simp only [resumed] at executed
                      split at executed <;> cases executed
                      exact (steps_call isCalled :)
      | _ => cases isPlain

theorem loop_inTime (fetched : frame.fetch ir = .ok instruction) (state : State)
    (inTime : state.steps < limits.steps) :
    loop ir limits frame state =
      goOn ir limits (execute ir limits frame instruction state.counted) := by
  obtain ⟨budget, isBudget⟩ : ∃ budget, limits.steps - state.steps = budget + 1 :=
    ⟨limits.steps - state.steps - 1, by omega⟩
  rw [loop, isBudget, go_succ budget fetched]
  cases executed : execute ir limits frame instruction state.counted with
  | error halt after => rfl
  | ok flow after =>
      cases flow with
      | done value => rfl
      | next later =>
          have counts : after.steps = state.steps + 1 := steps_execute executed
          have left : limits.steps - after.steps = budget := by omega
          simp only [goOn, loop, left]

/-- Only what an activation keeps matters to its return. -/
theorem returnFrom_of_keeps {later : Frame} {bound : Nat} (keeps : frame.Keeps bound later)
    (value : Option Word) : returnFrom ir later value = returnFrom ir frame value := by
  funext state
  simp only [returnFrom, keeps.base, keeps.result, keeps.function]

/-- The loop goes through the rest of an activation: to its return, or to the same error. -/
def Follows (ir : IR.Module) (limits : Limits) (frame : Frame) (callers : List Frame)
    (ran : EStateM.Result Halt State (Option Word)) (last : Nested) :
    Except Halt (Option Word) → Prop
  | .ok value => ran = goOn ir limits (returnFrom ir frame value (last.state.under callers))
  | .error halt => ∃ state, ran = .error halt state ∧ state.AgreesBelow frame.base last.state

theorem Follows.of_keeps {later : Frame} {bound : Nat} (keeps : frame.Keeps bound later)
    {callers : List Frame} {ran : EStateM.Result Halt State (Option Word)} {last : Nested}
    {outcome : Except Halt (Option Word)}
    (follows : Follows ir limits later callers ran last outcome) :
    Follows ir limits frame callers ran last outcome := by
  cases outcome with
  | ok value => rwa [Follows, returnFrom_of_keeps keeps] at follows
  | error halt => rwa [Follows, keeps.base] at follows

inductive Called (ir : IR.Module) (limits : Limits) (callee : IR.FunctionId) (arguments : List Word)
    (result : Option IR.Register) (machine : Nested) : Except Halt (Option Word) → Nested → Prop
  | gives {word : Word} {last : Nested} (steps : last.state.steps = machine.state.steps)
      (called : ∀ callers, call ir limits callee arguments machine.depth result
        (machine.state.under callers) = .ok (.inr word) (last.state.under callers)) :
      Called ir limits callee arguments result machine (.ok (some word)) last
  | fails {halt : Halt} {last : Nested}
      (called : ∀ callers, call ir limits callee arguments machine.depth result
        (machine.state.under callers) = .error halt (last.state.under callers)) :
      Called ir limits callee arguments result machine (.error halt) last
  | enters {body : Frame} {outcome : Except Halt (Option Word)} {inner : Nested}
      (called : ∀ callers, call ir limits callee arguments machine.depth result
        (machine.state.under callers) = .ok (.inl body) (machine.state.under callers))
      (base : body.base = machine.state.stack.size) (isResult : body.result = result)
      (function : body.function = callee)
      (follows : ∀ callers, Follows ir limits body callers
        (loop ir limits body (machine.state.under callers)) inner outcome) :
      Called ir limits callee arguments result machine outcome
        (inner.leave machine.state.stack.size)

end Run

namespace Run

theorem goOn_returnFrom {caller body : Frame} {callee : IR.FunctionId}
    {result : Option IR.Register} {value : Option Word} (function : body.function = callee)
    (isResult : body.result = result) (callers : List Frame) (inner : Nested) :
    goOn ir limits (returnFrom ir body value (inner.state.under (caller.advance :: callers))) =
      match caller.resume ir callee result value with
      | .ok later => loop ir limits later ((inner.leave body.base).state.under callers)
      | .error halt => .error halt ((inner.leave body.base).state.under callers) := by
  subst function isResult
  rw [returnFrom_eq_resumed]
  cases caller.resume ir body.function body.result value <;> rfl

variable {frame later : Frame} {result : Option IR.Register} {callee : IR.FunctionId}
  {operands : List IR.Operand} {arguments : List Word} {machine between : Nested}
  {given : Except Halt (Option Word)}

theorem Called.goOn_of_resumed
    (called : Called ir limits callee arguments result machine given between)
    (areArguments : operands.mapM (frame.word ir) = .ok arguments)
    (depth : frame.depth = machine.depth)
    (resumed : given.bind (frame.resume ir callee result) = .ok later) (callers : List Frame) :
    goOn ir limits (execute ir limits frame (.call result callee operands)
      (machine.state.under callers)) =
        loop ir limits later (between.state.under callers) := by
  rw [execute_callTask areArguments, depth]
  cases called with
  | fails called => cases resumed
  | gives _ called =>
      have isLater : frame.resume ir callee result _ = .ok later := resumed
      simp only [called callers, Run.resumed, isLater]
      rfl
  | @enters body _ inner called base isResult function follows =>
      cases given with
      | error halt => cases resumed
      | ok value =>
          have follows := follows (frame.advance :: callers)
          have isLater : frame.resume ir callee result value = .ok later := resumed
          rw [Follows, goOn_returnFrom function isResult, isLater, base] at follows
          rw [called callers]
          exact follows

theorem Called.goOn_of_notResumed {halt : Halt} {below : Nat}
    (called : Called ir limits callee arguments result machine given between)
    (areArguments : operands.mapM (frame.word ir) = .ok arguments)
    (depth : frame.depth = machine.depth) (inside : below ≤ machine.state.stack.size)
    (notResumed : given.bind (frame.resume ir callee result) = .error halt) (callers : List Frame) :
    ∃ state, goOn ir limits (execute ir limits frame (.call result callee operands)
      (machine.state.under callers)) = .error halt state ∧ state.AgreesBelow below between.state := by
  rw [execute_callTask areArguments, depth]
  cases called with
  | fails called =>
      rw [called callers, Except.error.inj notResumed]
      exact ⟨_, rfl, rfl, rfl, rfl, rfl⟩
  | gives _ called =>
      have isError : frame.resume ir callee result _ = .error halt := notResumed
      simp only [called callers, resumed, isError]
      exact ⟨_, rfl, rfl, rfl, rfl, rfl⟩
  | @enters body _ inner called base isResult function follows =>
      have follows := follows (frame.advance :: callers)
      rw [called callers]
      cases given with
      | error other =>
          -- the loop still has the slots of the callee, above the base of the caller
          obtain ⟨state, isError, agrees⟩ := follows
          rw [Except.error.inj notResumed] at isError
          rw [base] at agrees
          exact ⟨state, isError, agrees.leave inside⟩
      | ok value =>
          have isError : frame.resume ir callee result value = .error halt := notResumed
          rw [Follows, goOn_returnFrom function isResult, isError, base] at follows
          exact ⟨_, follows, rfl, rfl, rfl, rfl⟩

end Run

def Task.Loops (ir : IR.Module) (limits : Limits) (machine : Nested)
    (outcome : Except Halt (Option Word)) (last : Nested) : Task → Prop
  | call callee arguments result => Run.Called ir limits callee arguments result machine outcome last
  | body frame => frame.depth = machine.depth → frame.base ≤ machine.state.stack.size →
      ∀ callers, Run.Follows ir limits frame callers
        (Run.loop ir limits frame (machine.state.under callers)) last outcome

theorem Frame.keeps_resume {frame later : Frame} {callee : IR.FunctionId}
    {result : Option IR.Register} {given : Except Halt (Option Word)}
    (resumed : given.bind (frame.resume ir callee result) = .ok later) : frame.Keeps 0 later := by
  cases given with
  | error halt => cases resumed
  | ok value =>
      have resumed : frame.resume ir callee result value = .ok later := resumed
      unfold Frame.resume at resumed
      split at resumed
      · cases resumed
        exact frame.keeps_advance 0
      · split at resumed <;> cases resumed
        exact (Frame.Keeps.refl frame 0).trans (frame.keeps_define _ _) (Nat.zero_le _)
      · cases resumed

open Run in
theorem Task.Runs.loops {task : Task} {machine last : Nested}
    {outcome : Except Halt (Option Word)} {effects : Nat}
    (runs : task.Runs ir limits machine outcome effects last) :
    task.Loops ir limits machine outcome last := by
  induction runs with
  | unknown noFunction => exact .fails fun callers => by rw [call_unknown _ _ _ noFunction]; rfl
  | external isFunction noBody called =>
      obtain ⟨holds, same⟩ := (isLocal_callExternal _ _ _).of_ok called
      refine .gives holds.steps fun callers => ?_
      rw [call_external _ _ _ isFunction noBody]
      exact bind_of_ok _ (same.under callers)
  | externalFails isFunction noBody called =>
      obtain ⟨-, -, same⟩ := (isLocal_callExternal _ _ _).of_error called
      refine .fails fun callers => ?_
      rw [call_external _ _ _ isFunction noBody]
      exact bind_of_error _ (same.under callers)
  | tooDeep isFunction hasBody isDeep =>
      exact .fails fun callers => by rw [call_tooDeep _ _ _ isFunction hasBody isDeep]; rfl
  | enters isFunction hasBody notDeep _ ih =>
      exact .enters (fun callers => call_enters _ _ _ isFunction hasBody notDeep _) rfl rfl rfl
        fun callers => ih rfl (Nat.le_refl _) callers
  | unfinished notFetched =>
      intro _ _ callers
      exact ⟨_, loop_unfinished notFetched _, rfl, rfl, rfl, rfl⟩
  | @outOfSteps _ machine _ fetched isOver =>
      intro _ _ callers
      exact ⟨_, loop_over fetched (machine.state.under callers) isOver, rfl, rfl, rfl, rfl⟩
  | @goesOn frame machine instruction later state _ _ _ fetched inTime isPlain executed _ ih =>
      intro depth inside callers
      -- a plain instruction does the same whatever functions wait
      obtain ⟨⟨_, ⟨⟩, keeps⟩, grows, same⟩ := execute_ok isPlain executed
      have executed : execute ir limits frame instruction (machine.state.under callers).counted =
        .ok (.next later) (state.under callers) := same.under callers
      rw [loop_inTime fetched (machine.state.under callers) inTime, executed]
      have base : later.base ≤ state.stack.size := keeps.base ▸ Nat.le_trans inside grows.height
      exact (ih (keeps.depth.trans depth) base callers).of_keeps keeps
  | @fails frame machine instruction halt state fetched inTime isPlain executed =>
      intro _ _ callers
      have executed : execute ir limits frame instruction (machine.state.under callers).counted =
        .error halt (state.under callers) := (execute_error isPlain executed).2.2.under callers
      rw [loop_inTime fetched (machine.state.under callers) inTime, executed]
      exact ⟨_, rfl, rfl, rfl, rfl, rfl⟩
  | @returns frame machine operand fetched inTime =>
      intro _ _ callers
      rw [loop_inTime fetched (machine.state.under callers) inTime, execute_return]
      cases frame.returned ir operand with
      | ok value => rfl
      | error halt => exact ⟨_, rfl, rfl, rfl, rfl, rfl⟩
  | @notCalled frame machine _ _ _ halt fetched inTime noArguments =>
      intro _ _ callers
      rw [loop_inTime fetched (machine.state.under callers) inTime, execute_notCalled noArguments]
      exact ⟨_, rfl, rfl, rfl, rfl, rfl⟩
  | @calls frame machine _ _ _ _ _ _ between later _ _ _ fetched inTime areArguments called resumed _
      ihCall ihOthers =>
      intro depth inside callers
      have keeps := Frame.keeps_resume resumed
      have base : later.base ≤ between.state.stack.size := by
        rw [called.height, keeps.base]
        exact inside
      have sameDepth : later.depth = between.depth := by
        rw [called.kept.depth, keeps.depth]
        exact depth
      rw [loop_inTime fetched (machine.state.under callers) inTime]
      have goesOn := ihCall.goOn_of_resumed areArguments depth resumed callers
      exact goesOn ▸ (ihOthers sameDepth base callers).of_keeps keeps
  | @callFails frame machine _ _ _ _ _ _ _ _ fetched inTime areArguments called notResumed ihCall =>
      intro depth inside callers
      rw [loop_inTime fetched (machine.state.under callers) inTime]
      exact ihCall.goOn_of_notResumed areArguments depth inside notResumed callers

end MiniPascal.Machine
