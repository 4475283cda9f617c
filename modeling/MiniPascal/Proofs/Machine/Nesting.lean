import MiniPascal.Proofs.Machine.Locality

/-!
# Calls inside of calls

The machine runs in one loop, with a list of the functions that wait.  `Task.Runs` tells the same
runs by recursion: a call enters the body of its function and, however that ends, gives back the stack
above the height that it found.  Each instruction is counted and held against the limit of steps
before it takes effect; nothing else bounds how far a run goes.
-/

namespace MiniPascal.Machine

/-- A machine, and how many functions are active on it. -/
structure Nested where
  state : State
  depth : Nat

namespace Nested

def start (ir : IR.Module) (console : Console) : Nested := ⟨State.start ir console, 0⟩

def counted (machine : Nested) : Nested := { machine with state := machine.state.counted }

def enter (machine : Nested) : Nested := { machine with depth := machine.depth + 1 }

def leave (machine : Nested) (height : Nat) : Nested :=
  ⟨machine.state.dropSlots height, machine.depth - 1⟩

end Nested

namespace Frame

def returned (ir : IR.Module) (frame : Frame) : Option IR.Operand → Except Halt (Option Word)
  | none => .ok none
  | some operand => (frame.word ir operand).map some

def resume (ir : IR.Module) (frame : Frame) (callee : IR.FunctionId) :
    Option IR.Register → Option Word → Except Halt Frame
  | none, _ => .ok frame.advance
  | some register, some word =>
      if register < frame.registers.size then .ok (frame.define register word).advance
      else .error .panic
  | some _, none => .error (.failed (.noReturnValue (ir.functionName callee)))

end Frame

inductive Task where
  /-- A call, whose value goes to a register if there is one. -/
  | call (callee : IR.FunctionId) (arguments : List Word) (result : Option IR.Register)
  /-- The rest of an activation. -/
  | body (frame : Frame)

/-- A task leads from a machine to another one, with what it comes to, by so many instructions that
take effect. -/
inductive Task.Runs (ir : IR.Module) (limits : Limits) :
    Task → Nested → Except Halt (Option Word) → Nat → Nested → Prop
  | unknown {callee arguments result machine} (noFunction : ir.functions[callee]? = none) :
      Runs ir limits (.call callee arguments result) machine (.error .panic) 0 machine
  | external {callee arguments result machine function word state}
      (isFunction : ir.functions[callee]? = some function) (noBody : function.isDeclaration = true)
      (called : Run.callExternal ir callee arguments machine.state = .ok word state) :
      Runs ir limits (.call callee arguments result) machine (.ok (some word)) 0
        { machine with state := state }
  | externalFails {callee arguments result machine function halt state}
      (isFunction : ir.functions[callee]? = some function) (noBody : function.isDeclaration = true)
      (called : Run.callExternal ir callee arguments machine.state = .error halt state) :
      Runs ir limits (.call callee arguments result) machine (.error halt) 0
        { machine with state := state }
  | tooDeep {callee arguments result machine function}
      (isFunction : ir.functions[callee]? = some function) (hasBody : function.isDeclaration = false)
      (isDeep : limits.depth ≤ machine.depth) :
      Runs ir limits (.call callee arguments result) machine
        (.error (.failed (.callDepth limits.depth))) 0 machine
  | enters {callee arguments result machine function outcome effects last}
      (isFunction : ir.functions[callee]? = some function) (hasBody : function.isDeclaration = false)
      (notDeep : machine.depth < limits.depth)
      (body : Runs ir limits (.body (Run.entryFrame function callee arguments
        machine.state.stack.size (machine.depth + 1) result)) machine.enter outcome effects last) :
      Runs ir limits (.call callee arguments result) machine outcome effects
        (last.leave machine.state.stack.size)
  | unfinished {frame machine halt} (notFetched : frame.fetch ir = .error halt) :
      Runs ir limits (.body frame) machine (.error halt) 0 machine
  | outOfSteps {frame machine instruction} (fetched : frame.fetch ir = .ok instruction)
      (isOver : limits.steps ≤ machine.state.steps) :
      Runs ir limits (.body frame) machine (.error (.failed (.stepLimit limits.steps))) 0
        machine.counted
  | goesOn {frame machine instruction later state outcome effects last}
      (fetched : frame.fetch ir = .ok instruction) (inTime : machine.state.steps < limits.steps)
      (isPlain : instruction.isPlain)
      (executed : Run.execute ir limits frame instruction machine.state.counted =
        .ok (.next later) state)
      (others : Runs ir limits (.body later) { machine with state := state } outcome effects last) :
      Runs ir limits (.body frame) machine outcome (effects + 1) last
  | fails {frame machine instruction halt state}
      (fetched : frame.fetch ir = .ok instruction) (inTime : machine.state.steps < limits.steps)
      (isPlain : instruction.isPlain)
      (executed : Run.execute ir limits frame instruction machine.state.counted =
        .error halt state) :
      Runs ir limits (.body frame) machine (.error halt) 1 { machine with state := state }
  | returns {frame machine operand} (fetched : frame.fetch ir = .ok (.ret operand))
      (inTime : machine.state.steps < limits.steps) :
      Runs ir limits (.body frame) machine (frame.returned ir operand) 1 machine.counted
  | notCalled {frame machine result callee operands halt}
      (fetched : frame.fetch ir = .ok (.call result callee operands))
      (inTime : machine.state.steps < limits.steps)
      (noArguments : operands.mapM (frame.word ir) = .error halt) :
      Runs ir limits (.body frame) machine (.error halt) 1 machine.counted
  | calls {frame machine result callee operands arguments given inner between later outcome effects
        last}
      (fetched : frame.fetch ir = .ok (.call result callee operands))
      (inTime : machine.state.steps < limits.steps)
      (areArguments : operands.mapM (frame.word ir) = .ok arguments)
      (called : Runs ir limits (.call callee arguments result) machine.counted given inner between)
      (resumed : given.bind (frame.resume ir callee result) = .ok later)
      (others : Runs ir limits (.body later) between outcome effects last) :
      Runs ir limits (.body frame) machine outcome (inner + effects + 1) last
  | callFails {frame machine result callee operands arguments given inner between halt}
      (fetched : frame.fetch ir = .ok (.call result callee operands))
      (inTime : machine.state.steps < limits.steps)
      (areArguments : operands.mapM (frame.word ir) = .ok arguments)
      (called : Runs ir limits (.call callee arguments result) machine.counted given inner between)
      (notResumed : given.bind (frame.resume ir callee result) = .error halt) :
      Runs ir limits (.body frame) machine (.error halt) (inner + 1) between

variable {ir : IR.Module} {limits : Limits} {task : Task} {machine last : Nested}
  {outcome : Except Halt (Option Word)} {effects : Nat}

/-! ### What calls give back -/

structure Nested.Kept (machine last : Nested) : Prop where
  depth : last.depth = machine.depth
  callers : last.state.callers = machine.state.callers
  height : machine.state.stack.size ≤ last.state.stack.size

namespace Nested.Kept

variable {first second third : Nested}

theorem refl (machine : Nested) : machine.Kept machine := ⟨rfl, rfl, Nat.le_refl _⟩

theorem trans (h₁ : first.Kept second) (h₂ : second.Kept third) : first.Kept third :=
  ⟨h₂.depth.trans h₁.depth, h₂.callers.trans h₁.callers, Nat.le_trans h₁.height h₂.height⟩

theorem counted (machine : Nested) : machine.Kept machine.counted := ⟨rfl, rfl, Nat.le_refl _⟩

theorem ofGrows {state : State} (grows : machine.state.Grows state) :
    machine.Kept { machine with state := state } :=
  ⟨rfl, grows.callers, grows.height⟩

theorem leave (kept : machine.enter.Kept last) :
    machine.Kept (last.leave machine.state.stack.size) ∧
      (last.leave machine.state.stack.size).state.stack.size = machine.state.stack.size := by
  have height : (last.leave machine.state.stack.size).state.stack.size = machine.state.stack.size := by
    have enough : machine.state.stack.size ≤ last.state.stack.size := kept.height
    simp only [Nested.leave, State.dropSlots, Array.size_shrink]
    omega
  refine ⟨⟨?_, kept.callers, Nat.le_of_eq height.symm⟩, height⟩
  have isDepth : last.depth = machine.depth + 1 := kept.depth
  simp only [Nested.leave, isDepth, Nat.add_sub_cancel]

end Nested.Kept

/-- Whatever a task ends in, the activations that it has begun are over. -/
theorem Task.Runs.kept (runs : task.Runs ir limits machine outcome effects last) :
    machine.Kept last := by
  induction runs with
  | unknown | tooDeep | unfinished => exact .refl _
  | outOfSteps | returns | notCalled => exact .counted _
  | external _ _ called => exact .ofGrows ((Run.isLocal_callExternal _ _ _).of_ok called).1.grows
  | externalFails _ _ called =>
      exact .ofGrows ((Run.isLocal_callExternal _ _ _).of_error called).1.grows
  | enters _ _ _ _ ih => exact ih.leave.1
  | goesOn _ _ isPlain executed _ ih =>
      exact ((Nested.Kept.counted _).trans (.ofGrows (Run.execute_ok isPlain executed).2.1)).trans ih
  | fails _ _ isPlain executed =>
      exact (Nested.Kept.counted _).trans (.ofGrows (Run.execute_error isPlain executed).1)
  | calls _ _ _ _ _ _ called others => exact ((Nested.Kept.counted _).trans called).trans others
  | callFails _ _ _ _ _ called => exact (Nested.Kept.counted _).trans called

theorem Task.Runs.height {callee : IR.FunctionId} {arguments : List Word} {result : Option IR.Register}
    (runs : (Task.call callee arguments result).Runs ir limits machine outcome effects last) :
    last.state.stack.size = machine.state.stack.size := by
  cases runs with
  | unknown | tooDeep => rfl
  | external _ _ called => exact ((Run.isLocal_callExternal _ _ _).of_ok called).1.height
  | externalFails _ _ called => exact ((Run.isLocal_callExternal _ _ _).of_error called).1.height
  | enters _ _ _ body => exact body.kept.leave.2

/-! ### Machines that are alike -/

structure Nested.Alike (first second : Nested) : Prop where
  depth : second.depth = first.depth
  state : first.state.Alike second.state

namespace Nested.Alike

variable {first second : Nested}

theorem counted (alike : first.Alike second) : first.counted.Alike second.counted :=
  ⟨alike.depth, { alike.state with steps := congrArg (· + 1) alike.state.steps }⟩

theorem enter (alike : first.Alike second) : first.enter.Alike second.enter :=
  ⟨congrArg (· + 1) alike.depth, alike.state⟩

theorem leave (alike : first.Alike second) (height : Nat) :
    (first.leave height).Alike (second.leave height) :=
  ⟨congrArg (· - 1) alike.depth,
    { alike.state with stack := congrArg (Array.shrink · height) alike.state.stack }⟩

theorem inTime (alike : first.Alike second) (inTime : first.state.steps < limits.steps) :
    second.state.steps < limits.steps := by
  rwa [alike.state.steps]

end Nested.Alike

/-- Machines that are alike come to the same and are alike behind it. -/
theorem Task.Runs.alike (runs : task.Runs ir limits machine outcome effects last) {other : Nested}
    (alike : machine.Alike other) :
    ∃ final, task.Runs ir limits other outcome effects final ∧ last.Alike final := by
  induction runs generalizing other with
  | unknown noFunction => exact ⟨other, .unknown noFunction, alike⟩
  | external isFunction noBody called =>
      have ends := (Run.isLocal_callExternal _ _ _).of_ok called
      obtain ⟨state, ran, isAlike⟩ := ends.2.alike alike.state
      exact ⟨_, .external isFunction noBody ran, alike.depth, isAlike⟩
  | externalFails isFunction noBody called =>
      have fails := (Run.isLocal_callExternal _ _ _).of_error called
      obtain ⟨state, ran, isAlike⟩ := fails.2.2.alike alike.state
      exact ⟨_, .externalFails isFunction noBody ran, alike.depth, isAlike⟩
  | tooDeep isFunction hasBody isDeep =>
      exact ⟨other, .tooDeep isFunction hasBody (by rwa [alike.depth]), alike⟩
  | enters isFunction hasBody notDeep _ ih =>
      obtain ⟨final, body, isAlike⟩ := ih alike.enter
      rw [← alike.depth] at notDeep body
      rw [← alike.state.stack] at body ⊢
      exact ⟨_, .enters isFunction hasBody notDeep body, isAlike.leave _⟩
  | unfinished notFetched => exact ⟨other, .unfinished notFetched, alike⟩
  | outOfSteps fetched isOver =>
      exact ⟨_, .outOfSteps fetched (by rwa [alike.state.steps]), alike.counted⟩
  | @goesOn _ machine _ _ after _ _ _ fetched inTime isPlain executed _ ih =>
      obtain ⟨state, ran, isAlike⟩ :=
        (Run.execute_ok isPlain executed).2.2.alike alike.counted.state
      have goesOn : Nested.Alike { machine with state := after } { other with state := state } :=
        ⟨alike.depth, isAlike⟩
      obtain ⟨final, others, areAlike⟩ := ih goesOn
      exact ⟨final, .goesOn fetched (alike.inTime inTime) isPlain ran others, areAlike⟩
  | fails fetched inTime isPlain executed =>
      obtain ⟨state, ran, isAlike⟩ :=
        (Run.execute_error isPlain executed).2.2.alike alike.counted.state
      exact ⟨_, .fails fetched (alike.inTime inTime) isPlain ran, alike.depth, isAlike⟩
  | returns fetched inTime =>
      exact ⟨_, .returns fetched (alike.inTime inTime), alike.counted⟩
  | notCalled fetched inTime noArguments =>
      exact ⟨_, .notCalled fetched (alike.inTime inTime) noArguments, alike.counted⟩
  | calls fetched inTime areArguments _ resumed _ ihCall ihOthers =>
      obtain ⟨between, called, isAlike⟩ := ihCall alike.counted
      obtain ⟨final, others, areAlike⟩ := ihOthers isAlike
      exact ⟨final, .calls fetched (alike.inTime inTime) areArguments called resumed others, areAlike⟩
  | callFails fetched inTime areArguments _ notResumed ih =>
      obtain ⟨final, called, isAlike⟩ := ih alike.counted
      exact ⟨final, .callFails fetched (alike.inTime inTime) areArguments called notResumed, isAlike⟩

/-! ### Steps -/

def isCut {α : Type} : Except Halt α → Bool
  | .error (.failed (.stepLimit _)) => true
  | _ => false

theorem isCut_error {α : Type} {halt : Halt} (notLimit : halt.isLimit = false) :
    isCut (.error halt : Except Halt α) = false := by
  rcases halt with error | _
  · cases error <;> first | rfl | cases notLimit
  · rfl

/-- What a run counts: what takes effect, and the step that was one too many. -/
structure Nested.Counts (limits : Limits) (machine last : Nested)
    (outcome : Except Halt (Option Word)) (effects : Nat) : Prop where
  inTime : effects ≤ limits.steps - machine.state.steps
  steps : last.state.steps = machine.state.steps + effects + if isCut outcome then 1 else 0
  cut : isCut outcome → limits.steps < last.state.steps

theorem Frame.resume_error {frame : Frame} {callee : IR.FunctionId} {result : Option IR.Register}
    {value : Option Word} {halt : Halt}
    (notResumed : frame.resume ir callee result value = .error halt) : halt.isLimit = false := by
  unfold Frame.resume at notResumed
  split at notResumed
  · cases notResumed
  · split at notResumed <;> cases notResumed
    rfl
  · cases notResumed
    rfl

theorem Frame.returned_error {frame : Frame} {operand : Option IR.Operand} {halt : Halt}
    (notReturned : frame.returned ir operand = .error halt) : halt.isLimit = false := by
  cases operand with
  | none => cases notReturned
  | some operand =>
      cases isWord : frame.word ir operand with
      | ok word => simp [Frame.returned, isWord, Except.map] at notReturned
      | error other =>
          simp only [Frame.returned, isWord, Except.map] at notReturned
          cases notReturned
          exact Frame.word_error isWord

theorem Frame.isCut_returned (frame : Frame) (operand : Option IR.Operand) :
    isCut (frame.returned ir operand) = false := by
  cases isReturned : frame.returned ir operand with
  | ok value => rfl
  | error halt => exact isCut_error (Frame.returned_error isReturned)

theorem Frame.isCut_of_resumed {frame later : Frame} {callee : IR.FunctionId}
    {result : Option IR.Register} {given : Except Halt (Option Word)}
    (resumed : given.bind (frame.resume ir callee result) = .ok later) : isCut given = false := by
  cases given with
  | error halt => cases resumed
  | ok value => rfl

theorem Frame.isCut_of_resume {frame : Frame} {callee : IR.FunctionId} {result : Option IR.Register}
    {given : Except Halt (Option Word)} {halt : Halt}
    (notResumed : given.bind (frame.resume ir callee result) = .error halt) :
    isCut (.error halt : Except Halt (Option Word)) = isCut given := by
  cases given with
  | error other => rw [← Except.error.inj notResumed]
  | ok value => exact isCut_error (Frame.resume_error notResumed)

theorem Nested.Counts.behind {between : Nested} (inner : Nat)
    (counts : between.Counts limits last outcome effects)
    (steps : between.state.steps = machine.state.steps + 1 + inner)
    (inTime : machine.state.steps + inner < limits.steps) :
    machine.Counts limits last outcome (inner + effects + 1) := by
  obtain ⟨few, isCount, cut⟩ := counts
  exact ⟨by omega, by omega, cut⟩

theorem Task.Runs.counts (runs : task.Runs ir limits machine outcome effects last) :
    machine.Counts limits last outcome effects := by
  have still {machine : Nested} {outcome : Except Halt (Option Word)}
      (notCut : isCut outcome = false) {state : State} (holds : machine.state.Holds state) :
      machine.Counts limits { machine with state := state } outcome 0 :=
    ⟨Nat.zero_le _, by simp [notCut, holds.steps], by simp [notCut]⟩
  have once {machine : Nested} {outcome : Except Halt (Option Word)}
      (notCut : isCut outcome = false) (inTime : machine.state.steps < limits.steps) {state : State}
      (steps : state.steps = machine.state.steps + 1) :
      machine.Counts limits { machine with state := state } outcome 1 :=
    ⟨by omega, by simp [notCut, steps], by simp [notCut]⟩
  induction runs with
  | unknown | tooDeep => exact still rfl (.refl _)
  | unfinished notFetched => exact still (isCut_error (Frame.fetch_error notFetched)) (.refl _)
  | external _ _ called => exact still rfl ((Run.isLocal_callExternal _ _ _).of_ok called).1
  | externalFails _ _ called =>
      have fails := (Run.isLocal_callExternal _ _ _).of_error called
      exact still (isCut_error fails.2.1) fails.1
  | enters _ _ _ _ ih => exact ⟨ih.inTime, ih.steps, ih.cut⟩
  | outOfSteps _ isOver =>
      exact ⟨Nat.zero_le _, rfl, fun _ => Nat.lt_succ_of_le isOver⟩
  | goesOn _ inTime isPlain executed _ ih =>
      have behind := ih.behind 0 (Run.execute_ok isPlain executed).2.1.steps inTime
      rwa [Nat.zero_add] at behind
  | fails _ inTime isPlain executed =>
      obtain ⟨grows, notLimit, -⟩ := Run.execute_error isPlain executed
      exact once (isCut_error notLimit) inTime grows.steps
  | returns _ inTime => exact once (Frame.isCut_returned _ _) inTime rfl
  | notCalled _ inTime noArguments =>
      exact once (isCut_error (Frame.words_error noArguments)) inTime rfl
  | calls _ inTime _ _ resumed _ called others =>
      -- the callee has not been cut short, so it counts nothing but its effects
      obtain ⟨few, steps, -⟩ := called
      rw [Frame.isCut_of_resumed resumed] at steps
      simp only [Nested.counted, State.counted] at few steps
      exact others.behind _ steps (by omega)
  | callFails _ inTime _ _ notResumed called =>
      obtain ⟨few, steps, cut⟩ := called
      rw [← Frame.isCut_of_resume notResumed] at steps cut
      simp only [Nested.counted, State.counted] at few steps
      exact ⟨by omega, by omega, cut⟩

/-! ### Every task ends -/

namespace Task

theorem exists_runs_call (callee : IR.FunctionId) (arguments : List Word)
    (result : Option IR.Register)
    (bodies : ∀ frame, ∃ outcome effects last,
      (body frame).Runs ir limits machine.enter outcome effects last) :
    ∃ outcome effects last,
      (call callee arguments result).Runs ir limits machine outcome effects last := by
  cases isFunction : ir.functions[callee]? with
  | none => exact ⟨_, _, _, .unknown isFunction⟩
  | some function =>
      cases hasBody : function.isDeclaration with
      | true =>
          cases called : Run.callExternal ir callee arguments machine.state with
          | ok word state => exact ⟨_, _, _, .external isFunction hasBody called⟩
          | error halt state => exact ⟨_, _, _, .externalFails isFunction hasBody called⟩
      | false =>
          by_cases isDeep : limits.depth ≤ machine.depth
          · exact ⟨_, _, _, .tooDeep isFunction hasBody isDeep⟩
          · obtain ⟨outcome, effects, last, runs⟩ := bodies _
            exact ⟨_, _, _, .enters isFunction hasBody (Nat.lt_of_not_le isDeep) runs⟩

theorem exists_runs_body (left : Nat) (frame : Frame) (machine : Nested)
    (bound : limits.steps - machine.state.steps ≤ left) :
    ∃ outcome effects last, (body frame).Runs ir limits machine outcome effects last := by
  -- by induction on the steps that are left, of which the rest of a body has one less than the body
  induction left generalizing frame machine with
  | zero =>
      cases fetched : frame.fetch ir with
      | error halt => exact ⟨_, _, _, .unfinished fetched⟩
      | ok instruction => exact ⟨_, _, _, .outOfSteps fetched (by omega)⟩
  | succ left ih =>
      cases fetched : frame.fetch ir with
      | error halt => exact ⟨_, _, _, .unfinished fetched⟩
      | ok instruction =>
      by_cases isOver : limits.steps ≤ machine.state.steps
      · exact ⟨_, _, _, .outOfSteps fetched isOver⟩
      have inTime : machine.state.steps < limits.steps := Nat.lt_of_not_le isOver
      have less : limits.steps - machine.counted.state.steps ≤ left := by
        simp only [Nested.counted, State.counted]
        omega
      cases isPlain : instruction.isPlain with
      | true =>
          cases executed : Run.execute ir limits frame instruction machine.state.counted with
          | error halt state => exact ⟨_, _, _, .fails fetched inTime isPlain executed⟩
          | ok flow state =>
              obtain ⟨⟨later, rfl, -⟩, grows, -⟩ := Run.execute_ok isPlain executed
              have left : limits.steps - state.steps ≤ left := by rwa [grows.steps]
              obtain ⟨outcome, effects, last, others⟩ := ih later { machine with state := state } left
              exact ⟨_, _, _, .goesOn fetched inTime isPlain executed others⟩
      | false =>
          cases instruction with
          | ret operand => exact ⟨_, _, _, .returns fetched inTime⟩
          | call result callee operands =>
              cases areArguments : operands.mapM (frame.word ir) with
              | error halt => exact ⟨_, _, _, .notCalled fetched inTime areArguments⟩
              | ok arguments =>
                  obtain ⟨given, inner, between, called⟩ :=
                    exists_runs_call callee arguments result fun frame =>
                      ih frame machine.counted.enter less
                  cases resumed : given.bind (frame.resume ir callee result) with
                  | error halt =>
                      exact ⟨_, _, _, .callFails fetched inTime areArguments called resumed⟩
                  | ok later =>
                      have left : limits.steps - between.state.steps ≤ left := by
                        have := called.counts.steps
                        omega
                      obtain ⟨outcome, effects, last, others⟩ := ih later between left
                      exact ⟨_, _, _, .calls fetched inTime areArguments called resumed others⟩
          | _ => cases isPlain

theorem exists_runs (ir : IR.Module) (limits : Limits) (task : Task) (machine : Nested) :
    ∃ outcome effects last, task.Runs ir limits machine outcome effects last := by
  cases task with
  | body frame => exact exists_runs_body _ frame machine (Nat.le_refl _)
  | call callee arguments result =>
      exact exists_runs_call callee arguments result fun frame =>
        exists_runs_body _ frame machine.enter (Nat.le_refl _)

end Task

/-! ### Wider limits -/

def isLimited {α : Type} : Except Halt α → Bool
  | .error halt => halt.isLimit
  | .ok _ => false

/-- A run that ends for no limit is the same under wider ones. -/
theorem Task.Runs.widen {wider : Limits} (steps : limits.steps ≤ wider.steps)
    (depth : limits.depth ≤ wider.depth)
    (runs : task.Runs ir limits machine outcome effects last)
    (notLimited : isLimited outcome = false) :
    task.Runs ir wider machine outcome effects last := by
  induction runs with
  | unknown noFunction => exact .unknown noFunction
  | external isFunction noBody called => exact .external isFunction noBody called
  | externalFails isFunction noBody called => exact .externalFails isFunction noBody called
  | tooDeep | outOfSteps => cases notLimited
  | unfinished notFetched => exact .unfinished notFetched
  | enters isFunction hasBody notDeep _ ih =>
      exact .enters isFunction hasBody (Nat.lt_of_lt_of_le notDeep depth) (ih notLimited)
  | goesOn fetched inTime isPlain executed _ ih =>
      rw [Run.execute_limits isPlain wider] at executed
      exact .goesOn fetched (Nat.lt_of_lt_of_le inTime steps) isPlain executed (ih notLimited)
  | fails fetched inTime isPlain executed =>
      rw [Run.execute_limits isPlain wider] at executed
      exact .fails fetched (Nat.lt_of_lt_of_le inTime steps) isPlain executed
  | returns fetched inTime => exact .returns fetched (Nat.lt_of_lt_of_le inTime steps)
  | notCalled fetched inTime noArguments =>
      exact .notCalled fetched (Nat.lt_of_lt_of_le inTime steps) noArguments
  | @calls _ _ _ _ _ _ given _ _ _ _ _ _ fetched inTime areArguments _ resumed _ called others =>
      have isGiven : isLimited given = false := by
        cases given with
        | error halt => cases resumed
        | ok value => rfl
      exact .calls fetched (Nat.lt_of_lt_of_le inTime steps) areArguments (called isGiven) resumed
        (others notLimited)
  | @callFails _ _ _ _ _ _ given _ _ halt fetched inTime areArguments _ notResumed called =>
      have isGiven : isLimited given = false := by
        cases given with
        | error other => rwa [Except.error.inj notResumed]
        | ok value => rfl
      exact .callFails fetched (Nat.lt_of_lt_of_le inTime steps) areArguments (called isGiven)
        notResumed

end MiniPascal.Machine
