import MiniPascal.Proofs.Machine.Agreement

/-!
# Calls from outside

A machine can be asked for one function after the other, also behind calls that have failed.  A call
ends, in the one way that the rules of the recursion allow, and leaves the machine idle: no function
active, none waiting, and no slot on the stack.
-/

namespace MiniPascal.Machine

variable {ir : IR.Module} {limits : Limits}

/-- A call from outside with what it has come to. -/
structure Call where
  name : String
  result : Except Halt Int32
  /-- How many instructions have taken effect. -/
  effects : Nat

namespace Call

def answer (name : String) : Except Halt (Option Word) → Except Halt Int32
  | .ok (some (.int value)) => .ok value
  | .ok (some (.pointer _)) => .error (.failed (.invalidPointer name))
  | .ok none => .ok 0
  | .error halt => .error halt

inductive Runs (ir : IR.Module) (limits : Limits) : Call → Nested → Nested → Prop
  | noEntry {name : String} {machine : Nested} (notNamed : ir.functionNamed? name = none) :
      Runs ir limits ⟨name, .error (.failed (.noEntry name)), 0⟩ machine machine
  | ran {name : String} {id : IR.FunctionId} {machine last : Nested}
      {outcome : Except Halt (Option Word)} {effects : Nat}
      (isNamed : ir.functionNamed? name = some id)
      (runs : (Task.call id [] none).Runs ir limits machine outcome effects last) :
      Runs ir limits ⟨name, answer name outcome, effects⟩ machine last

theorem exists_runs (ir : IR.Module) (limits : Limits) (name : String) (machine : Nested) :
    ∃ (call : Call) (last : Nested), call.Runs ir limits machine last ∧ call.name = name := by
  cases isNamed : ir.functionNamed? name with
  | none => exact ⟨_, _, .noEntry isNamed, rfl⟩
  | some id =>
      obtain ⟨outcome, effects, last, runs⟩ := Task.exists_runs ir limits (.call id [] none) machine
      exact ⟨_, _, .ran isNamed runs, rfl⟩

end Call

structure Nested.Idle (machine : Nested) : Prop where
  depth : machine.depth = 0
  callers : machine.state.callers = []
  stack : machine.state.stack = #[]

theorem Nested.idle_start (ir : IR.Module) (console : Console) : (Nested.start ir console).Idle :=
  ⟨rfl, rfl, rfl⟩

/-- Whatever a call comes to, it leaves an idle machine idle. -/
theorem Call.Runs.idle {call : Call} {machine last : Nested} (runs : call.Runs ir limits machine last)
    (idle : machine.Idle) : last.Idle := by
  cases runs with
  | noEntry => exact idle
  | ran _ runs =>
      have noSlots : last.state.stack.size = 0 := by rw [runs.height, idle.stack]; rfl
      exact ⟨runs.kept.depth.trans idle.depth, runs.kept.callers.trans idle.callers,
        Array.eq_empty_of_size_eq_zero noSlots⟩

theorem Call.Runs.alike {call : Call} {machine last other : Nested}
    (runs : call.Runs ir limits machine last) (alike : machine.Alike other) :
    ∃ final, call.Runs ir limits other final ∧ last.Alike final := by
  cases runs with
  | noEntry notNamed => exact ⟨other, .noEntry notNamed, alike⟩
  | ran isNamed runs =>
      obtain ⟨final, others, isAlike⟩ := runs.alike alike
      exact ⟨final, .ran isNamed others, isAlike⟩

/-! ### What the machine makes of a call -/

namespace Run

def settle (name : String) : EStateM.Result Halt State (Option Word) →
    EStateM.Result Halt State Int32
  | .ok (some (.int value)) state => .ok value state
  | .ok (some (.pointer _)) state => .error (.failed (.invalidPointer name)) state
  | .ok none state => .ok 0 state
  | .error halt state => .error halt state

def conclude (height : Nat) : EStateM.Result Halt State Int32 → Except Halt Int32 × State
  | .ok value state => (.ok value, state)
  | .error halt state => (.error halt, unwind height state)

section
variable {name : String} {id : IR.FunctionId} {state after : State}

theorem runFunction_eq (name : String) (state : State) :
    state.runFunction ir limits name =
      conclude state.stack.size (function ir limits name state) := by
  unfold State.runFunction
  cases function ir limits name state <;> rfl

theorem function_noEntry (notNamed : ir.functionNamed? name = none) (state : State) :
    function ir limits name state = .error (.failed (.noEntry name)) state := by
  simp only [function, notNamed]
  rfl

theorem function_gives {word : Word} (isNamed : ir.functionNamed? name = some id)
    (called : call ir limits id [] 0 none state = .ok (.inr word) after) :
    function ir limits name state = settle name (.ok (some word) after) := by
  simp only [function, isNamed]
  rw [bind_of_ok _ called]
  cases word <;> rfl

theorem function_fails {halt : Halt} (isNamed : ir.functionNamed? name = some id)
    (called : call ir limits id [] 0 none state = .error halt after) :
    function ir limits name state = .error halt after := by
  simp only [function, isNamed]
  exact bind_of_error _ called

theorem function_enters {body : Frame} (isNamed : ir.functionNamed? name = some id)
    (called : call ir limits id [] 0 none state = .ok (.inl body) after) :
    function ir limits name state = settle name (loop ir limits body after) := by
  simp only [function, isNamed]
  rw [bind_of_ok _ called]
  simp only [get_bind]
  cases ran : loop ir limits body after with
  | error halt last => exact bind_of_error _ ran
  | ok value last =>
      refine (bind_of_ok _ ran).trans ?_
      rcases value with _ | _ | _ <;> rfl

end

theorem unwind_eq {height : Nat} {state : State} {last : Nested}
    (agrees : state.AgreesBelow height last.state) (noCallers : last.state.callers = [])
    (isHeight : last.state.stack.size = height) : unwind height state = last.state := by
  obtain ⟨globals, console, steps, stack⟩ := agrees
  have whole : last.state.stack.shrink height = last.state.stack := by
    rw [← isHeight]
    simp
  simp only [unwind, State.dropSlots, globals, console, steps, stack, whole, ← noCallers]

theorem conclude_settle (name : String) (value : Option Word) {height : Nat} {last : Nested}
    (noCallers : last.state.callers = []) (isHeight : last.state.stack.size = height) :
    conclude height (settle name (.ok value last.state)) =
      (Call.answer name (.ok value), last.state) := by
  rcases value with _ | _ | pointer
  case some.pointer =>
    exact congrArg (Prod.mk _) (unwind_eq ⟨rfl, rfl, rfl, rfl⟩ noCallers isHeight)
  all_goals rfl

end Run

open Run in
/-- The machine does what the rules say. -/
theorem Call.Runs.runFunction {call : Call} {machine last : Nested}
    (runs : call.Runs ir limits machine last) (idle : machine.Idle) :
    machine.state.runFunction ir limits call.name = (call.result, last.state) := by
  have noCallers : last.state.callers = [] := (runs.idle idle).callers
  rw [runFunction_eq]
  cases runs with
  | noEntry notNamed =>
      rw [function_noEntry notNamed]
      exact congrArg (Prod.mk _) (unwind_eq ⟨rfl, rfl, rfl, rfl⟩ noCallers rfl)
  | @ran _ _ _ _ outcome _ isNamed runs =>
      have isFirst : machine.state.under [] = machine.state := State.under_self idle.callers
      have isLast : last.state.under [] = last.state := State.under_self noCallers
      have isHeight := runs.height
      have loops : Called ir limits _ [] none machine _ last := runs.loops
      cases loops with
      | gives _ called =>
          have called := called []
          rw [idle.depth, isFirst, isLast] at called
          rw [function_gives isNamed called]
          exact conclude_settle _ _ noCallers isHeight
      | fails called =>
          have called := called []
          rw [idle.depth, isFirst, isLast] at called
          rw [function_fails isNamed called]
          exact congrArg (Prod.mk _) (unwind_eq ⟨rfl, rfl, rfl, rfl⟩ noCallers isHeight)
      | @enters body _ inner called base _ _ follows =>
          have called := called []
          have follows := follows []
          rw [isFirst] at called follows
          rw [idle.depth] at called
          rw [function_enters isNamed called]
          cases outcome with
          | error halt =>
              -- the loop stops with the slots of all functions on its stack, and unwinding drops them
              obtain ⟨state, ran, agrees⟩ := follows
              rw [base] at agrees
              rw [ran]
              exact congrArg (Prod.mk _)
                (unwind_eq (agrees.leave (Nat.le_refl _)) noCallers isHeight)
          | ok value =>
              rw [Follows, returnFrom_done _ rfl, base] at follows
              have ran : loop ir limits body machine.state =
                  .ok value (inner.leave machine.state.stack.size).state := by
                rw [← isLast]
                exact follows
              rw [ran]
              exact conclude_settle _ _ noCallers isHeight

/-! ### One call after the other -/

/-- Calls of one machine for functions of these names, each on what the calls before it have left.
There is no call behind a panic. -/
inductive Calls (ir : IR.Module) (limits : Limits) : Nested → List String → List Call → Nested → Prop
  | nil (machine : Nested) : Calls ir limits machine [] [] machine
  | cons {call : Call} {names : List String} {calls : List Call} {machine between last : Nested}
      (first : call.Runs ir limits machine between) (returns : call.result ≠ .error .panic)
      (others : Calls ir limits between names calls last) :
      Calls ir limits machine (call.name :: names) (call :: calls) last
  | panics {call : Call} (names : List String) {machine last : Nested}
      (first : call.Runs ir limits machine last) (isPanic : call.result = .error .panic) :
      Calls ir limits machine (call.name :: names) [call] last

namespace Calls

theorem exists_calls (ir : IR.Module) (limits : Limits) (names : List String) (machine : Nested) :
    ∃ calls last, Calls ir limits machine names calls last := by
  induction names generalizing machine with
  | nil => exact ⟨_, _, .nil machine⟩
  | cons name names ih =>
      obtain ⟨call, between, first, rfl⟩ := Call.exists_runs ir limits name machine
      by_cases isPanic : call.result = .error .panic
      · exact ⟨_, _, .panics names first isPanic⟩
      · obtain ⟨calls, last, others⟩ := ih between
        exact ⟨_, _, .cons first isPanic others⟩

variable {names : List String} {calls : List Call} {machine last : Nested}

theorem idle (runs : Calls ir limits machine names calls last) (idle : machine.Idle) : last.Idle := by
  induction runs with
  | nil => exact idle
  | cons first _ _ ih => exact ih (first.idle idle)
  | panics _ first => exact first.idle idle

theorem alike (runs : Calls ir limits machine names calls last) {other : Nested}
    (alike : machine.Alike other) :
    ∃ final, Calls ir limits other names calls final ∧ last.Alike final := by
  induction runs generalizing other with
  | nil => exact ⟨other, .nil other, alike⟩
  | cons first returns _ ih =>
      obtain ⟨between, second, isAlike⟩ := first.alike alike
      obtain ⟨final, others, areAlike⟩ := ih isAlike
      exact ⟨final, .cons second returns others, areAlike⟩
  | panics names first isPanic =>
      obtain ⟨final, second, isAlike⟩ := first.alike alike
      exact ⟨final, .panics names second isPanic, isAlike⟩

theorem runFunctions (runs : Calls ir limits machine names calls last) (idle : machine.Idle) :
    machine.state.runFunctions ir limits names = (calls.map (·.result), last.state) := by
  induction runs with
  | nil => rfl
  | cons first returns _ ih =>
      rw [State.runFunctions, first.runFunction idle]
      split
      · rename_i isResult
        exact absurd (congrArg Prod.fst isResult) returns
      · rename_i isResult
        cases isResult
        rw [ih (first.idle idle), List.map_cons]
  | panics names first isPanic =>
      rw [State.runFunctions, first.runFunction idle, isPanic, List.map_singleton, isPanic]

end Calls

theorem Nested.Idle.alike {first second : Nested} (h₁ : first.Idle) (h₂ : second.Idle)
    (globals : SameCells first.state.globals second.state.globals)
    (console : second.state.console = first.state.console)
    (steps : second.state.steps = first.state.steps) : first.Alike second :=
  ⟨h₂.depth.trans h₁.depth.symm, globals, h₂.stack.trans h₁.stack.symm,
    h₂.callers.trans h₁.callers.symm, console, steps⟩

theorem Calls.last_eq {console : Console} {names : List String} {calls : List Call} {last : Nested}
    (runs : Calls ir limits (.start ir console) names calls last) :
    last = ⟨((State.start ir console).runFunctions ir limits names).2, 0⟩ := by
  have idle := Nested.idle_start ir console
  have ran : (State.start ir console).runFunctions ir limits names =
      (calls.map (·.result), last.state) := runs.runFunctions idle
  rw [ran, ← (runs.idle idle).depth]

theorem Calls.idle_runFunctions (ir : IR.Module) (limits : Limits) (console : Console)
    (names : List String) :
    let after : Nested := ⟨((State.start ir console).runFunctions ir limits names).2, 0⟩
    after.Idle ∧ ∃ calls, Calls ir limits (.start ir console) names calls after := by
  obtain ⟨calls, last, runs⟩ := Calls.exists_calls ir limits names (.start ir console)
  intro after
  have isLast : last = after := runs.last_eq
  rw [← isLast]
  exact ⟨runs.idle (Nested.idle_start ir console), calls, runs⟩

/-- Behind any calls, whatever they have come to and however deep they have failed, no function is
active, none waits and the stack is empty.  What has been before matters to later calls only through
the integers in the globals, the console and the count of steps. -/
theorem runFunctions_unwind (ir : IR.Module) (limits : Limits) (console : Console)
    (names : List String) :
    let after := ((State.start ir console).runFunctions ir limits names).2
    (∀ last, (∃ calls, Calls ir limits (.start ir console) names calls last) ↔ last = ⟨after, 0⟩) ∧
      after.stack = #[] ∧ after.callers = [] ∧
      ∀ (otherConsole : Console) (otherNames : List String),
        let other := ((State.start ir otherConsole).runFunctions ir limits otherNames).2
        SameCells after.globals other.globals → other.console = after.console →
          other.steps = after.steps → ∀ later,
            (other.runFunctions ir limits later).1 = (after.runFunctions ir limits later).1 ∧
            (after.runFunctions ir limits later).2.Alike (other.runFunctions ir limits later).2 := by
  intro after
  obtain ⟨idle, exists_⟩ := Calls.idle_runFunctions ir limits console names
  refine ⟨fun last => ⟨?_, fun isLast => isLast ▸ exists_⟩, idle.stack, idle.callers, ?_⟩
  · rintro ⟨calls, runs⟩
    exact runs.last_eq
  · intro otherConsole otherNames other globals console steps later
    have otherIdle := (Calls.idle_runFunctions ir limits otherConsole otherNames).1
    obtain ⟨calls, last, runs⟩ := Calls.exists_calls ir limits later ⟨after, 0⟩
    obtain ⟨final, others, isAlike⟩ := runs.alike (idle.alike otherIdle globals console steps)
    have ran : after.runFunctions ir limits later = _ := runs.runFunctions idle
    have otherRan : other.runFunctions ir limits later = _ := others.runFunctions otherIdle
    rw [ran, otherRan]
    exact ⟨rfl, isAlike.state⟩

/-- A function that fails inside of a call, and one that returns at once.  One writes a zero where
the other one writes nothing. -/
def failsAndReturns : IR.Module := ⟨"m", #[
  ⟨"fails", 0, false, false,
    #[⟨"body", #[.store (.int 0) (.global 0), .call none 0 [], .ret none]⟩], 0⟩,
  ⟨"returns", 0, false, false, #[⟨"body", #[.jump ⟨1, 1⟩]⟩, ⟨"end", #[.ret none]⟩], 0⟩],
  #[⟨"x", .array 1, false, .internal⟩]⟩

theorem runFunctions_unwind_call :
    let fresh := State.start failsAndReturns (.withInput [])
    let fails := fresh.runFunctions failsAndReturns ⟨9, 1⟩ ["fails"]
    let returns := fresh.runFunctions failsAndReturns ⟨9, 1⟩ ["returns"]
    (fails.1 = [.error (.failed (.callDepth 1))] ∧ returns.1 = [.ok 0] ∧
      SameCells fails.2.globals returns.2.globals ∧ returns.2.console = fails.2.console ∧
      returns.2.steps = fails.2.steps) ∧
    fails.2.stack = #[] ∧ fails.2.callers = [] ∧
    ∀ later, (returns.2.runFunctions failsAndReturns ⟨9, 1⟩ later).1 =
      (fails.2.runFunctions failsAndReturns ⟨9, 1⟩ later).1 := by
  intro fresh fails returns
  have failed : fails.1 = [.error (.failed (.callDepth 1))] := by decide +kernel
  have returned : returns.1 = [.ok 0] := by decide +kernel
  have console : returns.2.console = fails.2.console := by decide +kernel
  have steps : returns.2.steps = fails.2.steps := by decide +kernel
  have globals : SameCells fails.2.globals returns.2.globals := by decide +kernel
  obtain ⟨-, stack, callers, later⟩ :=
    runFunctions_unwind failsAndReturns ⟨9, 1⟩ (.withInput []) ["fails"]
  have alike := later (.withInput []) ["returns"] globals console steps
  exact ⟨⟨failed, returned, globals, console, steps⟩, stack, callers, fun names => (alike names).1⟩

end MiniPascal.Machine
