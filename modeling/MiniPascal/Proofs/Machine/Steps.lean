import MiniPascal.Machine.Run
import MiniPascal.Proofs.Ensures

/-!
# Runs, step by step

A configuration is a machine between two instructions.  `Config.Runs` counts the instructions
between two configurations of one call of the machine, and the lemmas below say what the loop of the
machine makes of them, given a budget.
-/

namespace MiniPascal.Machine

structure Config where
  frame : Frame
  state : State

def State.counted (state : State) : State := { state with steps := state.steps + 1 }

namespace Config

variable {ir : IR.Module} {limits : Limits}

def Throws (ir : IR.Module) (limits : Limits) (config : Config) (error : RunError)
    (state : State) : Prop :=
  ∃ instruction, config.frame.fetch ir = .ok instruction ∧
    Run.execute ir limits config.frame instruction config.state.counted =
      .error (.failed error) state

/-- So many instructions lead from one configuration to the other. -/
inductive Runs (ir : IR.Module) (limits : Limits) : Config → Nat → Config → Prop
  | refl (config : Config) : Runs ir limits config 0 config
  | step {config last : Config} {instruction : IR.Instruction} {frame : Frame} {state : State}
      {count : Nat} (fetched : config.frame.fetch ir = .ok instruction)
      (executed : Run.execute ir limits config.frame instruction config.state.counted =
        .ok (.next frame) state)
      (others : Runs ir limits ⟨frame, state⟩ count last) : Runs ir limits config (count + 1) last

theorem Runs.one {config : Config} {instruction : IR.Instruction} {frame : Frame} {state : State}
    (fetched : config.frame.fetch ir = .ok instruction)
    (executed : Run.execute ir limits config.frame instruction config.state.counted =
      .ok (.next frame) state) : Runs ir limits config 1 ⟨frame, state⟩ :=
  .step fetched executed (.refl _)

theorem Runs.trans {first second third : Config} {count more : Nat}
    (h₁ : Runs ir limits first count second) (h₂ : Runs ir limits second more third) :
    Runs ir limits first (count + more) third := by
  induction h₁ with
  | refl config => simpa using h₂
  | step fetched executed others ih =>
      rw [Nat.add_right_comm]
      exact .step fetched executed (ih h₂)

end Config

namespace Run

variable {ir : IR.Module} {limits : Limits}

theorem go_zero {frame : Frame} {state : State} {instruction : IR.Instruction}
    (fetched : frame.fetch ir = .ok instruction) :
    go ir limits 0 frame state = .error (.failed (.stepLimit limits.steps)) state.counted := by
  simp only [go, fetched, ofExcept, pure_bind]
  rfl

theorem go_succ {frame : Frame} {state : State} {instruction : IR.Instruction} (budget : Nat)
    (fetched : frame.fetch ir = .ok instruction) :
    go ir limits (budget + 1) frame state =
      match execute ir limits frame instruction state.counted with
      | .ok (.next frame) state => go ir limits budget frame state
      | .ok (.done value) state => .ok value state
      | .error halt state => .error halt state := by
  simp only [go, fetched, ofExcept, pure_bind]
  change (execute ir limits frame instruction >>= _) state.counted = _
  rw [bind_run]
  cases execute ir limits frame instruction state.counted with
  | ok flow state => cases flow <;> rfl
  | error halt state => rfl

/-- The loop follows a run as far as the budget goes. -/
theorem go_of_runs {config last : Config} {count budget : Nat}
    (runs : config.Runs ir limits count last) (enough : count ≤ budget) :
    go ir limits budget config.frame config.state =
      go ir limits (budget - count) last.frame last.state := by
  induction runs generalizing budget with
  | refl config => simp
  | step fetched executed others ih =>
      cases budget with
      | zero => omega
      | succ budget =>
          rw [go_succ budget fetched, executed]
          simpa using ih (by omega)

theorem go_stepLimit {config last : Config} {count budget : Nat}
    (runs : config.Runs ir limits count last) (tooFew : budget < count) :
    ∃ state, go ir limits budget config.frame config.state =
      .error (.failed (.stepLimit limits.steps)) state := by
  induction runs generalizing budget with
  | refl config => omega
  | step fetched executed others ih =>
      cases budget with
      | zero => exact ⟨_, go_zero fetched⟩
      | succ budget =>
          rw [go_succ budget fetched, executed]
          exact ih (by omega)

/-! ### Whole runs -/

theorem execute_depth (ir : IR.Module) (depth steps others : Nat) :
    execute ir ⟨steps, depth⟩ = execute ir ⟨others, depth⟩ := by
  funext frame instruction
  cases instruction with
  | ret value => cases value <;> rfl
  | _ => rfl

end Run

namespace Config

variable {ir : IR.Module} {limits : Limits}

/-- The next instruction ends the run: it fails, or it returns from the outermost function. -/
def Ends (ir : IR.Module) (limits : Limits) (config : Config)
    (result : EStateM.Result Halt State (Option Word)) : Prop :=
  ∃ instruction, config.frame.fetch ir = .ok instruction ∧
    match Run.execute ir limits config.frame instruction config.state.counted with
    | .ok (.done value) state => result = .ok value state
    | .ok (.next _) _ => False
    | .error halt state => result = .error halt state

theorem Throws.ends {config : Config} {error : RunError} {state : State}
    (throws : config.Throws ir limits error state) :
    config.Ends ir limits (.error (.failed error) state) := by
  obtain ⟨instruction, fetched, executed⟩ := throws
  refine ⟨instruction, fetched, ?_⟩
  rw [executed]

theorem Runs.depth {config last : Config} {count steps depth : Nat} (others : Nat)
    (runs : config.Runs ir ⟨steps, depth⟩ count last) : config.Runs ir ⟨others, depth⟩ count last := by
  induction runs with
  | refl config => exact .refl config
  | step fetched executed _ ih =>
      rw [Run.execute_depth ir depth steps others] at executed
      exact .step fetched executed ih

theorem Ends.depth {config : Config} {steps depth : Nat} (others : Nat)
    {result : EStateM.Result Halt State (Option Word)}
    (ends : config.Ends ir ⟨steps, depth⟩ result) : config.Ends ir ⟨others, depth⟩ result := by
  unfold Ends at ends ⊢
  rwa [Run.execute_depth ir depth others steps]

end Config

namespace Run

variable {ir : IR.Module} {limits : Limits}

theorem go_of_ends {config last : Config} {count budget : Nat}
    {result : EStateM.Result Halt State (Option Word)}
    (runs : config.Runs ir limits count last) (ends : last.Ends ir limits result) :
    (count < budget → go ir limits budget config.frame config.state = result) ∧
      (budget ≤ count → ∃ state, go ir limits budget config.frame config.state =
        .error (.failed (.stepLimit limits.steps)) state) := by
  obtain ⟨instruction, fetched, isResult⟩ := ends
  constructor
  · intro enough
    obtain ⟨others, isBudget⟩ := Nat.exists_eq_add_of_lt enough
    rw [go_of_runs runs (Nat.le_of_lt enough), show budget - count = others + 1 by omega,
      go_succ others fetched]
    generalize execute ir limits last.frame instruction last.state.counted = executed at isResult
    match executed with
    | .ok (.done value) state => exact isResult.symm
    | .ok (.next _) _ => exact isResult.elim
    | .error halt state => exact isResult.symm
  · intro tooFew
    rcases Nat.lt_or_eq_of_le tooFew with tooFew | rfl
    · exact go_stepLimit runs tooFew
    · rw [go_of_runs runs (Nat.le_refl _), Nat.sub_self, go_zero fetched]
      exact ⟨_, rfl⟩

end Run

end MiniPascal.Machine
