import MiniPascal.Proofs.Machine.Panics

/-!
# What limits do

Wider limits change nothing in a run that ends for none of them.  All calls of one machine together
have so many steps as the limit allows, and each of them ends, with a value or an error if the module
has all that it names; behind a call that was cut short, nothing takes effect any more.
-/

namespace MiniPascal.Machine

variable {ir : IR.Module} {limits : Limits} {machine last : Nested}

/-! ### Wider limits -/

namespace Call

theorem isLimited_answer (name : String) (outcome : Except Halt (Option Word)) :
    isLimited (answer name outcome) = isLimited outcome := by
  rcases outcome with halt | value
  · rfl
  · rcases value with _ | _ | _ <;> rfl

theorem isCut_answer (name : String) (outcome : Except Halt (Option Word)) :
    isCut (answer name outcome) = isCut outcome := by
  rcases outcome with (error | _) | value
  · cases error <;> rfl
  · rfl
  · rcases value with _ | _ | _ <;> rfl

theorem Runs.widen {call : Call} {wider : Limits} (runs : call.Runs ir limits machine last)
    (steps : limits.steps ≤ wider.steps) (depth : limits.depth ≤ wider.depth)
    (notLimited : isLimited call.result = false) : call.Runs ir wider machine last := by
  cases runs with
  | noEntry notNamed => exact .noEntry notNamed
  | ran isNamed runs =>
      rw [isLimited_answer] at notLimited
      exact .ran isNamed (runs.widen steps depth notLimited)

end Call

/-- A call of a fresh machine that ends for no limit ends in the same way under wider limits, on the
same machine: its output, what is unread of its input, and its steps among them. -/
theorem runFunction_widen (ir : IR.Module) {limits wider : Limits}
    (steps : limits.steps ≤ wider.steps) (depth : limits.depth ≤ wider.depth) (name : String)
    (console : Console)
    (notLimited : isLimited ((State.start ir console).runFunction ir limits name).1 = false) :
    (State.start ir console).runFunction ir wider name =
      (State.start ir console).runFunction ir limits name := by
  have idle := Nested.idle_start ir console
  obtain ⟨call, last, runs, rfl⟩ := Call.exists_runs ir limits name (.start ir console)
  have narrow : (State.start ir console).runFunction ir limits call.name =
      (call.result, last.state) := runs.runFunction idle
  rw [narrow] at notLimited ⊢
  exact (runs.widen steps depth notLimited).runFunction idle

def passesOn : IR.Module := ⟨"m", #[
  ⟨"main", 0, true, false, #[⟨"body", #[.call (some 0) 1 [], .ret (some (.register 0))]⟩], 1⟩,
  ⟨"seven", 0, true, false, #[⟨"body", #[.ret (some (.int 7))]⟩], 0⟩], #[]⟩

/-- Three steps and two activations are enough, and so is anything beyond. -/
theorem runFunction_widen_call :
    (3 ≤ Limits.standard.steps ∧ 2 ≤ Limits.standard.depth ∧
      isLimited ((State.start passesOn (.withInput [])).runFunction passesOn ⟨3, 2⟩ "main").1 = false) ∧
    (State.start passesOn (.withInput [])).runFunction passesOn .standard "main" =
      (State.start passesOn (.withInput [])).runFunction passesOn ⟨3, 2⟩ "main" := by
  have notLimited : isLimited
      ((State.start passesOn (.withInput [])).runFunction passesOn ⟨3, 2⟩ "main").1 = false := by
    decide +kernel
  exact ⟨⟨by decide, by decide, notLimited⟩,
    runFunction_widen passesOn (by decide) (by decide) "main" _ notLimited⟩

/-! ### Steps of all calls -/

namespace Call

variable {call : Call}

structure Counts (limits : Limits) (machine last : Nested) (call : Call) : Prop where
  inTime : call.effects ≤ limits.steps - machine.state.steps
  steps : last.state.steps = machine.state.steps + call.effects + if isCut call.result then 1 else 0
  cut : isCut call.result → limits.steps < last.state.steps

theorem Runs.counts (runs : call.Runs ir limits machine last) : call.Counts limits machine last := by
  cases runs with
  | noEntry => exact ⟨Nat.zero_le _, rfl, nofun⟩
  | ran _ runs =>
      obtain ⟨inTime, steps, cut⟩ := runs.counts
      constructor
      · exact inTime
      · rwa [isCut_answer]
      · rwa [isCut_answer]

end Call

def Call.allEffects : List Call → Nat
  | [] => 0
  | first :: others => first.effects + allEffects others

structure Calls.Counts (limits : Limits) (machine last : Nested) (calls : List Call) : Prop where
  inTime : Call.allEffects calls ≤ limits.steps - machine.state.steps
  steps : machine.state.steps ≤ last.state.steps
  cut : (∃ call ∈ calls, isCut call.result) → limits.steps < last.state.steps

theorem Calls.counts {names : List String} {calls : List Call}
    (runs : Calls ir limits machine names calls last) : Calls.Counts limits machine last calls := by
  induction runs with
  | nil => exact ⟨Nat.zero_le _, Nat.le_refl _, nofun⟩
  | panics _ first isPanic =>
      obtain ⟨few, steps, cut⟩ := first.counts
      refine ⟨few, by omega, ?_⟩
      simpa only [List.mem_singleton, exists_eq_left] using cut
  | cons first _ _ ih =>
      obtain ⟨few, steps, cut⟩ := first.counts
      obtain ⟨fewOthers, stepsOthers, cutOthers⟩ := ih
      refine ⟨?_, by omega, ?_⟩
      · rw [Call.allEffects]
        omega
      · rintro ⟨call, isCall, isCut⟩
        rcases List.mem_cons.1 isCall with rfl | isOther
        · exact Nat.lt_of_lt_of_le (cut isCut) stepsOthers
        · exact cutOthers ⟨call, isOther, isCut⟩

end MiniPascal.Machine
