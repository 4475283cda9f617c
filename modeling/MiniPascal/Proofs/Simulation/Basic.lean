import MiniPascal.Proofs.Evaluation.Basic
import MiniPascal.Proofs.Machine.Steps

/-!
# Simulation of evaluations

`Simulates` says that the machine goes the way of an evaluation: to a configuration that fits the
value, or to an instruction that fails as the evaluation does.  An evaluation that runs out of fuel
keeps the machine busy for as many instructions, and instead of going on the machine may find that
too many calls are active.
-/

namespace MiniPascal

open Evaluation (Stop Memory Eval)
open Machine (Config Limits RunError State)

variable {ir : IR.Module} {limits : Limits}

def Evaluation.Memory.console (memory : Memory) : Console := ⟨memory.output, memory.input⟩

def Evaluation.Stop.Matches : Stop → RunError → Prop
  | .divisionByZero, .divisionByZero _ => True
  | .outOfBounds, .outOfBounds _ _ _ => True
  | _, _ => False

/-- The machine at a configuration does what the evaluation has stopped for. -/
def Stops (ir : IR.Module) (limits : Limits) (bound count : Nat) (config : Config) (stop : Stop)
    (memory : Memory) : Prop :=
  (stop = .outOfFuel ∧ bound ≤ count) ∨
    ∃ error state, config.Throws ir limits error state ∧ stop.Matches error ∧
      state.console = memory.console

variable {α β : Type}

def Simulates (ir : IR.Module) (limits : Limits) (bound : Nat) (deep : Prop) (config : Config)
    (result : EStateM.Result Stop Memory α) (good : α → Memory → Config → Prop) : Prop :=
  ∃ count last, config.Runs ir limits count last ∧
    ((∃ state, last.Throws ir limits (.callDepth limits.depth) state ∧ deep) ∨
      match result with
      | .ok value memory => good value memory last
      | .error stop memory => Stops ir limits bound count last stop memory)

namespace Simulates

variable {bound : Nat} {deep : Prop} {config : Config}

theorem done {value : α} {memory : Memory} {good : α → Memory → Config → Prop}
    (h : good value memory config) : Simulates ir limits bound deep config (.ok value memory) good :=
  ⟨0, config, .refl config, .inr h⟩

theorem after {count : Nat} {next : Config} {result : EStateM.Result Stop Memory α}
    {good : α → Memory → Config → Prop} (runs : config.Runs ir limits count next)
    (h : Simulates ir limits bound deep next result good) :
    Simulates ir limits (bound + count) deep config result good := by
  obtain ⟨more, last, others, outcome⟩ := h
  refine ⟨count + more, last, runs.trans others, outcome.imp_right ?_⟩
  cases result with
  | ok value memory => exact id
  | error stop memory =>
      intro stops
      apply stops.imp_left
      rintro ⟨isFuel, enough⟩
      exact ⟨isFuel, by omega⟩

theorem mono {few : Nat} {shallow : Prop} {result : EStateM.Result Stop Memory α}
    {good better : α → Memory → Config → Prop}
    (h : Simulates ir limits bound deep config result better) (le : few ≤ bound)
    (weaker : deep → shallow) (imp : ∀ value memory last, better value memory last →
      good value memory last) : Simulates ir limits few shallow config result good := by
  obtain ⟨count, last, runs, outcome⟩ := h
  refine ⟨count, last, runs, ?_⟩
  rcases outcome with ⟨state, throws, isDeep⟩ | outcome
  · exact .inl ⟨state, throws, weaker isDeep⟩
  · cases result with
    | ok value memory => exact .inr (imp _ _ _ outcome)
    | error stop memory =>
        right
        apply outcome.imp_left
        rintro ⟨isFuel, enough⟩
        exact ⟨isFuel, by omega⟩

theorem weaken {result : EStateM.Result Stop Memory α} {good better : α → Memory → Config → Prop}
    (h : Simulates ir limits bound deep config result better)
    (imp : ∀ value memory last, better value memory last → good value memory last) :
    Simulates ir limits bound deep config result good :=
  h.mono (Nat.le_refl _) id imp

theorem steps {count : Nat} {next : Config} {result : EStateM.Result Stop Memory α}
    {good : α → Memory → Config → Prop} (runs : config.Runs ir limits count next)
    (h : Simulates ir limits bound deep next result good) :
    Simulates ir limits bound deep config result good :=
  (h.after runs).mono (Nat.le_add_right _ _) id fun _ _ _ => id

theorem throws {stop : Stop} {memory : Memory} {error : RunError} {state : State}
    {good : α → Memory → Config → Prop} (h : config.Throws ir limits error state)
    (isMatch : stop.Matches error) (same : state.console = memory.console) :
    Simulates ir limits bound deep config (.error stop memory) good :=
  ⟨0, config, .refl config, .inr (.inr ⟨error, state, h, isMatch, same⟩)⟩

theorem extend {result : EStateM.Result Stop Memory α} {good better : α → Memory → Config → Prop}
    (h : Simulates ir limits bound deep config result good)
    (more : ∀ value memory last, good value memory last →
      ∃ count next, last.Runs ir limits count next ∧ better value memory next) :
    Simulates ir limits bound deep config result better := by
  obtain ⟨count, last, runs, outcome⟩ := h
  rcases outcome with isDeep | outcome
  · exact ⟨count, last, runs, .inl isDeep⟩
  · cases result with
    | error stop memory => exact ⟨count, last, runs, .inr outcome⟩
    | ok value memory =>
        obtain ⟨others, next, further, isBetter⟩ := more value memory last outcome
        exact ⟨count + others, next, runs.trans further, .inr isBetter⟩

theorem recast {value : α} {other : β} {memory : Memory} {good : α → Memory → Config → Prop}
    {better : β → Memory → Config → Prop}
    (h : Simulates ir limits bound deep config (.ok value memory) good)
    (imp : ∀ last, good value memory last → better other memory last) :
    Simulates ir limits bound deep config (.ok other memory) better := by
  obtain ⟨count, last, runs, outcome⟩ := h
  exact ⟨count, last, runs, outcome.imp_right (imp last)⟩

theorem bind {action : Eval α} {next : α → Eval β} {memory : Memory}
    {good : α → Memory → Config → Prop} {better : β → Memory → Config → Prop}
    (first : Simulates ir limits bound deep config (action memory) good)
    (second : ∀ value memory' last, good value memory' last →
      Simulates ir limits bound deep last (next value memory') better) :
    Simulates ir limits bound deep config ((action >>= next) memory) better := by
  rw [bind_run]
  obtain ⟨count, last, runs, outcome⟩ := first
  rcases outcome with isDeep | outcome
  · exact ⟨count, last, runs, .inl isDeep⟩
  · cases result : action memory with
    | error stop memory' =>
        rw [result] at outcome
        exact ⟨count, last, runs, .inr outcome⟩
    | ok value memory' =>
        rw [result] at outcome
        exact (second value memory' last outcome).steps runs

end Simulates

end MiniPascal
