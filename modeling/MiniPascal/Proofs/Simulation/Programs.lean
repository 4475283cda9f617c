import MiniPascal.Proofs.Simulation.Accounts

/-!
# Programs that run

A run of a module does what the evaluation of its program's tree does, unless one of the limits ends
it, and limits that are high enough end no run of an evaluation that ends.
-/

namespace MiniPascal

open Evaluation (Eval Memory Place Names Scope Meaning Stop Outcome)
open IR (Operand)
open Lower (Lists)
open Machine (Cells Config Frame Halt Limits RunError State Word)

/-! ### Programs that have been translated -/

variable {moduleName : String} {state : Lowering} {done : List Statement} {stock : Stock}
  {code : IR.FunctionId → Heading → List Statement → Prop} {names : Names}

/-- What the globals and functions of a program are in the end. -/
def Lowering.plan (state : Lowering) (stock : Stock)
    (code : IR.FunctionId → Heading → List Statement → Prop) : Plan :=
  ⟨state.builder.ir, stock.owner, code⟩

theorem Stock.Fits.fair (fits : stock.Fits state) : (state.plan stock code).Fair where
  injective := fits.injective
  changes id home isHome := by
    obtain ⟨global, isGlobal, notConstant, -⟩ := fits.global id home isHome
    exact ⟨global, isGlobal, notConstant⟩
  single id name global isHome isGlobal := by
    obtain ⟨other, isOther, -, -, isInt⟩ := fits.global id _ isHome
    obtain rfl := Option.some.inj (isGlobal.symm.trans isOther)
    rw [isInt name rfl]
    rfl

namespace Accounts

variable (accounts : Accounts moduleName state done stock code names)

include accounts

theorem support : state.support.Fair state.builder.ir := by
  obtain ⟨printf, isPrintf⟩ := accounts.lists.printf
  obtain ⟨scanf, isScanf⟩ := accounts.lists.scanf
  rw [accounts.lists.support]
  exact ⟨⟨printf, isPrintf⟩, ⟨scanf, isScanf⟩,
    ⟨0, _, rfl, IR.getElem?_of_prefix accounts.texts rfl, rfl, rfl⟩,
    ⟨1, _, rfl, IR.getElem?_of_prefix accounts.texts rfl, rfl, rfl⟩,
    ⟨2, _, rfl, IR.getElem?_of_prefix accounts.texts rfl, rfl, rfl⟩⟩

theorem knows (isNil : state.symbols.undefinedForwards = []) :
    (state.plan stock code).Knows names state.symbols := by
  intro name entry isEntry
  have agrees := accounts.agrees (state.plan stock code) ⟨List.prefix_rfl, fun _ _ isHome => isHome⟩
    fun _ _ _ isCode => isCode
  unfold SymbolTable.getOuter? at isEntry
  cases isForward : state.symbols.forwards.lookup name with
  | none =>
      rw [isForward, Option.none_or] at isEntry
      exact agrees.exists_meaning isEntry
  | some found =>
      rw [isForward, Option.some_or, Option.some.injEq] at isEntry
      subst isEntry
      have isIn := Table.mem_of_lookup isForward
      obtain ⟨heading, -, -, -, -, notConstant, id, isStorage, -⟩ :=
        accounts.lists.forwards name found isIn
      obtain ⟨definition, isDefinition⟩ :=
        Table.exists_of_has (Lower.has_of_undefinedForwards_eq_nil isNil isIn)
      obtain ⟨sameShape, sameStorage⟩ := accounts.forwards name found definition isForward isDefinition
      obtain ⟨meaning, isMeaning, means⟩ := agrees.exists_meaning isDefinition
      refine ⟨meaning, isMeaning, ?_⟩
      rw [isStorage] at sameStorage
      cases meaning with
      | callable heading body =>
          obtain ⟨isName, isShape, -, notBuiltin, other, isFunction, isCode⟩ := means
          refine ⟨isName, sameShape.symm.trans isShape, notConstant, notBuiltin, other, ?_, isCode⟩
          rw [isStorage, ← sameStorage, isFunction]
      | constant value =>
          obtain ⟨-, -, other, global, isAddress, -⟩ := means
          cases sameStorage.symm.trans isAddress
      | scalar place =>
          obtain ⟨-, -, pointer, isAddress, -⟩ := means
          cases sameStorage.symm.trans isAddress
      | array array low high =>
          obtain ⟨-, -, other, global, isAddress, -⟩ := means
          cases sameStorage.symm.trans isAddress
      | builtin builtin =>
          obtain ⟨-, -, -, isBuiltin⟩ := means
          cases sameStorage.symm.trans isBuiltin

theorem completes (isNil : state.symbols.undefinedForwards = []) :
    (state.plan stock code).Completes names state stock where
  fair := accounts.fits.fair
  covers := ⟨List.prefix_rfl, fun _ _ isHome => isHome⟩
  functions _ _ isFunction _ := isFunction
  knows := accounts.knows isNil
  support := accounts.support
  bodies id heading body isCode := accounts.hasBody id heading body isCode

theorem calls (isNil : state.symbols.undefinedForwards = []) (limits : Limits) (fuel : Nat) :
    (state.plan stock code).Calls limits fuel (Evaluation.invoke names fuel) := by
  induction fuel with
  | zero =>
      intro id heading body isCode arguments sameLength activation memory config begins
      exact ⟨0, config, .refl config, .inr (.inl ⟨rfl, Nat.le_refl _⟩)⟩
  | succ fuel ih =>
      intro id heading body isCode
      exact accounts.performs id heading body isCode _ names (accounts.completes isNil) limits fuel ih

theorem functionNamed?_mainName {id : IR.FunctionId} {function : IR.Function}
    (isFunction : state.builder.ir.functions[id]? = some function)
    (isMain : state.symbols.IsFunction mainName id) :
    state.builder.ir.functionNamed? mainName = some id := by
  obtain ⟨bound, isThere⟩ := Array.getElem?_eq_some_iff.1 isFunction
  refine Array.findIdx?_eq_some_iff_getElem.2 ⟨bound, ?_, fun other before => ?_⟩
  · rw [isThere, beq_iff_eq]
    exact (accounts.main id function isFunction).2 isMain
  · rw [Bool.not_eq_true, beq_eq_false_iff_ne]
    intro isName
    obtain ⟨entry, isEntry, isStorage⟩ := isMain
    obtain ⟨found, isFound, isOther⟩ :=
      (accounts.main other _ (Array.getElem?_eq_getElem (Nat.lt_trans before bound))).1 isName
    obtain rfl := Option.some.inj (isEntry.symm.trans isFound)
    rw [isStorage, Storage.function.injEq] at isOther
    exact Nat.ne_of_lt before isOther.symm

end Accounts

/-! ### Programs in memory -/

theorem Stock.Fits.holds_start (fits : stock.Fits state) (input : List Int32) :
    (state.plan stock code).Holds ⟨[], [], 1, none⟩ [] (.start input)
      (State.start state.builder.ir (Console.withInput input)) := by
  refine ⟨fun id global isGlobal => ?_, rfl, rfl, rfl⟩
  have isGlobal : state.builder.ir.globals[id]? = some global := isGlobal
  refine ⟨Cells.ofContent global.content, ?_, rfl, fun _ => rfl, fun home isHome index _ => ?_⟩
  · simp [State.start, isGlobal]
  · obtain ⟨other, isOther, -, isZero, -⟩ := fits.global id home isHome
    obtain rfl := Option.some.inj (isGlobal.symm.trans isOther)
    rw [isZero]
    cases home <;> rfl

/-! ### Runs -/

/-- The evaluation and the run end alike: with the same value or for the same reason. -/
def Evaluation.SameEnd : Except Stop Int32 → Except Halt Int32 → Prop
  | .ok value, .ok result => result = value
  | .error stop, .error (.failed error) => stop.Matches error
  | _, _ => False

/-- A run comes to the outcome of an evaluation, with the same output and the same unread input. -/
structure Evaluation.Matches (outcome : Outcome) (run : Except Halt Int32 × State) : Prop where
  result : SameEnd outcome.result run.1
  output : run.2.console.output = outcome.output
  unread : run.2.console.input = outcome.unread

theorem Evaluation.Matches.of_console {memory : Memory} {result : Except Stop Int32}
    {run : Except Halt Int32} {state : State} (isResult : SameEnd result run)
    (same : state.console = memory.console) :
    Matches ⟨result, memory.output, memory.input⟩ (run, state) :=
  ⟨isResult, congrArg Console.output same, congrArg Console.input same⟩

def IR.Module.run (ir : IR.Module) (limits : Limits) (input : List Int32) :
    Except Halt Int32 × State :=
  (State.start ir (Console.withInput input)).runFunction ir limits mainName

def Machine.Run.answer (name : String) :
    EStateM.Result Halt State (Option Word) → Except Halt Int32 × State
  | .ok (some (.int value)) state => (.ok value, state)
  | .ok (some (.pointer _)) state => (.error (.failed (.invalidPointer name)), unwind 0 state)
  | .ok none state => (.ok 0, state)
  | .error error state => (.error error, unwind 0 state)

def Machine.Run.toInt (name : String) : Option Word → Machine.Run Int32
  | some (.int value) => pure value
  | some (.pointer _) => throw (.failed (.invalidPointer name))
  | none => pure 0

section

variable {ir : IR.Module} {id : IR.FunctionId} {function : IR.Function}

theorem run_too_deep (isMain : ir.functionNamed? mainName = some id)
    (isFunction : ir.functions[id]? = some function) (hasBody : function.isDeclaration = false)
    (steps : Nat) (input : List Int32) :
    (ir.run ⟨steps, 0⟩ input).1 = .error (.failed (.callDepth 0)) := by
  unfold IR.Module.run State.runFunction Machine.Run.function
  simp only [isMain, Machine.Run.call, isFunction, hasBody]
  rfl

theorem run_eq (isMain : ir.functionNamed? mainName = some id)
    (isFunction : ir.functions[id]? = some function) (hasBody : function.isDeclaration = false)
    (steps depth : Nat) (input : List Int32) :
    ir.run ⟨steps, depth + 1⟩ input = Machine.Run.answer mainName
      (Machine.Run.go ir ⟨steps, depth + 1⟩ steps (Machine.Run.entryFrame function id [] 0 1 none)
        (State.start ir (Console.withInput input))) := by
  have isCall : Machine.Run.function ir ⟨steps, depth + 1⟩ mainName
      (State.start ir (Console.withInput input)) =
        (Machine.Run.go ir ⟨steps, depth + 1⟩ steps (Machine.Run.entryFrame function id [] 0 1 none) >>=
          Machine.Run.toInt mainName) (State.start ir (Console.withInput input)) := by
    unfold Machine.Run.function
    simp only [isMain, Machine.Run.call, isFunction, hasBody]
    congr 1
  unfold IR.Module.run State.runFunction
  simp only [isCall]
  cases ended : Machine.Run.go ir ⟨steps, depth + 1⟩ steps
      (Machine.Run.entryFrame function id [] 0 1 none) (State.start ir (Console.withInput input)) with
  | error error state =>
      rw [bind_of_error _ ended]
      rfl
  | ok value state =>
      rw [bind_of_ok _ ended]
      rcases value with _ | _ | _ <;> rfl

end

theorem evaluate_eq {program : Program} {heading : Heading} {body : List Statement}
    (isGlobals : program.globals? = some names)
    (isMain : names.lookup mainName = some (.callable heading body)) (fuel : Nat)
    (input : List Int32) :
    program.evaluate fuel input =
      match Evaluation.invoke names fuel heading body [] (.start input) with
      | .ok (some value) memory => ⟨.ok value, memory.output, memory.input⟩
      | .ok none memory => ⟨.error .meaningless, memory.output, memory.input⟩
      | .error stop memory => ⟨.error stop, memory.output, memory.input⟩ := by
  unfold Program.evaluate
  simp only [isGlobals, isMain]
  cases evaluated : Evaluation.invoke names fuel heading body [] (.start input) with
  | error stop memory => simp only [bind_of_error Evaluation.asValue evaluated]
  | ok value memory =>
      simp only [bind_of_ok Evaluation.asValue evaluated]
      cases value <;> rfl

theorem Plan.Returns.ends {plan : Plan} {value : Int32} {memory : Memory} {last : Config}
    (returns : plan.Returns ⟨[], [], 1, none⟩ (some value) memory last) (limits : Limits) :
    ∃ state, last.Ends plan.ir limits (.ok (some (.int value)) state) ∧
      state.console = memory.console := by
  obtain ⟨operand?, fetched, isValue⟩ := returns.fetched
  cases isValue with
  | @some operand _ isWord =>
      have executed : Machine.Run.execute plan.ir limits last.frame (.ret (some operand))
          last.state.counted = Machine.Run.returnFrom plan.ir last.frame (some (.int value))
            last.state.counted := Machine.Run.execute_ret limits last.state.counted isWord
      rw [Machine.Run.returnFrom_done last.state.counted returns.callers] at executed
      exact ⟨last.state.counted.dropSlots last.frame.base, ⟨_, fetched, by rw [executed]⟩,
        returns.console⟩

section

variable {ir : IR.Module} {id : IR.FunctionId} {function : IR.Function} {depth count : Nat}
  {input : List Int32} {last : Config}

/-- A run that ends needs so many instructions, and fails with fewer. -/
theorem run_of_ends (isMain : ir.functionNamed? mainName = some id)
    (isFunction : ir.functions[id]? = some function) (hasBody : function.isDeclaration = false)
    {result : EStateM.Result Halt State (Option Word)}
    (runs : Config.Runs ir ⟨0, depth + 1⟩ ⟨Machine.Run.entryFrame function id [] 0 1 none,
      State.start ir (Console.withInput input)⟩ count last)
    (ends : last.Ends ir ⟨0, depth + 1⟩ result) (steps : Nat) :
    (count < steps → ir.run ⟨steps, depth + 1⟩ input = Machine.Run.answer mainName result) ∧
    (steps ≤ count → (ir.run ⟨steps, depth + 1⟩ input).1 = .error (.failed (.stepLimit steps))) := by
  obtain ⟨isEnough, tooFew⟩ := Machine.Run.go_of_ends (runs.depth steps)
    (ends.depth steps)
  rw [run_eq isMain isFunction hasBody]
  constructor
  · intro enough
    exact congrArg _ (isEnough enough)
  · intro few
    obtain ⟨state, isLimit⟩ := tooFew few
    exact congrArg (fun result => (Machine.Run.answer mainName result).1) isLimit

theorem run_of_runs (isMain : ir.functionNamed? mainName = some id)
    (isFunction : ir.functions[id]? = some function) (hasBody : function.isDeclaration = false)
    (runs : Config.Runs ir ⟨0, depth + 1⟩ ⟨Machine.Run.entryFrame function id [] 0 1 none,
      State.start ir (Console.withInput input)⟩ count last) {steps : Nat} (tooFew : steps < count) :
    (ir.run ⟨steps, depth + 1⟩ input).1 = .error (.failed (.stepLimit steps)) := by
  obtain ⟨state, isLimit⟩ := Machine.Run.go_stepLimit (runs.depth steps) tooFew
  rw [run_eq isMain isFunction hasBody]
  exact congrArg (fun result => (Machine.Run.answer mainName result).1) isLimit

end

theorem Accounts.runs (accounts : Accounts moduleName state done stock code names)
    (isNil : state.symbols.undefinedForwards = []) {program : Program} {heading : Heading}
    {body : List Statement} (isGlobals : program.globals? = some names)
    (isMain : names.lookup mainName = some (.callable heading body))
    (hasEntry : state.symbols.globals.has mainName = true)
    (noParameters : heading.parameterCount = 0) (returns : heading.returns.isSome = true)
    (depth fuel : Nat) (input : List Int32) :
    ∃ count,
      (∀ steps < count,
        (state.builder.ir.run ⟨steps, depth⟩ input).1 = .error (.failed (.stepLimit steps))) ∧
      (((program.evaluate fuel input).result = .error .outOfFuel ∧ fuel ≤ count) ∨
        ∀ steps, count ≤ steps →
          ((state.builder.ir.run ⟨steps, depth⟩ input).1 = .error (.failed (.callDepth depth)) ∧
            depth ≤ fuel) ∨
          Evaluation.Matches (program.evaluate fuel input)
            (state.builder.ir.run ⟨steps, depth⟩ input)) := by
  obtain ⟨entry, isEntry⟩ : ∃ entry, state.symbols.getOuter? mainName = some entry := by
    obtain ⟨entry, isEntry⟩ := Table.exists_of_has hasEntry
    simp only [SymbolTable.getOuter?, isEntry]
    cases state.symbols.forwards.lookup mainName <;> simp
  obtain ⟨meaning, isMeaning, means⟩ := accounts.knows isNil mainName entry isEntry
  obtain rfl := Option.some.inj (isMeaning.symm.trans isMain)
  obtain ⟨-, -, -, -, id, isStorage, isCode⟩ := means
  obtain ⟨function, isFunction, hasBody⟩ := accounts.hasBody id heading body isCode
  have isNamed := accounts.functionNamed?_mainName isFunction ⟨entry, isEntry, isStorage⟩
  cases depth with
  | zero =>
      exact ⟨0, fun steps few => absurd few (Nat.not_lt_zero _),
        .inr fun steps _ => .inl ⟨run_too_deep isNamed isFunction hasBody steps input, Nat.zero_le _⟩⟩
  | succ depth =>
      have begins : (state.plan stock code).Begins ⟨[], [], 1, none⟩ id []
          (.start input)
          ⟨Machine.Run.entryFrame function id [] 0 1 none,
            State.start state.builder.ir (Console.withInput input)⟩ :=
        ⟨⟨function, isFunction, rfl⟩, accounts.fits.holds_start _⟩
      obtain ⟨count, last, runs, outcome⟩ := accounts.calls isNil ⟨0, depth + 1⟩ fuel isCode
        (show ([] : List Int32).length = _ from noParameters.symm) begins
      -- the run is counted without a limit, which then cuts it off where it is lower
      have outcomes {result : EStateM.Result Halt State (Option Word)}
          (ends : last.Ends state.builder.ir ⟨0, depth + 1⟩ result) :=
        run_of_ends isNamed isFunction hasBody runs ends
      rw [evaluate_eq isGlobals isMain]
      rcases outcome with ⟨after, throws, deep⟩ | outcome
      · refine ⟨count + 1, fun steps few => (outcomes throws.ends steps).2 (Nat.le_of_lt_succ few),
          .inr fun steps enough => .inl ⟨?_, by simp only at deep; omega⟩⟩
        exact congrArg Prod.fst ((outcomes throws.ends steps).1 enough)
      · cases evaluated : Evaluation.invoke names fuel heading body [] (.start input) with
        | ok value? memory =>
            rw [evaluated] at outcome
            obtain ⟨returned, isSome, -⟩ := outcome
            cases value? with
            | none => simp [returns] at isSome
            | some value =>
                obtain ⟨after, ends, console⟩ := returned.ends ⟨0, depth + 1⟩
                refine ⟨count + 1,
                  fun steps few => (outcomes ends steps).2 (Nat.le_of_lt_succ few),
                  .inr fun steps enough => .inr ?_⟩
                rw [(outcomes ends steps).1 enough]
                exact .of_console rfl console
        | error stop memory =>
            rw [evaluated] at outcome
            rcases outcome with ⟨rfl, enough⟩ | ⟨error, after, throws, isMatch, console⟩
            · exact ⟨count, fun steps few => run_of_runs isNamed isFunction hasBody runs few,
                .inl ⟨rfl, enough⟩⟩
            · refine ⟨count + 1,
                fun steps few => (outcomes throws.ends steps).2 (Nat.le_of_lt_succ few),
                .inr fun steps enough => .inr ?_⟩
              rw [(outcomes throws.ends steps).1 enough]
              exact .of_console isMatch console

/-- How a source that compiles runs with so many functions at a time, for each number of
instructions. -/
theorem compile_runs {source : String} {ir : IR.Module} {program : Program}
    (compiled : compile source moduleName = .ok ir) (parsed : Program.parse source = .ok program)
    (leavesResults : program.LeavesResults) (leavesForwards : program.LeavesForwards)
    (input : List Int32) (depth fuel : Nat) :
    ∃ count,
      (∀ steps < count, (ir.run ⟨steps, depth⟩ input).1 = .error (.failed (.stepLimit steps))) ∧
      (((program.evaluate fuel input).result = .error .outOfFuel ∧ fuel ≤ count) ∨
        ∀ steps, count ≤ steps →
          ((ir.run ⟨steps, depth⟩ input).1 = .error (.failed (.callDepth depth)) ∧ depth ≤ fuel) ∨
          Evaluation.Matches (program.evaluate fuel input) (ir.run ⟨steps, depth⟩ input)) := by
  obtain ⟨_, isProgram, lowered⟩ := compile_eq_ok compiled
  obtain rfl := Except.ok.inj (parsed.symm.trans isProgram)
  have grammatical := Program.grammatical_of_parse parsed
  obtain ⟨ending, state, translated, finished, rfl⟩ := Program.lower_eq_ok lowered
  obtain ⟨stock, code, names, accounts⟩ := accounts_items (accounts_initial moduleName)
    (fun _ => grammatical.isItem) leavesResults leavesForwards ending state translated
  obtain ⟨header, declarations, position, actions, isProgram, -⟩ := grammatical
  have evaluated := accounts.evaluated
  rw [List.nil_append] at evaluated
  have isGlobals : program.globals? = some names := by simp [Program.globals?, evaluated]
  have isMain : names.lookup mainName =
      some (.callable ⟨mainName, [], some .integer, position⟩ actions) := by
    rw [isProgram, List.foldlM_append] at evaluated
    obtain ⟨before, -, isLast⟩ := Option.bind_eq_some_iff.1 evaluated
    obtain rfl : (mainName, Meaning.callable ⟨mainName, [], some .integer, position⟩ actions) ::
        before.names = names := congrArg Scope.names (Option.some.inj isLast)
    exact List.lookup_cons_self
  have hasEntry : state.symbols.globals.has mainName = true := by
    refine (accounts.lists.globals mainName).2 (.inr ⟨Parse.mainCallable position actions, ?_, ?_⟩)
    · simp [isProgram]
    · simp [Parse.mainCallable, Statement.globalNames]
  exact accounts.runs (Lower.finish_eq_ok finished).2 isGlobals isMain hasEntry rfl rfl depth fuel
    input

/-! ### Main results -/

theorem Evaluation.Matches.console {outcome : Outcome} {run : Except Halt Int32 × State}
    (isMatch : Matches outcome run) : run.2.console = ⟨outcome.output, outcome.unread⟩ := by
  rw [← isMatch.output, ← isMatch.unread]

theorem Evaluation.SameEnd.cases {result : Except Stop Int32} {run : Except Halt Int32}
    (same : SameEnd result run) :
    (∃ value, result = .ok value ∧ run = .ok value) ∨
    (result = .error .divisionByZero ∧
      ∃ function, run = .error (.failed (.divisionByZero function))) ∨
    (result = .error .outOfBounds ∧
      ∃ global offset function, run = .error (.failed (.outOfBounds global offset function))) := by
  match result, run with
  | .ok value, .ok result => exact .inl ⟨value, rfl, congrArg Except.ok same⟩
  | .ok _, .error _ | .error _, .ok _ | .error _, .error .panic => exact same.elim
  | .error stop, .error (.failed error) =>
      have isMatch : stop.Matches error := same
      cases stop <;> cases error <;> first | exact isMatch.elim | skip
      · exact .inr (.inl ⟨rfl, _, rfl⟩)
      · exact .inr (.inr ⟨rfl, _, _, _, rfl⟩)

theorem Evaluation.SameEnd.of_value {result : Except Stop Int32} {run : Except Halt Int32}
    {value : Int32} (same : SameEnd result run) (isValue : result = .ok value) : run = .ok value := by
  subst isValue
  obtain ⟨_, ⟨⟩, isRun⟩ | ⟨⟨⟩, -⟩ | ⟨⟨⟩, -⟩ := same.cases
  exact isRun

theorem Evaluation.SameEnd.of_divisionByZero {result : Except Stop Int32}
    {run : Except Halt Int32} (same : SameEnd result run)
    (isZero : result = .error .divisionByZero) :
    ∃ function, run = .error (.failed (.divisionByZero function)) := by
  subst isZero
  obtain ⟨_, ⟨⟩, -⟩ | ⟨-, isRun⟩ | ⟨⟨⟩, -⟩ := same.cases
  exact isRun

theorem Evaluation.SameEnd.unique {result other : Except Stop Int32} {run : Except Halt Int32}
    (same : SameEnd result run) (isOther : SameEnd other run) : result = other := by
  obtain ⟨value, rfl, rfl⟩ | ⟨rfl, _, rfl⟩ | ⟨rfl, _, _, _, rfl⟩ := same.cases
  all_goals
    obtain ⟨_, rfl, ⟨⟩⟩ | ⟨rfl, _, ⟨⟩⟩ | ⟨rfl, _, _, _, ⟨⟩⟩ := isOther.cases
    rfl

theorem Evaluation.Matches.unique {outcome other : Outcome} {run : Except Halt Int32 × State}
    (isMatch : Matches outcome run) (isOther : Matches other run) : outcome = other := by
  obtain ⟨result, output, unread⟩ := outcome
  obtain rfl : result = other.result := isMatch.result.unique isOther.result
  obtain rfl : output = other.output := isMatch.output.symm.trans isOther.output
  obtain rfl : unread = other.unread := isMatch.unread.symm.trans isOther.unread
  rfl

theorem Evaluation.Matches.ne_outOfFuel {outcome : Outcome} {run : Except Halt Int32 × State}
    (isMatch : Matches outcome run) : outcome.result ≠ .error .outOfFuel := by
  obtain ⟨_, isResult, -⟩ | ⟨isResult, -⟩ | ⟨isResult, -⟩ := isMatch.result.cases <;>
    rw [isResult] <;> nofun

/-- An evaluation only ends early for a division by zero or an index out of bounds. -/
theorem Evaluation.Matches.run_cases {outcome : Outcome} {run : Except Halt Int32 × State}
    (isMatch : Matches outcome run) :
    (∃ value, run.1 = .ok value) ∨ (∃ function, run.1 = .error (.failed (.divisionByZero function))) ∨
      ∃ global offset function, run.1 = .error (.failed (.outOfBounds global offset function)) := by
  obtain ⟨value, -, isRun⟩ | ⟨-, isRun⟩ | ⟨-, isRun⟩ := isMatch.result.cases
  · exact .inl ⟨value, isRun⟩
  · exact .inr (.inl isRun)
  · exact .inr (.inr isRun)

def Program.Evaluates (program : Program) (input : List Int32) (outcome : Outcome) : Prop :=
  outcome.result ≠ .error .outOfFuel ∧
    ∃ enough, ∀ fuel, enough ≤ fuel → program.evaluate fuel input = outcome

theorem Program.Evaluates.unique {program : Program} {input : List Int32} {outcome other : Outcome}
    (evaluates : program.Evaluates input outcome) (isOther : program.Evaluates input other) :
    outcome = other := by
  obtain ⟨-, enough, isOutcome⟩ := evaluates
  obtain ⟨-, enough', isOther⟩ := isOther
  rw [← isOutcome _ (Nat.le_max_left enough enough'), isOther _ (Nat.le_max_right enough enough')]

/-- Translation keeps the meaning of a program, if no declared name looks like that of a result and
the names of callables declared forward are kept for them. -/
theorem compile_preserves {source moduleName : String} {ir : IR.Module} {program : Program}
    (compiled : compile source moduleName = .ok ir) (parsed : Program.parse source = .ok program)
    (leavesResults : program.LeavesResults) (leavesForwards : program.LeavesForwards)
    (input : List Int32) :
    (∀ limits : Limits,
      (ir.run limits input).1 = .error (.failed (.stepLimit limits.steps)) ∨
      (ir.run limits input).1 = .error (.failed (.callDepth limits.depth)) ∨
      ∃ outcome, program.Evaluates input outcome ∧
        Evaluation.Matches outcome (ir.run limits input)) ∧
    ∀ fuel, (program.evaluate fuel input).result ≠ .error .outOfFuel →
      ∃ limits, Evaluation.Matches (program.evaluate fuel input) (ir.run limits input) := by
  have runs := compile_runs compiled parsed leavesResults leavesForwards input
  constructor
  · rintro ⟨steps, depth⟩
    by_cases isLimit : (ir.run ⟨steps, depth⟩ input).1 = .error (.failed (.stepLimit steps))
    · exact .inl isLimit
    by_cases isDeep : (ir.run ⟨steps, depth⟩ input).1 = .error (.failed (.callDepth depth))
    · exact .inr (.inl isDeep)
    have isMatch (fuel : Nat) (enough : steps < fuel) :
        Evaluation.Matches (program.evaluate fuel input) (ir.run ⟨steps, depth⟩ input) := by
      obtain ⟨count, tooFew, outcome⟩ := runs depth fuel
      have isEnough : count ≤ steps := Nat.not_lt.1 fun few => isLimit (tooFew steps few)
      rcases outcome with ⟨-, busy⟩ | outcome
      · omega
      · exact (outcome steps isEnough).resolve_left fun deep => isDeep deep.1
    have first := isMatch (steps + 1) (Nat.lt_succ_self _)
    exact .inr (.inr ⟨_, ⟨first.ne_outOfFuel, steps + 1, fun fuel enough =>
      (isMatch fuel enough).unique first⟩, first⟩)
  · intro fuel ends
    obtain ⟨count, -, outcome⟩ := runs (fuel + 1) fuel
    rcases outcome with ⟨isFuel, -⟩ | outcome
    · exact absurd isFuel ends
    · refine ⟨⟨count, fuel + 1⟩, (outcome count (Nat.le_refl _)).resolve_left fun deep => ?_⟩
      exact absurd deep.2 (Nat.not_le.2 (Nat.lt_succ_self _))

/-- A loop with a call that divides by a number that is read: a third number stays unread.  All runs
that no limit ends print the two quotients, and there are such runs. -/
theorem compile_preserves_loop :
    ∃ program ir,
      Program.parse "var i, d: integer; begin for i := 1 to 2 do
        begin readln(d); writeln(12 div d) end end." = .ok program ∧
      compile "var i, d: integer; begin for i := 1 to 2 do
        begin readln(d); writeln(12 div d) end end." "example" = .ok ir ∧
      program.LeavesResults ∧ program.LeavesForwards ∧
      program.evaluate 4 [4, 5, 6] = ⟨.ok 0, "3\n2\n", [6]⟩ ∧
      (∀ limits : Limits,
        (ir.run limits [4, 5, 6]).1 = .error (.failed (.stepLimit limits.steps)) ∨
        (ir.run limits [4, 5, 6]).1 = .error (.failed (.callDepth limits.depth)) ∨
        (ir.run limits [4, 5, 6]).1 = .ok 0 ∧ (ir.run limits [4, 5, 6]).2.console = ⟨"3\n2\n", [6]⟩) ∧
      ∃ limits, (ir.run limits [4, 5, 6]).1 = .ok 0 ∧
        (ir.run limits [4, 5, 6]).2.console = ⟨"3\n2\n", [6]⟩ := by
  obtain ⟨program, parsed, isExample⟩ := exists_of_any "var i, d: integer; begin for i := 1 to 2 do
        begin readln(d); writeln(12 div d) end end."
    (fun program => decide ((program.LeavesResults ∧ program.LeavesForwards) ∧
      program.evaluate 4 [4, 5, 6] = ⟨.ok 0, "3\n2\n", [6]⟩)) (by decide +kernel)
  obtain ⟨⟨leavesResults, leavesForwards⟩, evaluated⟩ := of_decide_eq_true isExample
  have isOk : (compile "var i, d: integer; begin for i := 1 to 2 do
        begin readln(d); writeln(12 div d) end end." "example").isOk = true := by decide +kernel
  obtain ⟨ir, compiled⟩ := exists_of_isOk isOk
  obtain ⟨runs, ends⟩ := compile_preserves compiled parsed leavesResults leavesForwards [4, 5, 6]
  have prints {run : Except Halt Int32 × State}
      (isMatch : Evaluation.Matches ⟨.ok 0, "3\n2\n", [6]⟩ run) :
      run.1 = .ok 0 ∧ run.2.console = ⟨"3\n2\n", [6]⟩ :=
    ⟨isMatch.result.of_value rfl, isMatch.console⟩
  obtain ⟨limits, isMatch⟩ := ends 4 (by rw [evaluated]; nofun)
  rw [evaluated] at isMatch
  refine ⟨program, ir, parsed, compiled, leavesResults, leavesForwards, evaluated, fun limits' => ?_,
    limits, prints isMatch⟩
  -- what the program evaluates to is known from the run that ends
  have evaluates : ∀ outcome, program.Evaluates [4, 5, 6] outcome →
      outcome = ⟨.ok 0, "3\n2\n", [6]⟩ := by
    intro outcome isOutcome
    rcases runs limits with isLimit | isDeep | ⟨other, isOther, isMatch'⟩
    · exact absurd ((prints isMatch).1.symm.trans isLimit) nofun
    · exact absurd ((prints isMatch).1.symm.trans isDeep) nofun
    · exact (isOutcome.unique isOther).trans (isMatch'.unique isMatch)
  refine (runs limits').imp_right (Or.imp_right ?_)
  rintro ⟨outcome, isOutcome, isMatch'⟩
  obtain rfl := evaluates outcome isOutcome
  exact prints isMatch'

/-- A program that compiles does not go wrong: a run gives a value, or it divides by zero, leaves the
bounds of an array or reaches a limit. -/
theorem compile_run_safe {source moduleName : String} {ir : IR.Module} {program : Program}
    (compiled : compile source moduleName = .ok ir) (parsed : Program.parse source = .ok program)
    (leavesResults : program.LeavesResults) (leavesForwards : program.LeavesForwards)
    (input : List Int32) (limits : Limits) :
    (∃ value, (ir.run limits input).1 = .ok value) ∨
    (∃ function, (ir.run limits input).1 = .error (.failed (.divisionByZero function))) ∨
    (∃ global offset function,
      (ir.run limits input).1 = .error (.failed (.outOfBounds global offset function))) ∨
    (ir.run limits input).1 = .error (.failed (.stepLimit limits.steps)) ∨
    (ir.run limits input).1 = .error (.failed (.callDepth limits.depth)) := by
  obtain ⟨count, tooFew, outcome⟩ := compile_runs compiled parsed leavesResults leavesForwards input
    limits.depth (limits.steps + 1)
  by_cases few : limits.steps < count
  · exact .inr (.inr (.inr (.inl (tooFew limits.steps few))))
  rcases outcome with ⟨-, busy⟩ | outcome
  · omega
  rcases outcome limits.steps (Nat.not_lt.1 few) with ⟨deep, -⟩ | isMatch
  · exact .inr (.inr (.inr (.inr deep)))
  exact isMatch.run_cases.imp_right fun failed => failed.imp_right .inl

/-- An array whose index is read. -/
theorem compile_run_safe_index :
    ∃ ir, compile "var i: integer; a: array [1 .. 3] of integer; begin readln(i); a[i] := i end."
        "example" = .ok ir ∧ ∀ input limits,
      (∃ value, (ir.run limits input).1 = .ok value) ∨
      (∃ function, (ir.run limits input).1 = .error (.failed (.divisionByZero function))) ∨
      (∃ global offset function,
        (ir.run limits input).1 = .error (.failed (.outOfBounds global offset function))) ∨
      (ir.run limits input).1 = .error (.failed (.stepLimit limits.steps)) ∨
      (ir.run limits input).1 = .error (.failed (.callDepth limits.depth)) := by
  obtain ⟨program, parsed, leaves⟩ := exists_of_any
    "var i: integer; a: array [1 .. 3] of integer; begin readln(i); a[i] := i end."
    (fun program => decide (program.LeavesResults ∧ program.LeavesForwards)) (by decide +kernel)
  obtain ⟨leavesResults, leavesForwards⟩ := of_decide_eq_true leaves
  have isOk : (compile "var i: integer; a: array [1 .. 3] of integer; begin readln(i); a[i] := i end."
      "example").isOk = true := by decide +kernel
  obtain ⟨ir, compiled⟩ := exists_of_isOk isOk
  exact ⟨ir, compiled, compile_run_safe compiled parsed leavesResults leavesForwards⟩

end MiniPascal
