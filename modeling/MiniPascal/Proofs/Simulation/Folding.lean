import MiniPascal.Proofs.Evaluation.Literals
import MiniPascal.Proofs.Lowering.Total
import MiniPascal.Proofs.Simulation.Programs

/-!
# Folding and running agree

What can be computed from integers is computed while code is built, and what is read from variables is
computed by the machine.  A program that has integers in its expressions runs like one that has
variables in their place, which it sets to the integers first.
-/

namespace MiniPascal

open Evaluation (Eval Memory Names Scope Meaning Stop Outcome)
open Machine (Halt Limits State)

variable {settings : Settings} {program program' : Program} {body body' : List Statement}

/-! ### Names -/

namespace Evaluation

def variableNames (names : List String) : Names :=
  (names.map fun name => (name, Meaning.scalar (.global name))).reverse

theorem lookup_variableNames (names : List String) (others : Names) (name : String) :
    (variableNames names ++ others).lookup name =
      if name ∈ names then some (.scalar (.global name)) else others.lookup name := by
  unfold variableNames
  induction names generalizing others with
  | nil => rfl
  | cons first rest ih =>
      rw [List.map_cons, List.reverse_cons, List.append_assoc, List.singleton_append, ih,
        List.lookup_cons]
      by_cases isLater : name ∈ rest
      · simp [isLater]
      · by_cases isFirst : name = first
        · simp [isFirst]
        · simp [isLater, isFirst, beq_false_of_ne isFirst]

theorem foldlM_variables {names : List String} {declarations : List Statement}
    (areVariables : AreVariables names declarations) (outer : Names) :
    declarations.foldlM topLevel? ⟨outer, none⟩ = some ⟨variableNames names ++ outer, none⟩ := by
  induction areVariables generalizing outer with
  | nil => rfl
  | @cons others declarations names position onOthers ih =>
      have isFirst : topLevel? ⟨outer, none⟩ (.vars ⟨names, .integer, position⟩) =
          some ⟨variableNames names ++ outer, none⟩ :=
        congrArg some (foldl_add (fun scope name => .scalar (scope.place name)) (fun _ _ _ => rfl)
          names ⟨outer, none⟩)
      rw [List.foldlM_cons, isFirst]
      refine (ih _).trans ?_
      simp [variableNames]

/-! ### Variables that are set -/

def Memory.set (memory : Memory) : Settings → Memory
  | [] => memory
  | (name, value) :: others =>
      Memory.set { memory with globals := change memory.globals name value } others

@[simp] theorem Memory.set_result (settings : Settings) (memory : Memory) :
    (memory.set settings).result = memory.result := by
  induction settings generalizing memory with
  | nil => rfl
  | cons first others ih => exact ih _

@[simp] theorem Memory.set_output (settings : Settings) (memory : Memory) :
    (memory.set settings).output = memory.output := by
  induction settings generalizing memory with
  | nil => rfl
  | cons first others ih => exact ih _

@[simp] theorem Memory.set_input (settings : Settings) (memory : Memory) :
    (memory.set settings).input = memory.input := by
  induction settings generalizing memory with
  | nil => rfl
  | cons first others ih => exact ih _

theorem Memory.set_globals {name : String} (notSet : name ∉ settings.map Prod.fst) (memory : Memory) :
    (memory.set settings).globals name = memory.globals name := by
  induction settings generalizing memory with
  | nil => rfl
  | cons first others ih =>
      rw [List.map_cons, List.mem_cons, not_or] at notSet
      exact (ih notSet.2 _).trans (if_neg notSet.1)

theorem Memory.has_set (distinct : (settings.map Prod.fst).Nodup) (memory : Memory) :
    (memory.set settings).Has settings := by
  induction settings generalizing memory with
  | nil => simp [Memory.Has]
  | cons first others ih =>
      rw [List.map_cons, List.nodup_cons] at distinct
      intro setting isIn
      rcases List.mem_cons.1 isIn with rfl | isLater
      · exact (set_globals distinct.1 _).trans (if_pos rfl)
      · exact ih distinct.2 _ setting isLater

theorem statements_assignments {invoke : Heading → List Statement → List Int32 → Eval (Option Int32)}
    {scope : Scope} {assignments : List Statement} (areAssigned : AreAssigned settings assignments)
    (sees : scope.Sees settings) (fuel : Nat) (body : List Statement) (memory : Memory) :
    statements invoke scope fuel (assignments ++ body) memory =
      statements invoke scope fuel body (memory.set settings) := by
  induction areAssigned generalizing memory with
  | nil => rfl
  | @cons name value initial others assignments isValue place position onOthers ih =>
      have isAssigned : statement invoke scope fuel (.assign ⟨.ident name place, initial, position⟩)
          memory = .ok .next { memory with globals := change memory.globals name value } := by
        have isPlace : namePlace scope name memory = .ok (.global name) memory := by
          rw [namePlace, sees.settings _ List.mem_cons_self]
          rfl
        rw [statement, assign, Evaluation.place, bind_assoc, bind_of_ok _ isPlace, bind_assoc,
          bind_of_ok _ (value_closed isValue memory)]
        rfl
      rw [List.cons_append, statements, bind_of_ok _ isAssigned]
      exact ih ⟨sees.writeln, fun setting isIn => sees.settings setting (List.mem_cons_of_mem _ isIn)⟩ _

/-! ### Programs -/

def outcome : EStateM.Result Stop Memory Progress → Outcome
  | .ok _ memory => ⟨.ok memory.result, memory.output, memory.input⟩
  | .error stop memory => ⟨.error stop, memory.output, memory.input⟩

theorem EndAlike.outcome {first second : EStateM.Result Stop Memory Progress}
    (alike : EndAlike settings first second) :
    Evaluation.outcome first = Evaluation.outcome second ∧
      ((∃ value, (Evaluation.outcome first).result = .ok value) ∨
        (Evaluation.outcome first).result = .error .divisionByZero) := by
  cases alike with
  | @next memory memory' alike =>
      refine ⟨?_, .inl ⟨memory.result, rfl⟩⟩
      rw [Evaluation.outcome, Evaluation.outcome, alike.result, alike.output, alike.input]
  | divided output input =>
      refine ⟨?_, .inr rfl⟩
      rw [Evaluation.outcome, Evaluation.outcome, output, input]

def mainHeading (position : Position) : Heading := ⟨mainName, [], some .integer, position⟩

theorem invoke_main (names : Names) (position : Position) {body : List Statement}
    (areActions : ∀ statement ∈ body, statement.isDeclaration = false) (fuel : Nat)
    (input : List Int32) :
    (match invoke names (fuel + 1) (mainHeading position) body [] (.start input) with
      | .ok (some value) memory => (⟨.ok value, memory.output, memory.input⟩ : Outcome)
      | .ok none memory => ⟨.error .meaningless, memory.output, memory.input⟩
      | .error stop memory => ⟨.error stop, memory.output, memory.input⟩) =
    outcome (statements (invoke names fuel) (Scope.atEntry names (mainHeading position)) fuel body
      (.start input)) := by
  have isFront : body.takeWhile (·.isDeclaration) = [] ∧ body.dropWhile (·.isDeclaration) = body := by
    cases body with
    | nil => simp
    | cons first others => simp [areActions first]
  have isRun : invoke names (fuel + 1) (mainHeading position) body []
      (.start input) =
      (statements (invoke names fuel) (Scope.atEntry names (mainHeading position)) fuel body >>=
        fun _ => do
          let callee ← get
          set { callee with locals := fun _ => 0, result := 0 }
          return some callee.result) (.start input) := by
    rw [invoke, isFront.1, isFront.2]
    rfl
  rw [isRun]
  cases ends : statements (invoke names fuel) (Scope.atEntry names (mainHeading position)) fuel body
      (.start input) with
  | ok progress memory =>
      rw [bind_of_ok _ ends]
      rfl
  | error stop memory =>
      rw [bind_of_error _ ends]
      rfl

def programNames (names : List String) (position : Position) (body : List Statement) : Names :=
  (mainName, .callable (mainHeading position) body) :: (variableNames names ++ builtins)

theorem sees_atEntry (free : AreFree (settings.map Prod.fst)) (position : Position)
    (body : List Statement) :
    (Scope.atEntry (programNames (settings.map Prod.fst) position body) (mainHeading position)).Sees
      settings := by
  have kept {name : String} (notMain : name ≠ mainName) (notResult : name ≠ resultName mainName) :
      (Scope.atEntry (programNames (settings.map Prod.fst) position body)
        (mainHeading position)).find? name =
          (variableNames (settings.map Prod.fst) ++ builtins).lookup name := by
    change List.lookup name ((resultName mainName, _) :: (mainName, _) :: _) = _
    rw [List.lookup_cons, List.lookup_cons, beq_false_of_ne notMain, beq_false_of_ne notResult]
  constructor
  · have notSet : Builtin.writeln.name ∉ settings.map Prod.fst := fun isIn => by
      cases free.notBuiltin _ isIn
    rw [kept (by decide) (by decide), lookup_variableNames, if_neg notSet]
    rfl
  · intro setting isIn
    have isName : setting.1 ∈ settings.map Prod.fst := List.mem_map_of_mem isIn
    rw [kept (fun same => free.notMain (same ▸ isName)) (free.notResult _ isName mainName),
      lookup_variableNames, if_pos isName]

end Evaluation

theorem Program.Sets.evaluate (sets : program.Sets settings body)
    (free : AreFree (settings.map Prod.fst))
    (areActions : ∀ statement ∈ body, statement.isDeclaration = false) :
    ∃ names scope, scope.Sees settings ∧ ∀ fuel input, program.evaluate (fuel + 1) input =
      Evaluation.outcome (Evaluation.statements (Evaluation.invoke names fuel) scope fuel body
        (Memory.set (.start input) settings)) := by
  obtain ⟨header, declarations, assignments, position, isProgram, isHeader, areVariables, areAssigned⟩ :=
    sets
  let names := Evaluation.programNames (settings.map Prod.fst) position (assignments ++ body)
  have isGlobals : program.globals? = some names := by
    have behind : (declarations ++ [Parse.mainCallable position (assignments ++ body)]).foldlM
        Evaluation.topLevel? ⟨Evaluation.builtins, none⟩ = some ⟨names, none⟩ := by
      rw [List.foldlM_append, Evaluation.foldlM_variables areVariables]
      rfl
    rw [Program.globals?, isProgram, List.append_assoc]
    rcases isHeader with rfl | ⟨name, rfl⟩
    · rw [List.nil_append, behind]
      rfl
    · rw [List.singleton_append, List.foldlM_cons]
      change Option.map _ (List.foldlM _ _ _) = _
      rw [behind]
      rfl
  have allActions : ∀ statement ∈ assignments ++ body, statement.isDeclaration = false := by
    intro statement isIn
    rcases List.mem_append.1 isIn with isIn | isIn
    · exact areAssigned.isDeclaration isIn
    · exact areActions statement isIn
  have sees := Evaluation.sees_atEntry free position (assignments ++ body)
  refine ⟨names, Scope.atEntry names (Evaluation.mainHeading position), sees, fun fuel input => ?_⟩
  rw [← Evaluation.statements_assignments areAssigned sees,
    ← Evaluation.invoke_main names position allActions]
  exact evaluate_eq isGlobals List.lookup_cons_self (fuel + 1) input

theorem Program.Sets.evaluate_alike (sets : program.Sets [] body) (sets' : program'.Sets settings body')
    (abstracts : Statement.AbstractsAll settings body body') (free : AreFree (settings.map Prod.fst))
    (fuel fuel' : Nat) (input : List Int32) :
    program.evaluate (fuel + 1) input = program'.evaluate (fuel' + 1) input ∧
      ((∃ value, (program.evaluate (fuel + 1) input).result = .ok value) ∨
        (program.evaluate (fuel + 1) input).result = .error .divisionByZero) := by
  obtain ⟨names, scope, sees, isBody⟩ := sets.evaluate areFree_nil fun _ => abstracts.closed.isDeclaration
  obtain ⟨names', scope', sees', isBody'⟩ := sets'.evaluate free fun _ => abstracts.isDeclaration
  rw [isBody, isBody']
  have alike : Memory.Alike settings (Memory.set (.start input) [])
      (Memory.set (.start input) settings) :=
    ⟨by simp, by simp, by simp, Memory.has_set free.distinct _⟩
  exact (Evaluation.statements_abstracts abstracts sees sees' alike fuel fuel').outcome

/-- The two programs are evaluated to the same, whatever the fuel, and do not run out of it. -/
theorem Program.Sets.exists_outcome (sets : program.Sets [] body) (sets' : program'.Sets settings body')
    (abstracts : Statement.AbstractsAll settings body body') (free : AreFree (settings.map Prod.fst))
    (input : List Int32) :
    ∃ outcome : Outcome,
      ((∃ value, outcome.result = .ok value) ∨ outcome.result = .error .divisionByZero) ∧
      (∀ fuel, program.evaluate (fuel + 1) input = outcome) ∧
      ∀ fuel, program'.evaluate (fuel + 1) input = outcome := by
  have alike := sets.evaluate_alike sets' abstracts free
  refine ⟨program.evaluate 1 input, (alike 0 0 input).2, fun fuel => ?_, fun fuel => ?_⟩
  · exact (alike fuel 0 input).1.trans (alike 0 0 input).1.symm
  · exact (alike 0 fuel input).1.symm

/-! ### Names that a program declares -/

theorem AreVariables.exists_names {names : List String} {declarations : List Statement}
    (areVariables : AreVariables names declarations) {statement : Statement}
    (isIn : statement ∈ declarations) :
    ∃ group position, statement = .vars ⟨group, .integer, position⟩ ∧ ∀ name ∈ group, name ∈ names := by
  induction areVariables with
  | nil => cases isIn
  | cons group position onOthers ih =>
      rcases List.mem_cons.1 isIn with rfl | isLater
      · exact ⟨group, position, rfl, fun name isName => List.mem_append_left _ isName⟩
      · obtain ⟨later, position, rfl, isName⟩ := ih isLater
        exact ⟨later, position, rfl, fun name isIn => List.mem_append_right _ (isName name isIn)⟩

theorem Statement.storageNames_of_isDeclaration {statement : Statement}
    (isAction : statement.isDeclaration = false) : statement.storageNames = [] := by
  cases statement <;> first | rfl | cases isAction

theorem Program.Sets.cases_statement (sets : program.Sets settings body)
    (areActions : ∀ statement ∈ body, statement.isDeclaration = false) {statement : Statement}
    (isIn : statement ∈ program.statements) :
    (∃ name, statement = .program name) ∨
      (∃ group position, statement = .vars ⟨group, .integer, position⟩ ∧
        ∀ name ∈ group, name ∈ settings.map Prod.fst) ∨
      ∃ position actions, statement = Parse.mainCallable position actions ∧
        ∀ action ∈ actions, action.storageNames = [] := by
  obtain ⟨header, declarations, assignments, position, isProgram, isHeader, areVariables, areAssigned⟩ :=
    sets
  rw [isProgram, List.mem_append, List.mem_append, List.mem_singleton] at isIn
  rcases isIn with (isIn | isIn) | rfl
  · rcases isHeader with rfl | ⟨name, rfl⟩
    · cases isIn
    · exact .inl ⟨name, List.mem_singleton.1 isIn⟩
  · exact .inr (.inl (areVariables.exists_names isIn))
  · refine .inr (.inr ⟨position, _, rfl, fun action isAction => ?_⟩)
    refine Statement.storageNames_of_isDeclaration ?_
    rcases List.mem_append.1 isAction with isIn | isIn
    · exact areAssigned.isDeclaration isIn
    · exact areActions action isIn

theorem Program.Sets.leavesResults (sets : program.Sets settings body)
    (areActions : ∀ statement ∈ body, statement.isDeclaration = false)
    (free : AreFree (settings.map Prod.fst)) : program.LeavesResults := by
  intro statement isIn name isName
  rcases sets.cases_statement areActions isIn with ⟨header, rfl⟩ | ⟨group, position, rfl, isGroup⟩ |
      ⟨position, actions, rfl, noNames⟩
  · cases isName
  · exact free.notResult name (isGroup name isName)
  · have isMain : name = mainName := by
      simp [Parse.mainCallable, Statement.declaredNames, Heading.parameterNames] at isName
      rcases isName with isMain | ⟨action, isAction, isName⟩
      · exact isMain
      · rw [noNames action isAction] at isName
        cases isName
    subst isMain
    decide

theorem Program.Sets.leavesForwards (sets : program.Sets settings body)
    (areActions : ∀ statement ∈ body, statement.isDeclaration = false) : program.LeavesForwards := by
  intro heading isForward
  rcases sets.cases_statement areActions isForward with ⟨header, isSame⟩ | ⟨group, position, isSame, -⟩ |
      ⟨position, actions, isSame, -⟩
  all_goals cases isSame

/-! ### Runs -/

def IR.Module.EndsWithin (ir : IR.Module) (limits : Limits) (input : List Int32) : Prop :=
  (ir.run limits input).1 ≠ .error (.failed (.stepLimit limits.steps)) ∧
    (ir.run limits input).1 ≠ .error (.failed (.callDepth limits.depth))

/-- Two runs that give the same value or both divide by zero, with the same output and unread input. -/
def Machine.EndAlike (first second : Except Halt Int32 × State) : Prop :=
  first.2.console = second.2.console ∧
    ((∃ value, first.1 = .ok value ∧ second.1 = .ok value) ∨
      ∃ function other, first.1 = .error (.failed (.divisionByZero function)) ∧
        second.1 = .error (.failed (.divisionByZero other)))

section

variable {source moduleName : String} {ir : IR.Module} {input : List Int32}

theorem compile_of_lower (parsed : Program.parse source = .ok program)
    (lowered : program.lower moduleName = .ok ir) : compile source moduleName = .ok ir := by
  unfold compile
  simp only [parsed, lowered]

theorem matches_of_endsWithin (compiled : compile source moduleName = .ok ir)
    (parsed : Program.parse source = .ok program) (leavesResults : program.LeavesResults)
    (leavesForwards : program.LeavesForwards) {limits : Limits}
    (within : ir.EndsWithin limits input) :
    Evaluation.Matches (program.evaluate (limits.steps + 1) input) (ir.run limits input) := by
  obtain ⟨count, tooFew, outcome⟩ := compile_runs compiled parsed leavesResults leavesForwards input
    limits.depth (limits.steps + 1)
  have isEnough : count ≤ limits.steps :=
    Nat.not_lt.1 fun few => within.1 (tooFew limits.steps few)
  rcases outcome with ⟨-, busy⟩ | outcome
  · omega
  · exact (outcome limits.steps isEnough).resolve_left fun deep => within.2 deep.1

/-- With enough instructions no limit ends the run of a program whose evaluation ends. -/
theorem exists_endsWithin (compiled : compile source moduleName = .ok ir)
    (parsed : Program.parse source = .ok program) (leavesResults : program.LeavesResults)
    (leavesForwards : program.LeavesForwards) {fuel depth : Nat} (isDeep : fuel < depth)
    (ends : (program.evaluate fuel input).result ≠ .error .outOfFuel) :
    ∃ enough, ∀ steps, enough ≤ steps → ir.EndsWithin ⟨steps, depth⟩ input := by
  obtain ⟨count, -, outcome⟩ := compile_runs compiled parsed leavesResults leavesForwards input
    depth fuel
  have outcome := outcome.resolve_left fun busy => ends busy.1
  refine ⟨count, fun steps enough => ?_⟩
  have isMatch := (outcome steps enough).resolve_left fun deep => by omega
  rcases isMatch.run_cases with ⟨value, isValue⟩ | ⟨function, isError⟩ |
      ⟨global, offset, function, isError⟩
  all_goals simp [IR.Module.EndsWithin, *]

theorem Evaluation.Matches.endAlike {outcome : Outcome}
    {first second : Except Halt Int32 × State}
    (ends : (∃ value, outcome.result = .ok value) ∨ outcome.result = .error .divisionByZero)
    (isFirst : Matches outcome first) (isSecond : Matches outcome second) :
    Machine.EndAlike first second := by
  refine ⟨isFirst.console.trans isSecond.console.symm, ?_⟩
  rcases ends with ⟨value, isValue⟩ | isZero
  · exact .inl ⟨value, isFirst.result.of_value isValue, isSecond.result.of_value isValue⟩
  · obtain ⟨function, isError⟩ := isFirst.result.of_divisionByZero isZero
    obtain ⟨other, isError'⟩ := isSecond.result.of_divisionByZero isZero
    exact .inr ⟨function, other, isError, isError'⟩

end

/-! ### Main result -/

/-- A program that only prints and branches, with integers in its expressions, and the program that has
global variables in their place and sets them to the integers first: both are compiled, and unless a
limit ends one of them their runs end alike, in the way that the first tree is evaluated.  With enough
instructions no limit ends them. -/
theorem compile_numbers_as_variables {source source' : String}
    (parsed : Program.parse source = .ok program) (parsed' : Program.parse source' = .ok program')
    (sets : program.Sets [] body) (sets' : program'.Sets settings body')
    (abstracts : Statement.AbstractsAll settings body body') (free : AreFree (settings.map Prod.fst))
    (moduleName moduleName' : String) :
    ∃ ir ir', compile source moduleName = .ok ir ∧ compile source' moduleName' = .ok ir' ∧
      ∀ input : List Int32, ∃ outcome, program.Evaluates input outcome ∧
        (∀ limits limits' : Limits, ir.EndsWithin limits input → ir'.EndsWithin limits' input →
          Evaluation.Matches outcome (ir.run limits input) ∧
            Machine.EndAlike (ir.run limits input) (ir'.run limits' input)) ∧
        ∀ depth, 2 ≤ depth → ∃ enough, ∀ steps, enough ≤ steps →
          ir.EndsWithin ⟨steps, depth⟩ input ∧ ir'.EndsWithin ⟨steps, depth⟩ input := by
  have areActions : ∀ statement ∈ body, statement.isDeclaration = false :=
    fun _ => abstracts.closed.isDeclaration
  have areActions' : ∀ statement ∈ body', statement.isDeclaration = false :=
    fun _ => abstracts.isDeclaration
  obtain ⟨ir, lowered⟩ := sets.exists_lower abstracts.closed areFree_nil moduleName
  obtain ⟨ir', lowered'⟩ := sets'.exists_lower abstracts free moduleName'
  have compiled : compile source moduleName = .ok ir := compile_of_lower parsed lowered
  have compiled' : compile source' moduleName' = .ok ir' := compile_of_lower parsed' lowered'
  have leaves := sets.leavesResults areActions areFree_nil
  have leaves' := sets'.leavesResults areActions' free
  have forwards := sets.leavesForwards areActions
  have forwards' := sets'.leavesForwards areActions'
  refine ⟨ir, ir', compiled, compiled', fun input => ?_⟩
  obtain ⟨outcome, ends, evaluated, evaluated'⟩ :=
    sets.exists_outcome sets' abstracts free input
  have fuelled : outcome.result ≠ .error .outOfFuel := by
    rcases ends with ⟨value, isValue⟩ | isError
    · simp [isValue]
    · simp [isError]
  refine ⟨outcome, ⟨fuelled, 1, ?_⟩, ?_, ?_⟩
  · intro fuel enough
    obtain ⟨fuel, rfl⟩ := Nat.exists_eq_add_of_le' enough
    exact evaluated fuel
  · intro limits limits' within within'
    have isMatch := matches_of_endsWithin compiled parsed leaves forwards within
    have isMatch' := matches_of_endsWithin compiled' parsed' leaves' forwards' within'
    rw [evaluated] at isMatch
    rw [evaluated'] at isMatch'
    exact ⟨isMatch, isMatch.endAlike ends isMatch'⟩
  · intro depth isDeep
    obtain ⟨enough, within⟩ := exists_endsWithin compiled parsed leaves forwards isDeep
      ((evaluated 0).symm ▸ fuelled)
    obtain ⟨enough', within'⟩ := exists_endsWithin compiled' parsed' leaves' forwards' isDeep
      ((evaluated' 0).symm ▸ fuelled)
    refine ⟨max enough enough', fun steps isEnough => ⟨within steps ?_, within' steps ?_⟩⟩
    · exact (Nat.le_max_left _ _).trans isEnough
    · exact (Nat.le_max_right _ _).trans isEnough

/-- Whether a program does nothing but print the opposite of a quotient of two integers. -/
def Program.printsQuotient (left right : Int32) : Program → Bool
  | ⟨[.callable ⟨name, [], some .integer, _⟩
      [.call callee [.negate (.binary .div (.number dividend _) (.number divisor _) _) _] _]]⟩ =>
      name == mainName && callee == "writeln" && dividend == left && divisor == right
  | _ => false

theorem Program.exists_of_printsQuotient {left right : Int32} {program : Program}
    (prints : program.printsQuotient left right = true) :
    ∃ p₁ p₂ p₃ p₄ p₅ p₆, program = ⟨[Parse.mainCallable p₁ [.call "writeln"
      [.negate (.binary .div (.number left p₂) (.number right p₃) p₄) p₅] p₆]]⟩ := by
  unfold printsQuotient at prints
  split at prints
  · simp only [Bool.and_eq_true, beq_iff_eq] at prints
    obtain ⟨⟨⟨rfl, rfl⟩, rfl⟩, rfl⟩ := prints
    exact ⟨_, _, _, _, _, _, rfl⟩
  · cases prints

/-- Whether a program does the same with two variables, which it sets to the integers. -/
def Program.setsQuotient (left right : String × Int32) : Program → Bool
  | ⟨[.vars ⟨names, .integer, _⟩, .callable ⟨name, [], some .integer, _⟩
      [.assign ⟨.ident first _, .number dividend _, _⟩,
        .assign ⟨.ident second _, .number divisor _, _⟩,
        .call callee [.negate (.binary .div (.ident first' _) (.ident second' _) _) _] _]]⟩ =>
      names == [left.1, right.1] && name == mainName && (first, dividend) == left &&
        (second, divisor) == right && callee == "writeln" && first' == left.1 && second' == right.1
  | _ => false

theorem Program.exists_of_setsQuotient {left right : String × Int32} {program : Program}
    (sets : program.setsQuotient left right = true) :
    ∃ p₁ p₂ p₃ p₄ p₅ p₆ p₇ p₈ p₉ q₁ q₂ q₃ q₄, program =
      ⟨[.vars ⟨[left.1, right.1], .integer, p₁⟩, Parse.mainCallable p₂
        [.assign ⟨.ident left.1 p₃, .number left.2 p₄, p₅⟩,
          .assign ⟨.ident right.1 p₆, .number right.2 p₇, p₈⟩,
          .call "writeln" [.negate (.binary .div (.ident left.1 p₉) (.ident right.1 q₁) q₂) q₃]
            q₄]]⟩ := by
  unfold setsQuotient at sets
  split at sets
  · simp only [Bool.and_eq_true, beq_iff_eq] at sets
    obtain ⟨⟨⟨⟨⟨⟨rfl, rfl⟩, rfl⟩, rfl⟩, rfl⟩, rfl⟩, rfl⟩ := sets
    exact ⟨_, _, _, _, _, _, _, _, _, _, _, _, _, rfl⟩
  · cases sets

/-- A quotient that is computed while code is built, and the same that the machine computes. -/
theorem compile_numbers_as_variables_quotient :
    ∃ program ir ir', Program.parse "begin writeln(-7 div 2) end." = .ok program ∧
      compile "begin writeln(-7 div 2) end." "built" = .ok ir ∧
      compile "var a, b: integer; begin a := 7; b := 2; writeln(-a div b) end." "run" = .ok ir' ∧
      ∀ input : List Int32, ∃ outcome, program.Evaluates input outcome ∧
        (∀ limits limits' : Limits, ir.EndsWithin limits input → ir'.EndsWithin limits' input →
          Evaluation.Matches outcome (ir.run limits input) ∧
            Machine.EndAlike (ir.run limits input) (ir'.run limits' input)) ∧
        ∀ depth, 2 ≤ depth → ∃ enough, ∀ steps, enough ≤ steps →
          ir.EndsWithin ⟨steps, depth⟩ input ∧ ir'.EndsWithin ⟨steps, depth⟩ input := by
  obtain ⟨program, parsed, prints⟩ := exists_of_any "begin writeln(-7 div 2) end."
    (·.printsQuotient 7 2) (by decide +kernel)
  obtain ⟨program', parsed', sets⟩ := exists_of_any
    "var a, b: integer; begin a := 7; b := 2; writeln(-a div b) end."
    (·.setsQuotient ("a", 7) ("b", 2)) (by decide +kernel)
  obtain ⟨_, _, _, _, _, _, rfl⟩ := Program.exists_of_printsQuotient prints
  obtain ⟨_, _, _, _, _, _, _, _, _, _, _, _, _, rfl⟩ := Program.exists_of_setsQuotient sets
  have free : AreFree ["a", "b"] := ⟨by decide, by decide, by decide, by decide⟩
  obtain ⟨ir, ir', runs⟩ := @compile_numbers_as_variables [("a", 7), ("b", 2)] _ _ _ _ _ _ parsed
    parsed' ⟨[], [], [], _, rfl, .inl rfl, .nil, .nil⟩
    ⟨[], [_], [_, _], _, rfl, .inl rfl, .cons ["a", "b"] _ .nil,
      .cons rfl _ _ (.cons rfl _ _ .nil)⟩
    (.cons (.writeln (.negate (.binary .div (.held List.mem_cons_self _ _)
      (.held (List.mem_cons_of_mem _ List.mem_cons_self) _ _) _ _) _ _) _ _) .nil) free "built" "run"
  exact ⟨_, ir, ir', parsed, runs⟩

end MiniPascal
