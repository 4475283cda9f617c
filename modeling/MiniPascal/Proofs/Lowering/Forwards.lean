import MiniPascal.Proofs.Lowering.Composed
import MiniPascal.Proofs.Lowering.Tables

/-!
# Forward declarations

A module is compiled only if each callable that was declared forward has been defined, or if its name
was declared as that of a variable or a constant: the last check asks the table of globals, in which
those stand too.  No earlier step complains of a missing definition.
-/

namespace MiniPascal

variable {α β : Type}

namespace Lower

/-! ### Only the last check complains -/

def Spares (action : Lower α) : Prop :=
  ∀ state name position state', action state ≠ .error (.forwardNeverDefined name position) state'

theorem Spares.bind {action : Lower α} {next : α → Lower β} (h₁ : Spares action)
    (h₂ : ∀ a, Spares (next a)) : Spares (action >>= next) := by
  intro state name position state' isError
  rw [bind_run] at isError
  split at isError
  · exact h₂ _ _ _ _ _ isError
  · rename_i error failed _ isFailed
    cases isError
    exact h₁ _ _ _ _ isFailed

theorem spares_ask {question : SymbolTable → Except SemanticError α}
    (answers : ∀ symbols, Answers (question symbols)) : Spares (ask question) := by
  intro state name position state' isError
  unfold ask at isError
  split at isError
  · cases isError
  · rename_i isAnswer
    cases isError
    exact answers _ _ _ isAnswer

/-- No step that statements are translated by complains. -/
theorem Composed.spares {reach : Reach} {action : Lower α} (composed : Composed reach action) :
    Spares action := by
  induction composed with
  | throw differs =>
      intro state name position state' isError
      cases isError
      exact differs name position rfl
  | ask answers => exact spares_ask answers
  | bind _ _ first next => exact first.bind next
  | pure | get | code | text | block | exits | function | symbols =>
      intro state name position state' isError
      cases isError

theorem spares_statements (items : List Statement) : Spares (statements items) := by
  have composed : Composed .declares (statements items) :=
    composed_statements (by decide) items none 0 (.inl rfl)
  exact composed.spares

/-! ### The last check -/

theorem before_asymm_trans {first second third : Position} (h₁ : second.before first = false)
    (h₂ : third.before second = false) : third.before first = false := by
  simp only [Position.before, Bool.or_eq_false_iff, Bool.and_eq_false_iff, decide_eq_false_iff_not,
    beq_eq_false_iff_ne, ne_eq] at *
  omega

theorem foldl_earlier (entries : List (String × Entry)) (first : String × Entry) :
    entries.foldl (fun first second =>
        if first.2.position.before second.2.position then first else second) first ∈
      first :: entries ∧
    ∀ other ∈ first :: entries, other.2.position.before (entries.foldl (fun first second =>
      if first.2.position.before second.2.position then first else second) first).2.position =
        false := by
  induction entries generalizing first with
  | nil => simp [Position.before]
  | cons second others ih =>
      rw [List.foldl_cons]
      split
      · rename_i isBefore
        obtain ⟨isIn, least⟩ := ih first
        refine ⟨by simp only [List.mem_cons] at *; tauto, fun other isOther => ?_⟩
        rcases List.mem_cons.1 isOther with rfl | isOther
        · exact least other (by simp)
        rcases List.mem_cons.1 isOther with rfl | isOther
        · refine before_asymm_trans (least first (by simp)) ?_
          simp only [Position.before, Bool.or_eq_true, Bool.or_eq_false_iff, Bool.and_eq_true,
            Bool.and_eq_false_iff, decide_eq_true_eq, decide_eq_false_iff_not, beq_iff_eq,
            beq_eq_false_iff_ne] at *
          omega
        · exact least other (List.mem_cons_of_mem _ isOther)
      · rename_i notBefore
        obtain ⟨isIn, least⟩ := ih second
        refine ⟨List.mem_cons_of_mem _ isIn, fun other isOther => ?_⟩
        rcases List.mem_cons.1 isOther with rfl | isOther
        · exact before_asymm_trans (least second (by simp)) (by simpa using notBefore)
        · exact least other isOther

theorem finish_eq_error {state state' : Lowering} {error : SemanticError}
    (failed : finish state = .error error state') :
    ∃ name entry, error = .forwardNeverDefined name entry.position ∧
      (name, entry) ∈ state.symbols.undefinedForwards ∧
      ∀ other ∈ state.symbols.undefinedForwards,
        other.2.position.before entry.position = false := by
  rw [finish, get_bind] at failed
  cases undefined : state.symbols.undefinedForwards with
  | nil => simp only [undefined] at failed; cases failed
  | cons first others =>
      simp only [undefined] at failed
      cases failed
      obtain ⟨isIn, least⟩ := foldl_earlier others first
      exact ⟨_, _, rfl, isIn, least⟩

/-! ### Programs -/

theorem has_builtins (builtins : List Builtin) (name : String) :
    Table.has (builtins.map fun builtin => (builtin.name, Lowering.builtinEntry builtin)) name = true ↔
      ∃ builtin ∈ builtins, builtin.name = name := by
  induction builtins with
  | nil => simp [Table.has]
  | cons first others ih =>
      rw [List.map_cons, Table.has_cons, ih]
      simp [eq_comm]

theorem lists_initial (moduleName : String) : Lists (Lowering.initial moduleName) [] := by
  refine ⟨Lowering.declares_initial moduleName, rfl, rfl, fun name => ?_,
    by simp [Lowering.initial, SymbolTable.empty], by simp, .nil, by simp, by simp,
    ⟨_, rfl, rfl, rfl⟩, ⟨_, rfl, rfl, rfl⟩, fun id function isFunction bound => ?_⟩
  · rw [Lowering.initial, has_builtins]
    simp
  · have inside : id < 2 := (Array.getElem?_eq_some_iff.1 isFunction).1
    exact absurd bound (Nat.not_le.2 inside)

theorem lists_items {items done : List Statement} {state : Lowering}
    (areItems : ∀ item ∈ items, item.IsItem) (lists : Lists state done) :
    Ensures (statements items) (fun _ state' => Lists state' (done ++ items)) state := by
  induction items generalizing done state with
  | nil => simpa [statements] using lists
  | cons first others ih =>
      rw [statements, ensures_bind]
      refine (lists_item lists (areItems first (by simp))).mono ?_
      rintro _ state₁ ⟨rfl, lists₁⟩
      simpa using ih (fun item isIn => areItems item (List.mem_cons_of_mem _ isIn)) lists₁

end Lower

theorem Program.lower_eq_error {program : Program} {moduleName name : String} {position : Position}
    (failed : program.lower moduleName = .error (.forwardNeverDefined name position)) :
    ∃ ending state state', Lower.statements program.statements (Lowering.initial moduleName) =
      .ok ending state ∧ Lower.finish state = .error (.forwardNeverDefined name position) state' := by
  rw [lower_eq] at failed
  cases translated : Lower.statements program.statements (Lowering.initial moduleName) with
  | error error state =>
      rw [bind_of_error _ translated] at failed
      cases failed
      exact absurd translated (Lower.spares_statements program.statements _ _ _ _)
  | ok ending state =>
      rw [bind_of_ok _ translated] at failed
      cases finished : Lower.finish state with
      | ok _ state' => rw [finished] at failed; cases failed
      | error error state' =>
          rw [finished] at failed
          cases failed
          exact ⟨ending, state, state', rfl, finished⟩

/-- What is declared forward and defined nowhere. -/
def Program.Undefined (program : Program) (heading : Heading) : Prop :=
  .forward heading ∈ program.statements ∧
    ∀ definition body, .callable definition body ∈ program.statements →
      definition.name ≠ heading.name

theorem Lowering.lists_of_statements {program : Program} {moduleName : String}
    (grammatical : program.Grammatical) {ending : Option Ending} {state : Lowering}
    (translated : Lower.statements program.statements (initial moduleName) = .ok ending state) :
    Lower.Lists state program.statements :=
  Lower.lists_items (fun _ => grammatical.isItem) (Lower.lists_initial moduleName) ending state
    translated

namespace Lower

variable {state : Lowering} {program : Program}

theorem Lists.defined (lists : Lists state program.statements) (leaves : program.LeavesForwards)
    {heading : Heading} (isForward : .forward heading ∈ program.statements)
    (has : state.symbols.globals.has heading.name = true) :
    ∃ definition body, .callable definition body ∈ program.statements ∧
      definition.name = heading.name := by
  rcases (lists.globals heading.name).1 has with ⟨builtin, isBuiltin, same⟩ | ⟨item, isIn, isName⟩
  · exact absurd same (lists.notBuiltin heading isForward builtin isBuiltin)
  · cases item with
    | callable definition body => exact ⟨definition, body, isIn, (List.mem_singleton.1 isName).symm⟩
    | _ => exact absurd isName (leaves heading isForward _ isIn)

theorem Lists.has_of_mem (lists : Lists state program.statements) {definition : Heading}
    {body : List Statement} (isIn : .callable definition body ∈ program.statements) :
    state.symbols.globals.has definition.name = true :=
  (lists.globals _).2 (.inr ⟨_, isIn, by simp [Statement.globalNames]⟩)

theorem has_of_undefinedForwards_eq_nil (isNil : state.symbols.undefinedForwards = [])
    {name : String} {entry : Entry} (isEntry : (name, entry) ∈ state.symbols.forwards) :
    state.symbols.globals.has name = true := by
  simpa using List.filter_eq_nil_iff.1 isNil (name, entry) isEntry

end Lower

/-- A callable declared forward is defined behind its declaration, with the same parameters and
result. -/
theorem Lower.Lists.exists_definition {state : Lowering} {program : Program}
    (lists : Lists state program.statements) (leaves : program.LeavesForwards)
    (isNil : state.symbols.undefinedForwards = []) {earlier later : List Statement}
    {heading : Heading} (isProgram : program.statements = earlier ++ .forward heading :: later) :
    ∃ definition body, .callable definition body ∈ later ∧ definition.name = heading.name ∧
      definition.shape = heading.shape := by
  have isForward : .forward heading ∈ program.statements := by simp [isProgram]
  obtain ⟨entry, isEntry, shape, -⟩ := lists.listed heading isForward
  obtain ⟨definition, body, isIn, same⟩ := lists.defined leaves isForward
    (has_of_undefinedForwards_eq_nil isNil (Table.mem_of_lookup isEntry))
  have matched := lists.matched definition body entry isIn (same ▸ isEntry)
  refine ⟨definition, body, ?_, same, matched.symm.trans shape⟩
  have fresh := lists.fresh
  rw [isProgram, List.pairwise_append] at fresh
  rw [isProgram, List.mem_append, List.mem_cons] at isIn
  rcases isIn with isIn | isIn | isIn
  · exact absurd (by simp [Statement.globalNames, same])
      (fresh.2.2 _ isIn _ (by simp) heading rfl)
  · cases isIn
  · exact isIn

/-- Behind the last check only the two external functions have no body. -/
theorem Lower.Lists.isDeclaration_eq_false {state : Lowering} {program : Program}
    (lists : Lists state program.statements) (leaves : program.LeavesForwards)
    (isNil : state.symbols.undefinedForwards = []) {function : IR.Function}
    (isIn : function ∈ state.builder.ir.functions) (notPrintf : function.name ≠ "printf")
    (notScanf : function.name ≠ "scanf") : function.isDeclaration = false := by
  obtain ⟨id, isFunction⟩ := Array.mem_iff_getElem?.1 isIn
  obtain ⟨printf, isPrintf, printfName, -⟩ := lists.printf
  obtain ⟨scanf, isScanf, scanfName, -⟩ := lists.scanf
  match id with
  | 0 => exact absurd (Option.some.inj (isFunction.symm.trans isPrintf) ▸ printfName) notPrintf
  | 1 => exact absurd (Option.some.inj (isFunction.symm.trans isScanf) ▸ scanfName) notScanf
  | id + 2 =>
      by_contra isDeclaration
      rw [Bool.not_eq_false] at isDeclaration
      obtain ⟨name, entry, isEntry, -, notDefined⟩ :=
        lists.missing _ function isFunction (Nat.le_add_left _ _) isDeclaration
      have isEntry := Table.mem_of_lookup isEntry
      obtain ⟨heading, isForward, rfl, -⟩ := lists.forwards name entry isEntry
      obtain ⟨definition, body, isIn, same⟩ := lists.defined leaves isForward
        (has_of_undefinedForwards_eq_nil isNil isEntry)
      exact notDefined definition body isIn same

/-- The last check complains about the earliest callable that is declared forward and not defined. -/
theorem Lower.Lists.undefined_of_finish {state state' : Lowering} {program : Program}
    (lists : Lists state program.statements) (leaves : program.LeavesForwards) {name : String}
    {position : Position}
    (failed : finish state = .error (.forwardNeverDefined name position) state') :
    ∃ heading, program.Undefined heading ∧ heading.name = name ∧ heading.position = position ∧
      ∀ other, program.Undefined other → other.position.before position = false := by
  obtain ⟨name, entry, ⟨⟩, isIn, least⟩ := finish_eq_error failed
  obtain ⟨isEntry, notGlobal⟩ := List.mem_filter.1 isIn
  obtain ⟨heading, isForward, rfl, -, position, -⟩ := lists.forwards name entry isEntry
  refine ⟨heading, ⟨isForward, fun definition body isIn same => ?_⟩, rfl, position.symm, ?_⟩
  · simp [← same, lists.has_of_mem isIn] at notGlobal
  · rintro other ⟨isOther, notDefined⟩
    obtain ⟨found, isFound, -, position⟩ := lists.listed other isOther
    rw [← position]
    refine least (other.name, found) (List.mem_filter.2 ⟨Table.mem_of_lookup isFound, ?_⟩)
    rw [Bool.not_eq_true', Bool.eq_false_iff]
    intro has
    obtain ⟨definition, body, isIn, same⟩ := lists.defined leaves isOther has
    exact notDefined definition body isIn same

/-- The check of forward declarations, for programs that keep the names of callables declared forward
for them: in a module that is compiled all of them have bodies, and a complaint is about the earliest
that has none. -/
theorem compile_checks_forwards {source moduleName : String} {program : Program}
    (parsed : Program.parse source = .ok program) (leaves : program.LeavesForwards) :
    (∀ ir, compile source moduleName = .ok ir →
      (∀ earlier heading later, program.statements = earlier ++ .forward heading :: later →
        ∃ definition body, .callable definition body ∈ later ∧ definition.name = heading.name ∧
          definition.shape = heading.shape) ∧
      ∀ function ∈ ir.functions, function.name ≠ "printf" → function.name ≠ "scanf" →
        function.isDeclaration = false) ∧
    ∀ name position, compile source moduleName =
        .error (.semantic (.forwardNeverDefined name position)) →
      ∃ heading, program.Undefined heading ∧ heading.name = name ∧ heading.position = position ∧
        ∀ other, program.Undefined other → other.position.before position = false := by
  have grammatical := Program.grammatical_of_parse parsed
  constructor
  · intro ir compiled
    obtain ⟨_, isProgram, lowered⟩ := compile_eq_ok compiled
    obtain rfl := Except.ok.inj (parsed.symm.trans isProgram)
    obtain ⟨ending, state, translated, finished, rfl⟩ := Program.lower_eq_ok lowered
    have lists := Lowering.lists_of_statements grammatical translated
    have isNil := (Lower.finish_eq_ok finished).2
    exact ⟨fun earlier heading later => lists.exists_definition leaves isNil,
      fun function => lists.isDeclaration_eq_false leaves isNil⟩
  · intro name position failed
    have notLowered : program.lower moduleName = .error (.forwardNeverDefined name position) := by
      unfold compile at failed
      rw [parsed] at failed
      cases lowered : program.lower moduleName with
      | ok ir => simp [lowered] at failed
      | error error => simpa [lowered] using failed
    obtain ⟨ending, state, state', translated, failed⟩ := Program.lower_eq_error notLowered
    exact (Lowering.lists_of_statements grammatical translated).undefined_of_finish leaves failed

def Program.firstForward? : Program → Option (Heading × List Statement)
  | ⟨.forward heading :: others⟩ => some (heading, others)
  | _ => none

theorem Program.eq_of_firstForward? {program : Program} {heading : Heading} {others : List Statement}
    (isFirst : program.firstForward? = some (heading, others)) :
    program = ⟨.forward heading :: others⟩ := by
  unfold firstForward? at isFirst
  split at isFirst <;> cases isFirst
  rfl

/-- A procedure that is declared forward and defined, and two of which neither is defined. -/
theorem compile_checks_forwards_procedure :
    (∃ first others ir,
      Program.parse "procedure p; forward; procedure p; begin end; begin p end." =
        .ok ⟨.forward first :: others⟩ ∧
      compile "procedure p; forward; procedure p; begin end; begin p end." "example" = .ok ir ∧
      first.name = "p" ∧
      (∃ definition body, .callable definition body ∈ others ∧ definition.name = "p" ∧
        definition.shape = first.shape) ∧
      ∀ function ∈ ir.functions, function.name ≠ "printf" → function.name ≠ "scanf" →
        function.isDeclaration = false) ∧
    ∃ program first second,
      Program.parse "procedure q; forward; procedure p; forward; begin end." = .ok program ∧
      compile "procedure q; forward; procedure p; forward; begin end." "example" =
        .error (.semantic (.forwardNeverDefined "q" ⟨1, 1⟩)) ∧
      program.Undefined first ∧ first.name = "q" ∧ first.position = ⟨1, 1⟩ ∧
      program.Undefined second ∧ second.name = "p" ∧ second.position = ⟨1, 23⟩ ∧
      ∀ other, program.Undefined other → other.position.before ⟨1, 1⟩ = false := by
  constructor
  · have isOk : (compile "procedure p; forward; procedure p; begin end; begin p end."
        "example").isOk = true := by decide +kernel
    obtain ⟨ir, compiled⟩ := exists_of_isOk isOk
    obtain ⟨program, parsed, isExample⟩ := exists_of_any
      "procedure p; forward; procedure p; begin end; begin p end."
      (fun program => decide program.LeavesForwards &&
        program.firstForward?.any (·.1.name == "p")) (by decide +kernel)
    rw [Bool.and_eq_true, decide_eq_true_eq, Option.any_eq_true] at isExample
    obtain ⟨leaves, ⟨first, others⟩, isFirst, isName⟩ := isExample
    obtain rfl := Program.eq_of_firstForward? isFirst
    obtain ⟨defined, haveBodies⟩ := (compile_checks_forwards parsed leaves).1 ir compiled
    have isName : first.name = "p" := by simpa using isName
    exact ⟨first, others, ir, parsed, compiled, isName, isName ▸ defined [] first others rfl,
      haveBodies⟩
  · have failed : compile "procedure q; forward; procedure p; forward; begin end." "example" =
        .error (.semantic (.forwardNeverDefined "q" ⟨1, 1⟩)) := by decide +kernel
    obtain ⟨program, parsed, isExample⟩ := exists_of_any
      "procedure q; forward; procedure p; forward; begin end."
      (fun program => decide program.LeavesForwards && program.firstForward?.any fun first =>
        (Program.firstForward? ⟨first.2⟩).any fun second => second.1.name == "p" &&
          second.1.position == ⟨1, 23⟩ && second.2.all (·.callableName? != some "p"))
      (by decide +kernel)
    rw [Bool.and_eq_true, decide_eq_true_eq, Option.any_eq_true] at isExample
    obtain ⟨leaves, ⟨first, others⟩, isFirst, isExample⟩ := isExample
    rw [Option.any_eq_true] at isExample
    obtain ⟨⟨second, others⟩, isSecond, isExample⟩ := isExample
    obtain rfl := Program.eq_of_firstForward? isFirst
    obtain ⟨⟩ := Program.eq_of_firstForward? isSecond
    simp only [Bool.and_eq_true, beq_iff_eq, List.all_eq_true, bne_iff_ne] at isExample
    obtain ⟨⟨isName, isPosition⟩, notDefined⟩ := isExample
    obtain ⟨heading, isUndefined, isName', isPosition', isEarliest⟩ :=
      (compile_checks_forwards parsed leaves).2 "q" ⟨1, 1⟩ failed
    refine ⟨_, heading, second, parsed, failed, isUndefined, isName', isPosition', ⟨by simp, ?_⟩,
      isName, isPosition, fun other isOther => isPosition' ▸ isEarliest other isOther⟩
    intro definition body isIn same
    simp only [List.mem_cons, reduceCtorEq, false_or] at isIn
    exact notDefined _ isIn (congrArg some (same.trans isName))

/-- A variable of the same name keeps a missing definition from being noticed. -/
theorem compile_missing_definition :
    ∃ ir, compile "procedure p; forward; var p: integer; begin end." "example" = .ok ir ∧
      ∃ function ∈ ir.functions, function.name = "p" ∧ function.isDeclaration = true := by
  have isAny : ((compile "procedure p; forward; var p: integer; begin end." "example").toOption.any
      fun ir => ir.functions.any fun function => function.name = "p" ∧ function.isDeclaration) =
        true := by decide +kernel
  cases compiled : compile "procedure p; forward; var p: integer; begin end." "example" with
  | error error => simp [compiled, Except.toOption] at isAny
  | ok ir =>
      refine ⟨ir, rfl, ?_⟩
      simp only [compiled, Except.toOption, Option.any_some, Array.any_eq_true, decide_eq_true_eq]
        at isAny
      obtain ⟨id, bound, isFunction⟩ := isAny
      exact ⟨_, Array.getElem_mem bound, isFunction⟩

end MiniPascal
