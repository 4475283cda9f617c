import MiniPascal.Proofs.Lowering.Globals

/-!
# Bodies in a compiled module

Where the translation of a program has got to the actions of a body, the symbol table is true of the
module that it ends with, and what has been emitted of the body is there in the end.
-/

namespace MiniPascal

open Lower (Entered)

section

variable {state : Lowering} {heading : Heading}

theorem Lower.Entered.unique {id other : IR.FunctionId} {entered found : Lowering}
    (first : Entered state heading id entered) (second : Entered state heading other found) :
    other = id ∧ found = entered := by
  obtain ⟨chosen, isChosen, rfl⟩ := first.opened
  obtain ⟨chosen', isChosen', rfl⟩ := second.opened
  rcases isChosen.made with ⟨rfl, isForward⟩ | ⟨notForward, rfl, rfl⟩
  · obtain ⟨entry, isEntry⟩ := Option.isSome_iff_exists.1 isForward
    rcases isChosen'.made with ⟨rfl, -⟩ | ⟨notForward, -⟩
    · have same := (isChosen.forward entry isEntry).2.symm.trans (isChosen'.forward entry isEntry).2
      obtain rfl := Storage.function.inj same
      exact ⟨rfl, rfl⟩
    · rw [isEntry] at notForward
      cases notForward
  · rcases isChosen'.made with ⟨-, isForward⟩ | ⟨-, rfl, rfl⟩
    · rw [notForward] at isForward
      cases isForward
    · exact ⟨rfl, rfl⟩

/-! ### Items behind a definition -/

structure Lowering.Completes (state later : Lowering) : Prop where
  globals : state.builder.ir.globals.toList <+: later.builder.ir.globals.toList
  functions : ∀ (id : IR.FunctionId) (function : IR.Function),
    state.builder.ir.functions[id]? = some function → function.isDeclaration = false →
      later.builder.ir.functions[id]? = some function

theorem Lowering.Completes.refl (state : Lowering) : state.Completes state :=
  ⟨List.prefix_rfl, fun _ _ isFunction _ => isFunction⟩

theorem Lowering.Completes.trans {first second third : Lowering} (h₁ : first.Completes second)
    (h₂ : second.Completes third) : first.Completes third :=
  ⟨h₁.globals.trans h₂.globals, fun id function isFunction hasBody =>
    h₂.functions id function (h₁.functions id function isFunction hasBody) hasBody⟩

theorem Lower.completes_item {item : Statement} (isItem : item.IsItem)
    (outer : state.Declares none) :
    Ensures (Lower.statement item) (fun ending later => ending = none ∧ later.Declares none ∧
      state.Completes later) state := by
  rcases isItem with ⟨name, rfl⟩ | ⟨next, isTopLevel⟩
  · rw [Lower.statement, ensures_pure]
    exact ⟨rfl, outer, .refl state⟩
  have storage (isStorage : item.IsStorage) : Ensures (Lower.statement item)
      (fun _ later => state.Completes later) state :=
    (Lower.keeps_storage isStorage outer).mono fun _ later both =>
      ⟨both.2.around.globals, fun id function isFunction _ => by
        rwa [both.2.around.others id (by simp)]⟩
  suffices kept : Ensures (Lower.statement item) (fun _ later => state.Completes later) state from
    ((Lower.declares_topLevel outer isTopLevel).and kept).mono
      fun _ _ both => ⟨both.1.1, both.1.2, both.2⟩
  cases item with
  | vars group => exact storage isTopLevel
  | constant name value position => exact storage isTopLevel
  | forward heading =>
      rw [Lower.statement, ensures_bind]
      refine Lower.ensures_forwardDeclaration fun _ _ => ensures_pure.2 ⟨List.prefix_rfl, ?_⟩
      exact fun id function isFunction _ =>
        Lower.getElem?_addFunction_of_eq_some _ _ _ _ isFunction
  | callable heading body =>
      rw [Lower.statement, ensures_bind]
      refine (Lower.defines_definition outer isTopLevel.2).mono ?_
      rintro _ later ⟨id, defines⟩
      refine ensures_pure.2 ⟨defines.around.globals, fun other function isFunction hasBody => ?_⟩
      have different : other ≠ id := by
        rintro rfl
        rw [defines.fresh function isFunction] at hasBody
        cases hasBody
      rwa [defines.around.others other fun same => different (Option.some.inj same).symm]
  | _ => exact isTopLevel.elim

theorem Lower.completes_items {items : List Statement} (areItems : ∀ item ∈ items, item.IsItem)
    (outer : state.Declares none) :
    Ensures (Lower.statements items) (fun _ later => state.Completes later) state := by
  induction items generalizing state with
  | nil => exact ensures_pure.2 (.refl state)
  | cons first others ih =>
      rw [List.forall_mem_cons] at areItems
      refine Lower.ensures_statements_cons ((Lower.completes_item areItems.1 outer).mono ?_)
      rintro _ state₁ ⟨rfl, outer₁, completes₁⟩
      exact ⟨rfl, (ih areItems.2 outer₁).mono fun _ _ completes₂ => completes₁.trans completes₂⟩

end

/-! ### The actions of a body -/

def Statement.declares : Statement → Bool
  | .vars _ | .constant _ _ _ => true
  | _ => false

theorem takeWhile_declares {declarations actions : List Statement} {next : Nat}
    (areStorage : ∀ declaration ∈ declarations, declaration.IsStorage)
    (areActions : Statement.AreActions none next actions) :
    (declarations ++ actions).takeWhile (·.declares) = declarations := by
  induction declarations with
  | nil =>
      cases actions with
      | nil => rfl
      | cons first others =>
          have isAction := areActions.1
          rw [List.nil_append, List.takeWhile_cons_of_neg]
          cases first with
          | vars | constant => exact isAction.elim
          | _ => simp [Statement.declares]
  | cons first others ih =>
      rw [List.forall_mem_cons] at areStorage
      rw [List.cons_append, List.takeWhile_cons_of_pos, ih areStorage.2]
      have isStorage := areStorage.1
      cases first with
      | vars | constant => rfl
      | _ => exact isStorage.elim

namespace Program

variable {program : Program} {moduleName : String} {heading : Heading} {actions : List Statement}
  {id : IR.FunctionId} {state : Lowering}

theorem Reaches.ready_and_houses (grammatical : program.Grammatical)
    (reaches : program.Reaches moduleName heading id state) :
    state.Ready ⟨id, 0⟩ [] ∧ state.Houses := by
  obtain ⟨earlier, declarations, actions, later, ending, outer, ending', entered, isProgram,
    areStorage, translated, isEntered, reached⟩ := reaches
  have isItem (item : Statement) (isIn : item ∈ earlier) : item.IsItem :=
    grammatical.isItem (by simp [isProgram, isIn])
  obtain ⟨isOuter, houses⟩ := Lower.houses_items isItem (Lowering.declares_initial moduleName)
    (Lowering.houses_initial moduleName) ending outer translated
  have opened : Ensures (Lower.prologue heading >>= fun _ => Lower.statements (declarations ++ []))
      (fun _ state => state.Declares (some id)) entered := by
    rw [ensures_bind]
    refine (Lower.keeps_prologue isEntered).mono fun _ state₂ keeps₂ => ?_
    refine Lower.ensures_statements_append areStorage keeps₂.declares fun state₃ keeps₃ => ?_
    exact ensures_pure.2 keeps₃.declares
  have housed : Ensures (Lower.prologue heading >>= fun _ => Lower.statements declarations)
      (fun _ state => state.Houses) entered := by
    rw [ensures_bind]
    refine (Lower.houses_prologue heading (Lower.houses_entered isOuter isEntered houses)).mono ?_
    exact fun _ state₂ houses₂ => Lower.houses_storages areStorage houses₂
  refine ⟨opened ending' state ?_, housed ending' state reached⟩
  rwa [List.append_nil]

/-- A body begins with room for its variables, and the stores of what is in them at first. -/
theorem Reaches.opening (grammatical : program.Grammatical)
    (reaches : program.Reaches moduleName heading id state) :
    ∃ slots, state.Opening id slots heading.initialStores ∧ heading.slots.length ≤ slots := by
  obtain ⟨earlier, declarations, actions, later, ending, outer, ending', entered, isProgram,
    areStorage, translated, isEntered, reached⟩ := reaches
  have isItem (item : Statement) (isIn : item ∈ earlier) : item.IsItem :=
    grammatical.isItem (by simp [isProgram, isIn])
  obtain ⟨isOuter, -⟩ := Lower.houses_items isItem (Lowering.declares_initial moduleName)
    (Lowering.houses_initial moduleName) ending outer translated
  have opened : Ensures (Lower.prologue heading >>= fun _ => Lower.statements (declarations ++ []))
      (fun _ state => ∃ slots, state.Opening id slots heading.initialStores ∧
        heading.slots.length ≤ slots) entered := by
    rw [ensures_bind]
    refine (records_prologue isEntered (isEntered.keeps isOuter) rfl).mono ?_
    rintro _ state₂ ⟨-, keeps₂⟩
    refine records_append areStorage keeps₂ fun state₃ stock₃ _ _ records₃ keeps₃ _ _ => ?_
    obtain ⟨more, isSlots⟩ := records₃.grows.slots
    refine ensures_pure.2 ⟨_, keeps₃.opening id rfl, ?_⟩
    simp [← isSlots]
  refine opened ending' state ?_
  rwa [List.append_nil]

/-- The translation of a program has got to the first of a body's actions. -/
def Begins (program : Program) (moduleName : String) (heading : Heading) (actions : List Statement)
    (id : IR.FunctionId) (state : Lowering) : Prop :=
  ∃ earlier declarations later next ending outer ending' entered,
    program.statements = earlier ++ .callable heading (declarations ++ actions) :: later ∧
    (∀ declaration ∈ declarations, declaration.IsStorage) ∧
    Statement.AreActions none next actions ∧
    Lower.statements earlier (Lowering.initial moduleName) = .ok ending outer ∧
    Entered outer heading id entered ∧
    (do
      Lower.prologue heading
      Lower.statements declarations) entered = .ok ending' state

theorem Begins.reaches (begins : program.Begins moduleName heading actions id state) :
    program.Reaches moduleName heading id state := by
  obtain ⟨earlier, declarations, later, next, ending, outer, ending', entered, isProgram,
    areStorage, -, translated, isEntered, reached⟩ := begins
  exact ⟨earlier, declarations, actions, later, ending, outer, ending', entered, isProgram,
    areStorage, translated, isEntered, reached⟩

theorem Begins.areActions (begins : program.Begins moduleName heading actions id state) :
    ∃ next, Statement.AreActions none next actions := by
  obtain ⟨-, -, -, next, -, -, -, -, -, -, areActions, -⟩ := begins
  exact ⟨next, areActions⟩

/-- The translation goes on to the end of the body, and what has been emitted there is part of the
compiled module, where the function has a body. -/
theorem Begins.exists_end {source : String} {ir : IR.Module}
    (compiled : compile source moduleName = .ok ir) (parsed : Program.parse source = .ok program)
    (begins : program.Begins moduleName heading actions id state) :
    ∃ last, (do
      let _ ← Lower.statements actions
      Lower.implicitReturn heading) state = .ok () last ∧ last.builder.ir.Part id ir ∧
      ∃ function, ir.functions[id]? = some function ∧ function.isDeclaration = false := by
  have grammatical := Program.grammatical_of_parse parsed
  obtain ⟨earlier, declarations, later, next, ending, outer, ending', entered, isProgram,
    areStorage, areActions, translated, isEntered, reached⟩ := begins
  have isItem (item : Statement) (isIn : item ∈ program.statements) : item.IsItem :=
    grammatical.isItem isIn
  obtain ⟨id', outer', entered', state', filled, ending₁, last, translated', isEntered', isFilled,
    reached', isBody, isLater, rfl⟩ := compile_around compiled parsed isProgram areStorage
  -- both describe the same translation
  obtain ⟨rfl, rfl⟩ : none = ending ∧ outer' = outer := by
    simpa using translated'.symm.trans translated
  obtain ⟨rfl, rfl⟩ := isEntered.unique isEntered'
  obtain ⟨-, rfl⟩ : none = ending' ∧ state' = state := by simpa using reached'.symm.trans reached
  have isOuter : outer'.Declares none := (Lower.houses_items
    (fun item isIn => isItem item (by simp [isProgram, isIn])) (Lowering.declares_initial moduleName)
    (Lowering.houses_initial moduleName) _ _ translated').1
  have defines := isEntered'.defines isOuter
    (Lower.fills_body isEntered' ⟨declarations, actions, rfl, areStorage, areActions⟩ _ _ isFilled)
  obtain ⟨function, isFunction, hasBody, -⟩ := defines.function
  have completes := Lower.completes_items
    (fun item isIn => isItem item (by simp [isProgram, isIn])) defines.declares _ _ isLater
  have isCompleted := completes.functions _ function isFunction hasBody
  refine ⟨filled, isBody, IR.Module.part_of_functions completes.globals ?_, function, isCompleted,
    hasBody⟩
  rw [isCompleted]
  exact isFunction.symm

theorem Begins.part {source : String} {ir : IR.Module} (compiled : compile source moduleName = .ok ir)
    (parsed : Program.parse source = .ok program)
    (begins : program.Begins moduleName heading actions id state) : state.builder.ir.Part id ir := by
  obtain ⟨ready, -⟩ := begins.reaches.ready_and_houses (Program.grammatical_of_parse parsed)
  obtain ⟨next, areActions⟩ := begins.areActions
  obtain ⟨last, isBody, part, -⟩ := begins.exists_end compiled parsed
  exact part_body ready areActions _ _ isBody _ part

theorem exists_begins {source : String} {ir : IR.Module}
    (compiled : compile source moduleName = .ok ir) (parsed : Program.parse source = .ok program)
    {earlier declarations later : List Statement}
    (isProgram : program.statements =
      earlier ++ .callable heading (declarations ++ actions) :: later)
    (areStorage : ∀ declaration ∈ declarations, declaration.IsStorage) {next : Nat}
    (areActions : Statement.AreActions none next actions) :
    ∃ id state, program.Begins moduleName heading actions id state := by
  obtain ⟨id, outer, entered, state, -, -, -, isEarlier, isEntered, -, isReached, -⟩ :=
    compile_around compiled parsed isProgram areStorage
  exact ⟨id, state, earlier, declarations, later, next, none, outer, none, entered, isProgram,
    areStorage, areActions, isEarlier, isEntered, isReached⟩

def opening? (program : Program) (moduleName : String) : Option Lowering :=
  match program.statements with
  | .callable heading body :: _ =>
      let outer := Lowering.initial moduleName
      let builder := (IR.Build.addFunction heading.name heading.parameterCount heading.returns.isSome
        false outer.builder).2
      let start := Lower.opened { outer with builder := builder } heading
        outer.builder.ir.functions.size
      match (do
        Lower.prologue heading
        Lower.statements (body.takeWhile (·.declares))) start with
      | .ok _ state => some state
      | .error _ _ => none
  | _ => none

theorem begins_of_opening? {source : String} {ir : IR.Module}
    (compiled : compile source moduleName = .ok ir) (parsed : Program.parse source = .ok program)
    (isOpening : program.opening? moduleName = some state) :
    ∃ heading actions id, program.Begins moduleName heading actions id state := by
  unfold opening? at isOpening
  split at isOpening
  · rename_i heading body later isProgram
    have isItem : (Statement.callable heading body).IsItem :=
      (Program.grammatical_of_parse parsed).isItem (by simp [isProgram])
    obtain ⟨next, -, declarations, actions, rfl, areStorage, areActions⟩ :=
      isItem.resolve_left (by simp)
    have isSplit : program.statements = [] ++ .callable heading (declarations ++ actions) :: later :=
      isProgram
    obtain ⟨id, outer, entered, reached, -, -, -, isEarlier, isEntered, -, isReached, -⟩ :=
      compile_around compiled parsed isSplit areStorage
    obtain rfl : Lowering.initial moduleName = outer := by simpa [Lower.statements] using isEarlier
    obtain ⟨chosen, isChosen, rfl⟩ := isEntered.opened
    have notForward : (Lowering.initial moduleName).symbols.forwards.lookup heading.name = none := rfl
    rcases isChosen.made with ⟨-, isForward⟩ | ⟨-, rfl, rfl⟩
    · rw [notForward] at isForward
      cases isForward
    rw [takeWhile_declares areStorage areActions] at isOpening
    simp only [isReached, Option.some.injEq] at isOpening
    subst isOpening
    exact ⟨heading, actions, _, [], declarations, later, next, none, _, none, _, isSplit, areStorage,
      areActions, isEarlier, isEntered, isReached⟩
  · cases isOpening

end Program

end MiniPascal
