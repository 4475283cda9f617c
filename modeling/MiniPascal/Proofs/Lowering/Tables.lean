import MiniPascal.Proofs.Lowering.Programs
import MiniPascal.Proofs.Tree.Names

/-!
# Tables behind the statements of a program

What the tables of globals and of forward declarations hold when some of a program's top-level
statements have been translated, and which functions have no body by then.
-/

namespace MiniPascal

open IR (BlockId Builder Operand Instruction)
open Lowering (Ready)

/-! ### Look-up -/

theorem Table.has_cons (name other : String) (entry : Entry) (table : Table) :
    Table.has ((name, entry) :: table) other = true ↔ other = name ∨ table.has other = true := by
  simp only [Table.has, List.lookup_cons]
  by_cases same : other = name
  · simp [same]
  · simp only [beq_false_of_ne same, same, false_or]

theorem Table.has_append (first second : Table) (name : String) :
    Table.has (first ++ second) name = true ↔ first.has name = true ∨ second.has name = true := by
  induction first with
  | nil => simp [Table.has]
  | cons head tail ih => rw [List.cons_append, Table.has_cons, Table.has_cons, ih, or_assoc]

theorem Table.has_of_lookup {table : Table} {name : String} {entry : Entry}
    (isEntry : table.lookup name = some entry) : table.has name = true := by
  simp [Table.has, isEntry]

theorem Table.mem_of_lookup {table : Table} {name : String} {entry : Entry}
    (isEntry : table.lookup name = some entry) : (name, entry) ∈ table := by
  induction table with
  | nil => cases isEntry
  | cons head tail ih =>
      rw [List.lookup_cons] at isEntry
      split at isEntry
      · rename_i same
        obtain rfl := Option.some.inj isEntry
        simp [beq_iff_eq.1 same]
      · exact List.mem_cons_of_mem _ (ih isEntry)

theorem Table.exists_of_has {table : Table} {name : String} (has : table.has name = true) :
    ∃ entry, table.lookup name = some entry := Option.isSome_iff_exists.1 has

theorem Table.lookup_cons_of_has {table : Table} {name other : String} {entry found : Entry}
    (isNew : table.has name = false) (isFound : table.lookup other = some found) :
    ((name, entry) :: table : Table).lookup other = some found := by
  rw [List.lookup_cons]
  have different : other ≠ name := by
    rintro rfl
    simp [Table.has, isFound] at isNew
  simp only [beq_false_of_ne different, isFound]

namespace Lower

variable {state : Lowering} {id : IR.FunctionId}

/-! ### Definitions -/

theorem around_implicitReturn {heading : Heading} {here : BlockId} {pending : List Nat} {next : Nat}
    {ending : Option Ending} {state' : Lowering} (goes : state.Goes here pending next ending state') :
    Ensures (implicitReturn heading)
      (fun _ last => state'.builder.Around (some here.function) last.builder) state' := by
  cases ending with
  | some ending =>
      have isEnded : (IR.Build.isTerminated state'.builder).1 = true := (goes.ends rfl).2
      unfold implicitReturn
      rw [ensures_bind, ensures_build]
      simp only [isEnded, Bool.not_true, Bool.false_eq_true, if_false, ensures_pure]
      exact .refl _ _
  | none =>
      obtain ⟨there, leads, ready⟩ := goes.continues rfl
      refine (isStraight_implicitReturn heading state').mono fun _ last straight => ?_
      rw [← leads.same]
      exact (straight.grows there ready.insertPoint).around

structure Fills (state : Lowering) (id : IR.FunctionId) (state' : Lowering) : Prop where
  declares : state'.Declares none
  symbols : state'.symbols = { state.symbols with locals := [], enclosing := none }
  support : state'.support = state.support
  around : state.builder.Around (some id) state'.builder

theorem fills_body {heading : Heading} {body : List Statement} {next : Nat} {state' : Lowering}
    (entered : Entered state heading id state') (isBody : IsBody next body) :
    Ensures (fill heading (statements body)) (fun _ => Fills state' id) state' := by
  obtain ⟨declarations, actions, rfl, areStorage, areActions⟩ := isBody
  rw [fill, ensures_bind]
  refine (keeps_prologue entered).mono fun _ state₂ keeps₂ => ?_
  rw [ensures_bind]
  refine ensures_statements_append areStorage keeps₂.declares fun state₃ keeps₃ => ?_
  have ready₃ : state₃.Ready ⟨id, 0⟩ [] := keeps₃.declares
  have keeps := keeps₂.trans keeps₃
  have describes₃ := entered.describes.sameOuter (keeps.outer rfl)
  refine (runs_statements actions areActions ready₃ (by simp [Lowering.KnowsExit])).mono ?_
  intro ending state₄ goes
  rw [ensures_bind]
  refine ((sound_implicitReturn describes₃ goes).and ((around_implicitReturn goes).and
    (isStraight_implicitReturn heading state₄))).mono ?_
  rintro _ state₅ ⟨⟨sound₅, symbols₅⟩, around₅, straight₅⟩
  rw [modifySymbols, ensures_modify]
  refine ⟨⟨rfl, sound₅.leave⟩, ?_, ?_, ?_⟩
  · have outer := keeps.outer rfl
    simp only [SymbolTable.leave, symbols₅, outer.globals, outer.forwards]
  · exact (straight₅.support.trans goes.moves.support).trans keeps.support
  · exact (keeps.around.trans goes.moves.grows.around).trans around₅

/-- A callable has been defined: its name is a global, and its function has a body. -/
structure Defines (state : Lowering) (heading : Heading) (id : IR.FunctionId)
    (state' : Lowering) : Prop where
  declares : state'.Declares none
  notDefined : state.symbols.globals.has heading.name = false
  symbols : state'.symbols =
    ⟨(heading.name, ⟨heading.shape, .function id, none, heading.position⟩) :: state.symbols.globals,
      [], state.symbols.forwards, none⟩
  support : state'.support = state.support
  around : state.builder.Around (some id) state'.builder
  isForward : ∀ entry, state.symbols.forwards.lookup heading.name = some entry →
    entry.shape = heading.shape ∧ entry.storage = .function id
  function : ∃ function, state'.builder.ir.functions[id]? = some function ∧
    function.isDeclaration = false ∧ (state.symbols.forwards.lookup heading.name = none →
      id = state.builder.ir.functions.size ∧ function.name =
        IR.uniqueName (state.builder.ir.functions.toList.map (·.name)) heading.name)
  fresh : ∀ function, state.builder.ir.functions[id]? = some function → function.isDeclaration

theorem around_addFunction (builder : Builder) (name : String) (parameters : Nat)
    (returnsValue variadic : Bool) :
    builder.Around (some builder.ir.functions.size)
      (IR.Build.addFunction name parameters returnsValue variadic builder).2 where
  globals := List.prefix_rfl
  others other different := by
    change (builder.ir.functions.push _)[other]? = _
    rw [Array.getElem?_push, if_neg fun same => different (congrArg some same.symm)]
  function other function isFunction :=
    ⟨function, getElem?_addFunction_of_eq_some _ _ _ _ isFunction, rfl, Nat.le_refl _⟩

theorem Entered.around {heading : Heading} {state' : Lowering}
    (entered : Entered state heading id state') : state.builder.Around (some id) state'.builder := by
  obtain ⟨chosen, isChosen, rfl⟩ := entered.opened
  have added : chosen.builder.Around (some id)
      (chosen.builder.modifyFunction id (·.addBlock "body")) :=
    chosen.builder.around_modifyFunction id (fun _ => rfl) fun function => by
      simp [IR.Function.addBlock]
  have opened : chosen.builder.Around (some id) (Lower.opened chosen heading id).builder :=
    ⟨added.globals, added.others, added.function⟩
  rcases isChosen.made with ⟨rfl, -⟩ | ⟨-, rfl, rfl⟩
  · exact opened
  · exact (around_addFunction _ _ _ _ _).trans opened

theorem Entered.symbols {heading : Heading} {state' : Lowering} (outer : state.Declares none)
    (entered : Entered state heading id state') :
    state'.symbols = ⟨(heading.name, ⟨heading.shape, .function id, none, heading.position⟩) ::
      state.symbols.globals, state.symbols.locals, state.symbols.forwards,
      some ⟨id, heading.name⟩⟩ := by
  obtain ⟨chosen, isChosen, rfl⟩ := entered.opened
  simp [Lower.opened, isChosen.symbols, SymbolTable.add, outer.1, SymbolTable.enter]

theorem Entered.support {heading : Heading} {state' : Lowering}
    (entered : Entered state heading id state') : state'.support = state.support := by
  obtain ⟨chosen, isChosen, rfl⟩ := entered.opened
  rcases isChosen.made with ⟨rfl, -⟩ | ⟨-, -, rfl⟩ <;> rfl

theorem Entered.isForward {heading : Heading} {state' : Lowering}
    (entered : Entered state heading id state') {entry : Entry}
    (isEntry : state.symbols.forwards.lookup heading.name = some entry) :
    entry.shape = heading.shape ∧ entry.storage = .function id := by
  obtain ⟨chosen, isChosen, rfl⟩ := entered.opened
  exact isChosen.forward entry isEntry

theorem Entered.fresh {heading : Heading} {state' : Lowering}
    (entered : Entered state heading id state') {function : IR.Function}
    (isFunction : state.builder.ir.functions[id]? = some function) : function.isDeclaration := by
  obtain ⟨chosen, isChosen, rfl⟩ := entered.opened
  rcases isChosen.made with ⟨rfl, -⟩ | ⟨-, rfl, -⟩
  · obtain ⟨other, isOther, -, -, isDeclaration⟩ := isChosen.function
    obtain rfl := Option.some.inj (isFunction.symm.trans isOther)
    exact isDeclaration entered.notDefined
  · exact absurd (Array.getElem?_eq_some_iff.1 isFunction).1 (Nat.lt_irrefl _)

theorem Entered.function {heading : Heading} {state' : Lowering}
    (entered : Entered state heading id state') :
    ∃ function, state'.builder.ir.functions[id]? = some function ∧ 0 < function.blocks.size ∧
      (state.symbols.forwards.lookup heading.name = none → id = state.builder.ir.functions.size ∧
        function.name =
          IR.uniqueName (state.builder.ir.functions.toList.map (·.name)) heading.name) := by
  obtain ⟨chosen, isChosen, rfl⟩ := entered.opened
  obtain ⟨function, isFunction, -⟩ := isChosen.function
  refine ⟨function.addBlock "body", ?_, by simp [IR.Function.addBlock], fun isNone => ?_⟩
  · simp [Lower.opened, Builder.functions_modifyFunction, isFunction]
  · rcases isChosen.made with ⟨-, isSome⟩ | ⟨-, rfl, rfl⟩
    · simp [isNone] at isSome
    · obtain rfl := Option.some.inj (isFunction.symm.trans (getElem?_addFunction _ _ _ _ _))
      exact ⟨rfl, rfl⟩

theorem Entered.defines {heading : Heading} {state₁ state' : Lowering}
    (entered : Entered state heading id state₁) (outer : state.Declares none)
    (fills : Fills state₁ id state') : Defines state heading id state' := by
  have around := entered.around.trans fills.around
  obtain ⟨function, isFunction, hasBlock, isNamed⟩ := entered.function
  obtain ⟨later, isLater, name, size⟩ := fills.around.function id function isFunction
  refine ⟨fills.declares, entered.notDefined, ?_, fills.support.trans entered.support, around,
    fun entry => entered.isForward, ⟨later, isLater, ?_, ?_⟩, fun old => entered.fresh⟩
  · rw [fills.symbols, entered.symbols outer]
  · simp only [IR.Function.isDeclaration, Array.isEmpty, decide_eq_false_iff_not]
    omega
  · exact fun isNone => ⟨(isNamed isNone).1, name.trans (isNamed isNone).2⟩

theorem defines_definition {heading : Heading} {body : List Statement} {next : Nat}
    (outer : state.Declares none) (isBody : IsBody next body) :
    Ensures (definition heading (statements body)) (fun _ state' => ∃ id, Defines state heading id state')
      state := by
  refine ensures_definition outer fun id state₁ entered => ?_
  exact (fills_body entered isBody).mono fun _ state' fills => ⟨id, entered.defines outer fills⟩

/-! ### Variables and constants outside of callables -/

structure Stores (state : Lowering) (names : List String) (state' : Lowering) : Prop where
  symbols : ∃ entries : Table,
    state'.symbols = { state.symbols with globals := entries ++ state.symbols.globals } ∧
      (∀ name, entries.has name = true ↔ name ∈ names) ∧
      ∀ name entry, (name, entry) ∈ entries → ∃ pointer, entry.storage = .address pointer
  fresh : ∀ name ∈ names, state.symbols.globals.has name = false

theorem Stores.has {names : List String} {state' : Lowering} (stores : Stores state names state')
    (name : String) : state'.symbols.globals.has name = true ↔
      name ∈ names ∨ state.symbols.globals.has name = true := by
  obtain ⟨entries, isTable, has, -⟩ := stores.symbols
  simp only [isTable]
  rw [Table.has_append, has]

theorem stores_add (isNone : state.symbols.enclosing = none) (builder : Builder) {name : String}
    (entry : Entry) {pointer : Operand} (isAddress : entry.storage = .address pointer)
    (notTaken : state.symbols.current.has name = false) :
    Stores state [name]
      { state with symbols := state.symbols.add name entry, builder := builder } := by
  refine ⟨⟨[(name, entry)], ?_, fun other => ?_, fun other found isIn => ?_⟩, fun other isName => ?_⟩
  · simp [SymbolTable.add, isNone]
  · rw [Table.has_cons]
    simp [Table.has]
  · obtain ⟨-, rfl⟩ := Prod.mk.inj (List.mem_singleton.1 isIn)
    exact ⟨pointer, isAddress⟩
  · obtain rfl := List.mem_singleton.1 isName
    simpa [SymbolTable.current, isNone] using notTaken

theorem Stores.trans {first second third : Lowering} {names others : List String}
    (h₁ : Stores first names second) (h₂ : Stores second others third) :
    Stores first (names ++ others) third := by
  obtain ⟨entries, isTable, has, areAddresses⟩ := h₁.symbols
  obtain ⟨entries', isTable', has', areAddresses'⟩ := h₂.symbols
  refine ⟨⟨entries' ++ entries, ?_, fun name => ?_, fun name entry isIn => ?_⟩, fun name isName => ?_⟩
  · simp [isTable', isTable]
  · rw [Table.has_append, has, has', List.mem_append, or_comm]
  · exact (List.mem_append.1 isIn).elim (areAddresses' name entry) (areAddresses name entry)
  · rcases List.mem_append.1 isName with isName | isName
    · exact h₁.fresh name isName
    · by_contra taken
      rw [Bool.not_eq_false] at taken
      have fresh := h₂.fresh name isName
      rw [(h₁.has name).2 (.inr taken)] at fresh
      cases fresh

theorem stores_variables (outer : state.Declares none) (shape : Shape) (position : Position)
    (names : List String) :
    Ensures (names.forM (declareVariable shape position)) (fun _ => Stores state names) state := by
  induction names generalizing state with
  | nil => exact ensures_pure.2 ⟨⟨[], rfl, by simp [Table.has], by simp⟩, by simp⟩
  | cons name others ih =>
      have stores : Ensures (declareVariable shape position name) (fun _ => Stores state [name])
          state := ensures_declareVariable fun _ notTaken _ => stores_add outer.1 _ _ rfl notTaken
      change Ensures (declareVariable shape position name >>= fun _ => others.forM _) _ state
      rw [ensures_bind]
      refine (stores.and (keeps_declareVariable outer shape position name)).mono ?_
      rintro _ state₁ ⟨stores₁, keeps₁⟩
      exact (ih keeps₁.declares).mono fun _ state₂ stores₂ => stores₁.trans stores₂

theorem stores_storage {declaration : Statement} (outer : state.Declares none)
    (isStorage : declaration.IsStorage) :
    Ensures (statement declaration) (fun _ => Stores state declaration.storageNames) state := by
  cases declaration with
  | vars group =>
      simp only [statement, vars, ensures_bind, ensures_pure]
      refine (ensures_shape group.type isStorage.2.2).mono ?_
      rintro shape _ ⟨rfl, -⟩
      exact stores_variables outer shape group.position group.names
  | constant name value position =>
      simp only [statement, constantDeclaration, ensures_bind, ensures_pure]
      refine (ensures_constantValue value isStorage.2 state).mono ?_
      rintro value _ ⟨rfl, -⟩
      exact ensures_declareConstant fun notTaken => stores_add outer.1 _ _ rfl notTaken
  | _ => exact isStorage.elim

/-! ### Programs -/

structure Lists (state : Lowering) (done : List Statement) : Prop where
  declares : state.Declares none
  locals : state.symbols.locals = []
  support : state.support = ⟨0, 1, .global 0, .global 1, .global 2⟩
  globals : ∀ name, state.symbols.globals.has name = true ↔
    (∃ builtin ∈ Builtin.all, builtin.name = name) ∨ ∃ statement ∈ done, name ∈ statement.globalNames
  /-- Each forward entry is that of a declaration and has a function of its own. -/
  forwards : ∀ name entry, (name, entry) ∈ state.symbols.forwards →
    ∃ heading, .forward heading ∈ done ∧ heading.name = name ∧ entry.shape = heading.shape ∧
      entry.position = heading.position ∧ entry.constant = none ∧
      ∃ id, entry.storage = .function id ∧ 2 ≤ id
  listed : ∀ heading, .forward heading ∈ done → ∃ entry,
    state.symbols.forwards.lookup heading.name = some entry ∧ entry.shape = heading.shape ∧
      entry.position = heading.position
  /-- What is declared forward has not been declared before. -/
  fresh : done.Pairwise fun earlier later =>
    ∀ heading, later = .forward heading → heading.name ∉ earlier.globalNames
  notBuiltin : ∀ heading, .forward heading ∈ done →
    ∀ builtin ∈ Builtin.all, builtin.name ≠ heading.name
  matched : ∀ heading body entry, .callable heading body ∈ done →
    state.symbols.forwards.lookup heading.name = some entry → entry.shape = heading.shape
  printf : ∃ function, state.builder.ir.functions[0]? = some function ∧ function.name = "printf" ∧
    function.isDeclaration = true
  scanf : ∃ function, state.builder.ir.functions[1]? = some function ∧ function.name = "scanf" ∧
    function.isDeclaration = true
  /-- A function without a body, but for the two, is declared forward and not defined. -/
  missing : ∀ (id : IR.FunctionId) (function : IR.Function),
    state.builder.ir.functions[id]? = some function → 2 ≤ id → function.isDeclaration = true →
      ∃ name entry, state.symbols.forwards.lookup name = some entry ∧
        entry.storage = .function id ∧ ∀ heading body, .callable heading body ∈ done →
          heading.name ≠ name

theorem some_ne_of_two_le {first second : Nat} (atLeast : 2 ≤ first) (below : second < 2) :
    some first ≠ some second := by
  rw [ne_eq, Option.some.injEq]
  omega

theorem exists_of_around {old new : Builder} {changed? : Option IR.FunctionId}
    (around : old.Around changed? new) {id : IR.FunctionId} (notHere : changed? ≠ some id)
    {name : String} (isFunction : ∃ function, old.ir.functions[id]? = some function ∧
      function.name = name ∧ function.isDeclaration = true) :
    ∃ function, new.ir.functions[id]? = some function ∧ function.name = name ∧
      function.isDeclaration = true := by
  obtain ⟨function, isFunction, known⟩ := isFunction
  exact ⟨function, (around.others id notHere).trans isFunction, known⟩

theorem lists_stores {done : List Statement} {declaration : Statement} {state' : Lowering}
    (lists : Lists state done) (isStorage : declaration.IsStorage) (keeps : Keeps none state state')
    (stores : Stores state declaration.storageNames state') :
    Lists state' (done ++ [declaration]) := by
  obtain ⟨entries, isTable, -⟩ := stores.symbols
  have forwards : state'.symbols.forwards = state.symbols.forwards := by rw [isTable]
  have notForward (heading : Heading) : .forward heading ∈ done ++ [declaration] ↔
      .forward heading ∈ done := by
    cases declaration <;> simp_all [Statement.IsStorage]
  have notCallable (heading : Heading) (body : List Statement) :
      .callable heading body ∈ done ++ [declaration] ↔ .callable heading body ∈ done := by
    cases declaration <;> simp_all [Statement.IsStorage]
  refine ⟨keeps.declares, by rw [isTable]; exact lists.locals, keeps.support.trans lists.support, ?_,
    ?_, ?_, ?_, ?_, ?_, exists_of_around keeps.around (by simp) lists.printf,
    exists_of_around keeps.around (by simp) lists.scanf, ?_⟩
  · intro name
    rw [stores.has, lists.globals]
    simp only [List.mem_append, List.mem_singleton, or_and_right, exists_or, exists_eq_left,
      Statement.globalNames_of_isStorage isStorage]
    rw [or_comm, or_assoc]
  · simpa only [forwards, notForward] using lists.forwards
  · simpa only [forwards, notForward] using lists.listed
  · refine List.pairwise_append.2 ⟨lists.fresh, by simp, fun earlier _ later isLater heading isForward => ?_⟩
    rw [List.mem_singleton.1 isLater] at isForward
    subst isForward
    exact isStorage.elim
  · simpa only [notForward] using lists.notBuiltin
  · simpa only [forwards, notCallable] using lists.matched
  · intro id function isFunction
    rw [keeps.around.others id (by simp)] at isFunction
    simpa only [forwards, notCallable] using lists.missing id function isFunction

theorem lists_addForward {done : List Statement} {heading : Heading} (lists : Lists state done)
    (notForward : state.symbols.forwards.has heading.name = false)
    (notGlobal : state.symbols.globals.has heading.name = false)
    (declares : (state.addForward heading).Declares none) :
    Lists (state.addForward heading) (done ++ [.forward heading]) := by
  have notListed : ¬ ((∃ builtin ∈ Builtin.all, builtin.name = heading.name) ∨
      ∃ statement ∈ done, heading.name ∈ statement.globalNames) := by
    rw [← lists.globals, notGlobal]
    exact Bool.false_ne_true
  simp only [not_or, not_exists, not_and] at notListed
  obtain ⟨notBuiltin, notDeclared⟩ := notListed
  obtain ⟨printf, isPrintf, printfKnown⟩ := lists.printf
  obtain ⟨scanf, isScanf, scanfKnown⟩ := lists.scanf
  have size : 2 ≤ state.builder.ir.functions.size := (Array.getElem?_eq_some_iff.1 isScanf).1
  have around := around_addFunction state.builder heading.name heading.parameterCount
    heading.returns.isSome false
  have isNew := getElem?_addFunction state.builder heading.name heading.parameterCount
    heading.returns.isSome false
  have inTable {other : String} {entry : Entry}
      (isEntry : state.symbols.forwards.lookup other = some entry) :
      ((heading.name, ⟨heading.shape, .function state.builder.ir.functions.size, none,
        heading.position⟩) :: state.symbols.forwards : Table).lookup other = some entry :=
    Table.lookup_cons_of_has notForward isEntry
  -- the name is new to both tables, so that all other names keep what they had
  refine ⟨declares, lists.locals, lists.support, ?_, ?_, ?_, ?_, ?_, ?_,
    exists_of_around around (some_ne_of_two_le size (by decide)) ⟨printf, isPrintf, printfKnown⟩,
    exists_of_around around (some_ne_of_two_le size (by decide)) ⟨scanf, isScanf, scanfKnown⟩,
    ?_⟩
  · intro name
    simp only [Lowering.addForward, SymbolTable.addForward, lists.globals, List.mem_append,
      List.mem_singleton,
      or_and_right, exists_or, exists_eq_left, Statement.globalNames, Statement.storageNames,
      List.not_mem_nil, or_false]
  · intro name entry isEntry
    rcases List.mem_cons.1 isEntry with isEntry | isEntry
    · obtain ⟨rfl, rfl⟩ := Prod.mk.injEq .. ▸ isEntry
      exact ⟨heading, by simp, rfl, rfl, rfl, rfl, _, rfl, size⟩
    · obtain ⟨other, isIn, known⟩ := lists.forwards name entry isEntry
      exact ⟨other, by simp [isIn], known⟩
  · intro other isIn
    rcases List.mem_append.1 isIn with isIn | isIn
    · obtain ⟨entry, isEntry, same⟩ := lists.listed other isIn
      exact ⟨entry, inTable isEntry, same⟩
    · obtain rfl : other = heading := by simpa using isIn
      exact ⟨_, List.lookup_cons_self, rfl, rfl⟩
  · refine List.pairwise_append.2 ⟨lists.fresh, by simp, fun earlier isEarlier later isLater other isForward => ?_⟩
    rw [List.mem_singleton.1 isLater, Statement.forward.injEq] at isForward
    subst isForward
    exact notDeclared earlier isEarlier
  · intro other isIn
    rcases List.mem_append.1 isIn with isIn | isIn
    · exact lists.notBuiltin other isIn
    · obtain rfl : other = heading := by simpa using isIn
      exact notBuiltin
  · intro other body entry isIn isEntry
    have isIn : .callable other body ∈ done := by simpa using isIn
    simp only [Lowering.addForward, SymbolTable.addForward, List.lookup_cons] at isEntry
    split at isEntry
    · rename_i same
      exact absurd (by simp [Statement.globalNames, beq_iff_eq.1 same]) (notDeclared _ isIn)
    · exact lists.matched other body entry isIn isEntry
  · intro id function isFunction bound isDeclaration
    by_cases isLast : state.builder.ir.functions.size = id
    · subst isLast
      refine ⟨heading.name, _, List.lookup_cons_self, rfl, fun other body isIn same => ?_⟩
      have isIn : .callable other body ∈ done := by simpa using isIn
      exact notDeclared _ isIn (by simp [Statement.globalNames, same])
    · change (IR.Build.addFunction _ _ _ _ state.builder).2.ir.functions[id]? = _ at isFunction
      rw [around.others id fun same => isLast (Option.some.inj same)] at isFunction
      obtain ⟨name, entry, isEntry, isStorage, notDefined⟩ :=
        lists.missing id function isFunction bound isDeclaration
      exact ⟨name, entry, inTable isEntry, isStorage, by simpa using notDefined⟩

theorem lists_forward {done : List Statement} {heading : Heading} (lists : Lists state done) :
    Ensures (forwardDeclaration heading) (fun _ state' => Lists state' (done ++ [.forward heading]))
      state := by
  have declared : Ensures (forwardDeclaration heading)
      (fun _ state' => state'.Declares none → Lists state' (done ++ [.forward heading])) state := by
    refine ensures_forwardDeclaration fun notForward notGlobal declares => ?_
    exact lists_addForward lists notForward notGlobal declares
  exact ((declares_forward lists.declares).and declared).mono fun _ state' both => both.2 both.1

theorem lists_callable {done : List Statement} {heading : Heading} {body : List Statement}
    {next : Nat} (lists : Lists state done) (isBody : IsBody next body) :
    Ensures (definition heading (statements body))
      (fun _ state' => Lists state' (done ++ [.callable heading body])) state := by
  refine (defines_definition lists.declares isBody).mono ?_
  rintro _ state' ⟨id, defines⟩
  obtain ⟨printf, isPrintf, printfKnown⟩ := lists.printf
  obtain ⟨scanf, isScanf, scanfKnown⟩ := lists.scanf
  have size : 2 ≤ state.builder.ir.functions.size := (Array.getElem?_eq_some_iff.1 isScanf).1
  obtain ⟨function, isFunction, hasBody, isNamed⟩ := defines.function
  have bound : 2 ≤ id := by
    cases isForward : state.symbols.forwards.lookup heading.name with
    | none => exact (isNamed isForward).1 ▸ size
    | some entry =>
        obtain ⟨-, -, -, -, -, -, other, isStorage, bound⟩ := lists.forwards _ entry (Table.mem_of_lookup isForward)
        rw [(defines.isForward entry isForward).2, Storage.function.injEq] at isStorage
        exact isStorage ▸ bound
  refine ⟨defines.declares, by rw [defines.symbols], defines.support.trans lists.support, ?_, ?_, ?_,
    ?_, ?_, ?_, exists_of_around defines.around (some_ne_of_two_le bound (by decide))
      ⟨printf, isPrintf, printfKnown⟩,
    exists_of_around defines.around (some_ne_of_two_le bound (by decide))
      ⟨scanf, isScanf, scanfKnown⟩, ?_⟩
  · intro name
    rw [defines.symbols, Table.has_cons, lists.globals]
    simp only [List.mem_append, List.mem_singleton, or_and_right, exists_or, exists_eq_left,
      Statement.globalNames]
    rw [or_comm, or_assoc]
  · intro name entry isEntry
    rw [defines.symbols] at isEntry
    obtain ⟨other, isIn, known⟩ := lists.forwards name entry isEntry
    exact ⟨other, by simp [isIn], known⟩
  · intro other isIn
    rw [defines.symbols]
    exact lists.listed other (by simpa using isIn)
  · refine List.pairwise_append.2 ⟨lists.fresh, by simp, fun earlier _ later isLater other isForward => ?_⟩
    rw [List.mem_singleton.1 isLater] at isForward
    cases isForward
  · intro other isIn
    exact lists.notBuiltin other (by simpa using isIn)
  · intro other otherBody entry isIn isEntry
    rw [defines.symbols] at isEntry
    rcases List.mem_append.1 isIn with isIn | isIn
    · exact lists.matched other otherBody entry isIn isEntry
    · obtain ⟨rfl, -⟩ : other = heading ∧ otherBody = body := by simpa using isIn
      exact (defines.isForward entry isEntry).1
  · intro other found isFound otherBound isDeclaration
    have different : other ≠ id := by
      rintro rfl
      obtain rfl := Option.some.inj (isFunction.symm.trans isFound)
      rw [hasBody] at isDeclaration
      cases isDeclaration
    rw [defines.around.others other fun same => different (Option.some.inj same).symm] at isFound
    obtain ⟨name, entry, isEntry, isStorage, notDefined⟩ :=
      lists.missing other found isFound otherBound isDeclaration
    refine ⟨name, entry, by rw [defines.symbols]; exact isEntry, isStorage, ?_⟩
    intro heading' body' isIn same
    rcases List.mem_append.1 isIn with isIn | isIn
    · exact notDefined heading' body' isIn same
    · obtain ⟨rfl, -⟩ : heading' = heading ∧ body' = body := by simpa using isIn
      rw [← same] at isEntry
      rw [(defines.isForward entry isEntry).2, Storage.function.injEq] at isStorage
      exact different isStorage.symm

theorem lists_header {done : List Statement} (lists : Lists state done) (name : String) :
    Lists state (done ++ [.program name]) := by
  refine ⟨lists.declares, lists.locals, lists.support, ?_, ?_, ?_, ?_, ?_, ?_, lists.printf,
    lists.scanf, ?_⟩
  · simpa [or_and_right, exists_or, Statement.globalNames, Statement.storageNames]
      using lists.globals
  · simpa using lists.forwards
  · simpa using lists.listed
  · exact List.pairwise_append.2 ⟨lists.fresh, by simp, by simp⟩
  · simpa using lists.notBuiltin
  · simpa using lists.matched
  · simpa using lists.missing

theorem lists_item {done : List Statement} {item : Statement} (lists : Lists state done)
    (isItem : item.IsItem) :
    Ensures (statement item) (fun ending state' => ending = none ∧ Lists state' (done ++ [item]))
      state := by
  have storage (isStorage : item.IsStorage) : Ensures (statement item)
      (fun ending state' => ending = none ∧ Lists state' (done ++ [item])) state := by
    refine ((keeps_storage isStorage lists.declares).and
      (stores_storage lists.declares isStorage)).mono ?_
    rintro ending state' ⟨⟨isNone, keeps⟩, stores⟩
    exact ⟨isNone, lists_stores lists isStorage keeps stores⟩
  rcases isItem with ⟨name, rfl⟩ | ⟨next, isTopLevel⟩
  · rw [statement, ensures_pure]
    exact ⟨rfl, lists_header lists name⟩
  · cases item with
    | forward heading =>
        simp only [statement, ensures_bind, ensures_pure, true_and]
        exact lists_forward lists
    | callable heading body =>
        simp only [statement, ensures_bind, ensures_pure, true_and]
        exact lists_callable lists isTopLevel.2
    | vars group => exact storage isTopLevel
    | constant name value position => exact storage isTopLevel
    | _ => exact isTopLevel.elim

end Lower

end MiniPascal
