import MiniPascal.Proofs.IR.UniqueNames
import MiniPascal.Proofs.Lowering.Forwards
import MiniPascal.Proofs.Simulation.Definitions

/-!
# Programs while they are translated

Between the statements of a program the translation and the evaluation agree on the names outside of
callables, and each body that has been translated does what it is evaluated to, in any plan with
which the translation may end.
-/

namespace MiniPascal

open Evaluation (Eval Memory Place Names Scope Meaning)
open IR (Builder Operand)
open Lower (Defines Lists)
open Machine (Limits)

/-! ### The function of the program's body -/

/-- A name that is changed for another one gets a dot, which `main` has not. -/
theorem uniqueName_eq_mainName (taken : List String) (name : String) :
    IR.uniqueName taken name = mainName ↔ name = mainName ∧ mainName ∉ taken := by
  unfold IR.uniqueName
  split
  · rename_i isTaken
    obtain ⟨number, isNumbered⟩ := IR.freeName_eq taken name taken.length 1
    rw [isNumbered]
    constructor
    · intro same
      have hasDot := IR.dot_mem_numberedName name number
      rw [same] at hasDot
      simp [mainName] at hasDot
    · rintro ⟨rfl, notTaken⟩
      exact absurd isTaken notTaken
  · rename_i notTaken
    constructor
    · rintro rfl
      exact ⟨rfl, notTaken⟩
    · exact And.left

def SymbolTable.IsFunction (symbols : SymbolTable) (name : String) (id : IR.FunctionId) : Prop :=
  ∃ entry, symbols.getOuter? name = some entry ∧ entry.storage = .function id

def Lowering.NamesMain (state : Lowering) : Prop :=
  ∀ (id : IR.FunctionId) (function : IR.Function), state.builder.ir.functions[id]? = some function →
    (function.name = mainName ↔ state.symbols.IsFunction mainName id)

namespace Lowering.NamesMain

variable {state state' : Lowering}

theorem same (names : state.NamesMain)
    (functions : ∀ (id : IR.FunctionId) (later : IR.Function),
      state'.builder.ir.functions[id]? = some later →
        ∃ function, state.builder.ir.functions[id]? = some function ∧ later.name = function.name)
    (isFunction : ∀ id, state'.symbols.IsFunction mainName id ↔ state.symbols.IsFunction mainName id) :
    state'.NamesMain := by
  intro id later isLater
  obtain ⟨function, isOld, name⟩ := functions id later isLater
  rw [name, isFunction, names id function isOld]

theorem add (names : state.NamesMain) (sound : state.Sound []) {name : String}
    (isNew : state.symbols.getOuter? name = none)
    (functions : ∀ (id : IR.FunctionId) (later : IR.Function),
      state'.builder.ir.functions[id]? = some later →
        (∃ function, state.builder.ir.functions[id]? = some function ∧ later.name = function.name) ∨
          id = state.builder.ir.functions.size ∧
            later.name = IR.uniqueName (state.builder.ir.functions.toList.map (·.name)) name)
    (isFunction : ∀ id, state'.symbols.IsFunction mainName id ↔
      if name = mainName then id = state.builder.ir.functions.size
      else state.symbols.IsFunction mainName id) : state'.NamesMain := by
  intro id later isLater
  rw [isFunction]
  rcases functions id later isLater with ⟨function, isOld, sameName⟩ | ⟨rfl, sameName⟩
  · have bound := (Array.getElem?_eq_some_iff.1 isOld).1
    rw [sameName, names id function isOld]
    split
    · rename_i isMain
      constructor
      · rintro ⟨entry, isEntry, -⟩
        rw [← isMain, isNew] at isEntry
        cases isEntry
      · intro same
        exact absurd bound (by rw [same]; exact Nat.lt_irrefl _)
    · rfl
  · rw [sameName, uniqueName_eq_mainName]
    split
    · rename_i isMain
      refine ⟨fun _ => rfl, fun _ => ⟨isMain, fun isTaken => ?_⟩⟩
      obtain ⟨function, isIn, isName⟩ := List.mem_map.1 isTaken
      obtain ⟨index, isOld⟩ := Array.mem_iff_getElem?.1 (Array.mem_toList_iff.1 isIn)
      obtain ⟨entry, isEntry, -⟩ := (names index function isOld).1 isName
      rw [← isMain, isNew] at isEntry
      cases isEntry
    · rename_i notMain
      refine ⟨fun isMain => absurd isMain.1 notMain, ?_⟩
      rintro ⟨entry, isEntry, isStorage⟩
      have entrySound := sound.outer isEntry
      simp only [Entry.Sound, isStorage] at entrySound
      obtain ⟨function, isOld, -⟩ := entrySound
      exact absurd (Array.getElem?_eq_some_iff.1 isOld).1 (Nat.lt_irrefl _)

end Lowering.NamesMain

/-! ### Later states -/

structure Succeeds (state : Lowering) (stock : Stock) (state' : Lowering) (stock' : Stock) :
    Prop where
  globals : state.builder.ir.globals.toList <+: state'.builder.ir.globals.toList
  owner : ∀ id home, stock.owner id = some home → stock'.owner id = some home
  functions : ∀ (id : IR.FunctionId) (function : IR.Function),
    state.builder.ir.functions[id]? = some function → function.isDeclaration = false →
      state'.builder.ir.functions[id]? = some function
  outer : ∀ name entry, state.symbols.getOuter? name = some entry →
    state'.symbols.getOuter? name = some entry
  support : state'.support = state.support

theorem Plan.Completes.before {plan : Plan} {outer : Names} {state state' : Lowering}
    {stock stock' : Stock} (completes : plan.Completes outer state' stock')
    (succeeds : Succeeds state stock state' stock') : plan.Completes outer state stock where
  fair := completes.fair
  covers := ⟨succeeds.globals.trans completes.covers.globals,
    fun id home isHome => completes.covers.owner id home (succeeds.owner id home isHome)⟩
  functions id function isFunction hasBody :=
    completes.functions id function (succeeds.functions id function isFunction hasBody) hasBody
  knows name entry isEntry := completes.knows name entry (succeeds.outer name entry isEntry)
  support := by
    rw [← succeeds.support]
    exact completes.support
  bodies := completes.bodies

structure Accounts (moduleName : String) (state : Lowering) (done : List Statement)
    (stock : Stock) (code : IR.FunctionId → Heading → List Statement → Prop) (names : Names) :
    Prop where
  lists : Lists state done
  texts : (Lowering.initial moduleName).builder.ir.globals.toList <+:
    state.builder.ir.globals.toList
  noSlots : stock.slots = []
  fits : stock.Fits state
  evaluated : done.foldlM Evaluation.topLevel? ⟨Evaluation.builtins, none⟩ = some ⟨names, none⟩
  agrees : ∀ plan : Plan, plan.Covers state.builder.ir stock →
    (∀ id heading body, code id heading body → plan.code id heading body) →
      plan.Agrees [] state.symbols.globals names
  forwards : ∀ name entry found, state.symbols.forwards.lookup name = some entry →
    state.symbols.globals.lookup name = some found →
      found.shape = entry.shape ∧ found.storage = entry.storage
  main : state.NamesMain
  hasBody : ∀ id heading body, code id heading body → ∃ function : IR.Function,
    state.builder.ir.functions[id]? = some function ∧ function.isDeclaration = false
  performs : ∀ id heading body, code id heading body → ∀ (plan : Plan) (outer : Names),
    plan.Completes outer state stock → ∀ (limits : Limits) (fuel : Nat),
      plan.Calls limits fuel (Evaluation.invoke outer fuel) →
        plan.Performs limits (fuel + 1) (Evaluation.invoke outer (fuel + 1)) id heading body

variable {moduleName : String} {state : Lowering} {done : List Statement} {stock : Stock}
  {code : IR.FunctionId → Heading → List Statement → Prop} {names : Names}

theorem Accounts.shares (accounts : Accounts moduleName state done stock code names) :
    state.Shares ⟨names, none⟩ where
  constants name value isConstant := by
    obtain ⟨entry, isEntry, isConstant⟩ := Option.bind_eq_some_iff.1 isConstant
    have notInside : state.symbols.enclosing = none := accounts.lists.declares.1
    simp only [SymbolTable.get?, notInside, Option.isSome_none, Bool.false_eq_true, if_false,
      SymbolTable.getOuter?] at isEntry
    cases isForward : state.symbols.forwards.lookup name with
    | some found =>
        rw [isForward, Option.some_or, Option.some.injEq] at isEntry
        subst isEntry
        obtain ⟨-, -, -, -, -, notConstant, -⟩ :=
          accounts.lists.forwards name found (Table.mem_of_lookup isForward)
        rw [notConstant] at isConstant
        cases isConstant
    | none =>
        rw [isForward, Option.none_or] at isEntry
        have agrees := accounts.agrees ⟨state.builder.ir, stock.owner, code⟩
          ⟨List.prefix_rfl, fun _ _ isHome => isHome⟩ fun _ _ _ isCode => isCode
        obtain ⟨meaning, isMeaning, means⟩ := agrees.exists_meaning isEntry
        obtain rfl := means.constant isConstant
        simp only [Scope.constant?, Scope.find?, isMeaning]
  callable := by
    rw [accounts.lists.declares.1]
    rfl

theorem foldlM_topLevel {item : Statement} (before : Scope) (after : Scope)
    (evaluated : done.foldlM Evaluation.topLevel? before = some ⟨names, none⟩)
    (isNext : Evaluation.topLevel? ⟨names, none⟩ item = some after) :
    (done ++ [item]).foldlM Evaluation.topLevel? before = some after := by
  rw [List.foldlM_append, evaluated]
  simp [isNext]

/-! ### Statements of a program -/

theorem accounts_initial (moduleName : String) :
    Accounts moduleName (Lowering.initial moduleName) [] ⟨fun _ => none, []⟩ (fun _ _ _ => False)
      Evaluation.builtins where
  lists := Lower.lists_initial moduleName
  texts := List.prefix_rfl
  noSlots := rfl
  fits := ⟨by simp, by simp, by simp, .nil, by simp, by simp [Lowering.initial, SymbolTable.empty]⟩
  evaluated := rfl
  agrees plan _ _ name := by
    by_cases isBuiltin : ∃ builtin, Builtin.name builtin = name
    · obtain ⟨builtin, rfl⟩ := isBuiltin
      cases builtin <;> exact .some ⟨rfl, rfl, rfl, rfl⟩
    · have isNone (builtins : List Builtin) {β : Type} (value : Builtin → β) :
          (builtins.map fun builtin => (builtin.name, value builtin)).lookup name = none := by
        rw [List.lookup_eq_none_iff]
        intro found isIn
        obtain ⟨builtin, -, rfl⟩ := List.mem_map.1 isIn
        have different : name ≠ builtin.name := fun same => isBuiltin ⟨builtin, same.symm⟩
        simp [different]
      rw [Lowering.initial, Evaluation.builtins, isNone, isNone]
      exact .none
  forwards name entry found isEntry := by cases isEntry
  main id function isFunction := by
    have notMain : function.name ≠ mainName := by
      have bound : id < 2 := (Array.getElem?_eq_some_iff.1 isFunction).1
      obtain rfl | rfl : id = 0 ∨ id = 1 := Nat.le_one_iff_eq_zero_or_eq_one.1 (Nat.le_of_lt_succ bound)
      · obtain rfl := Option.some.inj isFunction
        exact (by decide : "printf" ≠ mainName)
      · obtain rfl := Option.some.inj isFunction
        exact (by decide : "scanf" ≠ mainName)
    refine ⟨fun isMain => absurd isMain notMain, ?_⟩
    rintro ⟨entry, isEntry, -⟩
    have isNone : (Lowering.initial moduleName).symbols.getOuter? mainName = none := rfl
    rw [isNone] at isEntry
    cases isEntry
  hasBody _ _ _ isCode := isCode.elim
  performs _ _ _ isCode := isCode.elim

theorem Accounts.later (accounts : Accounts moduleName state done stock code names)
    {state' : Lowering} {stock' : Stock} (succeeds : Succeeds state stock state' stock')
    {id : IR.FunctionId} {heading : Heading} {body : List Statement} (isCode : code id heading body) :
    (∃ function : IR.Function, state'.builder.ir.functions[id]? = some function ∧
      function.isDeclaration = false) ∧
    ∀ (plan : Plan) (outer : Names), plan.Completes outer state' stock' →
      ∀ (limits : Limits) (fuel : Nat), plan.Calls limits fuel (Evaluation.invoke outer fuel) →
        plan.Performs limits (fuel + 1) (Evaluation.invoke outer (fuel + 1)) id heading body := by
  obtain ⟨function, isFunction, hasBody⟩ := accounts.hasBody id heading body isCode
  exact ⟨⟨function, succeeds.functions id function isFunction hasBody, hasBody⟩,
    fun plan outer completes =>
      accounts.performs id heading body isCode plan outer (completes.before succeeds)⟩

theorem accounts_header (accounts : Accounts moduleName state done stock code names)
    (name : String) :
    Accounts moduleName state (done ++ [.program name]) stock code names where
  lists := Lower.lists_header accounts.lists name
  texts := accounts.texts
  noSlots := accounts.noSlots
  fits := accounts.fits
  evaluated := foldlM_topLevel _ _ accounts.evaluated rfl
  agrees := accounts.agrees
  forwards := accounts.forwards
  main := accounts.main
  hasBody := accounts.hasBody
  performs := accounts.performs

theorem lookup_append_of_not_mem {first second : Table} {name : String}
    (notIn : first.has name = false) : (first ++ second).lookup name = second.lookup name := by
  have isNone : first.lookup name = none := by simpa [Table.has] using notIn
  rw [List.lookup_append, isNone, Option.none_or]

namespace Lower.Stores

variable {declared : List String} {state' : Lowering}

theorem forwards (stores : Stores state declared state') :
    state'.symbols.forwards = state.symbols.forwards := by
  obtain ⟨entries, isTable, -⟩ := stores.symbols
  rw [isTable]

theorem lookup_globals (stores : Stores state declared state') {name : String}
    (notNew : name ∉ declared) :
    state'.symbols.globals.lookup name = state.symbols.globals.lookup name := by
  obtain ⟨entries, isTable, has, -⟩ := stores.symbols
  rw [isTable]
  exact lookup_append_of_not_mem (Bool.eq_false_iff.2 fun isNew => notNew ((has name).1 isNew))

theorem getOuter?_of_eq_some (stores : Stores state declared state') {name : String}
    {entry : Entry} (isEntry : state.symbols.getOuter? name = some entry) :
    state'.symbols.getOuter? name = some entry := by
  rw [SymbolTable.getOuter?, Option.or_eq_some_iff] at isEntry ⊢
  rw [stores.forwards]
  refine isEntry.imp_right (And.imp_right fun isGlobal => ?_)
  have notNew : name ∉ declared := fun isNew => by
    have fresh := stores.fresh name isNew
    rw [Table.has_of_lookup isGlobal] at fresh
    cases fresh
  exact (stores.lookup_globals notNew).trans isGlobal

theorem getOuter?_cases (stores : Stores state declared state') {name : String} {entry : Entry}
    (isEntry : state'.symbols.getOuter? name = some entry) :
    state.symbols.getOuter? name = some entry ∨ ∃ pointer, entry.storage = .address pointer := by
  obtain ⟨entries, isTable, -, areAddresses⟩ := stores.symbols
  rw [SymbolTable.getOuter?, stores.forwards, Option.or_eq_some_iff] at isEntry
  rw [SymbolTable.getOuter?, Option.or_eq_some_iff]
  rcases isEntry with isForward | ⟨notForward, isGlobal⟩
  · exact .inl (.inl isForward)
  · rw [isTable, List.lookup_append, Option.or_eq_some_iff] at isGlobal
    rcases isGlobal with isNew | ⟨-, isOld⟩
    · exact .inr (areAddresses name entry (Table.mem_of_lookup isNew))
    · exact .inl (.inr ⟨notForward, isOld⟩)

theorem isFunction_iff (stores : Stores state declared state') (name : String)
    (id : IR.FunctionId) :
    state'.symbols.IsFunction name id ↔ state.symbols.IsFunction name id := by
  refine ⟨?_, fun ⟨entry, isEntry, isFunction⟩ =>
    ⟨entry, stores.getOuter?_of_eq_some isEntry, isFunction⟩⟩
  rintro ⟨entry, isEntry, isFunction⟩
  rcases stores.getOuter?_cases isEntry with isOld | ⟨pointer, isAddress⟩
  · exact ⟨entry, isOld, isFunction⟩
  · rw [isAddress] at isFunction
    cases isFunction

end Lower.Stores

theorem accounts_storage (accounts : Accounts moduleName state done stock code names)
    {declaration : Statement} (isStorage : declaration.IsStorage)
    (leaves : ∀ heading, .forward heading ∈ done → heading.name ∉ declaration.storageNames) :
    Ensures (Lower.statement declaration) (fun ending state' => ending = none ∧
      ∃ stock' names', Accounts moduleName state' (done ++ [declaration]) stock' code names')
      state := by
  have isOuter := accounts.lists.declares
  have keeps : stock.Keeps none [] state :=
    ⟨isOuter, accounts.fits, by simp, fun _ => accounts.noSlots⟩
  refine ((records_storage isStorage keeps).and ((Lower.keeps_storage isStorage isOuter).and
    (Lower.stores_storage isOuter isStorage))).mono ?_
  rintro ending state' ⟨⟨isNone, stock', added, records, keeps', -, declared⟩, ⟨-, kept⟩, stores⟩
  refine ⟨isNone, stock', added ++ names, ?_⟩
  have functions (id : IR.FunctionId) :
      state'.builder.ir.functions[id]? = state.builder.ir.functions[id]? :=
    kept.around.others id (by simp)
  have succeeds : Succeeds state stock state' stock' :=
    { globals := records.globals
      owner := records.grows.owner
      functions := fun id function isFunction _ => (functions id).trans isFunction
      outer := fun _ _ => stores.getOuter?_of_eq_some
      support := kept.support }
  exact
    { lists := Lower.lists_stores accounts.lists isStorage kept stores
      texts := accounts.texts.trans records.globals
      noSlots := keeps'.outside rfl
      fits := records.fits
      evaluated := by
        refine foldlM_topLevel _ _ accounts.evaluated ?_
        have isNext := declared ⟨names, none⟩ accounts.shares
        cases declaration with
        | vars group | constant name value position => exact isNext
        | _ => exact isStorage.elim
      agrees := by
        intro plan covers included
        have agrees := records.agrees plan covers names
        simp only [SymbolTable.current, records.enclosing, isOuter.1, Option.isSome_none,
          Bool.false_eq_true, if_false, accounts.noSlots, keeps'.outside rfl] at agrees
        exact agrees (accounts.agrees plan (covers.before records) included)
      forwards := by
        intro name entry found isEntry isFound
        rw [stores.forwards] at isEntry
        obtain ⟨heading, isForward, rfl, -⟩ :=
          accounts.lists.forwards name entry (Table.mem_of_lookup isEntry)
        rw [stores.lookup_globals (leaves heading isForward)] at isFound
        exact accounts.forwards heading.name entry found isEntry isFound
      main := accounts.main.same
        (fun id later isLater => ⟨later, (functions id).symm.trans isLater, rfl⟩)
        (stores.isFunction_iff mainName)
      hasBody := fun id heading body isCode => (accounts.later succeeds isCode).1
      performs := fun id heading body isCode => (accounts.later succeeds isCode).2 }

theorem getElem?_addFunction_of_lt (builder : Builder) (name : String) (parameters : Nat)
    (returnsValue variadic : Bool) {id : IR.FunctionId} {later : IR.Function}
    (isLater : (IR.Build.addFunction name parameters returnsValue variadic
      builder).2.ir.functions[id]? = some later) :
    builder.ir.functions[id]? = some later ∨ id = builder.ir.functions.size ∧
      later.name = IR.uniqueName (builder.ir.functions.toList.map (·.name)) name := by
  change (builder.ir.functions.push _)[id]? = _ at isLater
  rw [Array.getElem?_push] at isLater
  split at isLater
  · rename_i isLast
    obtain rfl := Option.some.inj isLater
    exact .inr ⟨isLast, rfl⟩
  · exact .inl isLater

theorem getOuter?_eq_none {symbols : SymbolTable} {name : String}
    (notForward : symbols.forwards.has name = false) (notGlobal : symbols.globals.has name = false) :
    symbols.getOuter? name = none := by
  have isNone : symbols.forwards.lookup name = none := by simpa [Table.has] using notForward
  have isNone' : symbols.globals.lookup name = none := by simpa [Table.has] using notGlobal
  rw [SymbolTable.getOuter?, isNone, isNone', Option.none_or]

theorem Lowering.getOuter?_addForward (state : Lowering) (heading : Heading) (name : String) :
    (state.addForward heading).symbols.getOuter? name =
      if name = heading.name then
        some ⟨heading.shape, .function state.builder.ir.functions.size, none, heading.position⟩
      else state.symbols.getOuter? name := by
  simp only [Lowering.addForward, SymbolTable.getOuter?, SymbolTable.addForward, List.lookup_cons]
  by_cases same : name = heading.name
  · simp [same]
  · simp [beq_false_of_ne same, same]

theorem succeeds_addForward {heading : Heading}
    (isNew : state.symbols.getOuter? heading.name = none) :
    Succeeds state stock (state.addForward heading) stock where
  globals := List.prefix_rfl
  owner _ _ isHome := isHome
  functions _ _ isFunction _ := Lower.getElem?_addFunction_of_eq_some _ _ _ _ isFunction
  outer name entry isEntry := by
    rw [Lowering.getOuter?_addForward, if_neg, isEntry]
    rintro rfl
    rw [isNew] at isEntry
    cases isEntry
  support := rfl

theorem Lowering.NamesMain.addForward (names : state.NamesMain) (sound : state.Sound [])
    {heading : Heading} (isNew : state.symbols.getOuter? heading.name = none) :
    (state.addForward heading).NamesMain := by
  refine names.add sound isNew (fun id later isLater => ?_) fun id => ?_
  · refine (getElem?_addFunction_of_lt _ _ _ _ _ isLater).imp_left fun isOld => ?_
    exact ⟨later, isOld, rfl⟩
  · unfold SymbolTable.IsFunction
    rw [Lowering.getOuter?_addForward]
    by_cases isMain : heading.name = mainName
    · rw [if_pos isMain, if_pos isMain.symm]
      simp [eq_comm]
    · rw [if_neg isMain, if_neg (Ne.symm isMain)]

theorem accounts_forward (accounts : Accounts moduleName state done stock code names)
    (heading : Heading) :
    Ensures (Lower.forwardDeclaration heading) (fun _ state' =>
      Accounts moduleName state' (done ++ [.forward heading]) stock code names) state := by
  have listed : Ensures (Lower.forwardDeclaration heading)
      (fun _ state' => Lists state' (done ++ [.forward heading])) state :=
    Lower.lists_forward accounts.lists
  suffices accounted : Ensures (Lower.forwardDeclaration heading) (fun _ state' =>
      Lists state' (done ++ [.forward heading]) →
        Accounts moduleName state' (done ++ [.forward heading]) stock code names) state from
    (listed.and accounted).mono fun _ state' both => both.2 both.1
  refine Lower.ensures_forwardDeclaration fun notForward notGlobal lists => ?_
  have isNew := getOuter?_eq_none notForward notGlobal
  have succeeds : Succeeds state stock (state.addForward heading) stock := succeeds_addForward isNew
  exact
    { lists := lists
      texts := accounts.texts
      noSlots := accounts.noSlots
      fits :=
        { injective := accounts.fits.injective
          global := accounts.fits.global
          taken := fun id home isHome => accounts.fits.taken id home isHome
          nodup := accounts.fits.nodup
          slot := accounts.fits.slot
          enclosing := accounts.fits.enclosing }
      evaluated := foldlM_topLevel _ _ accounts.evaluated rfl
      agrees := fun plan covers => accounts.agrees plan ⟨covers.globals, covers.owner⟩
      forwards := by
        intro name entry found isEntry isFound
        simp only [Lowering.addForward, SymbolTable.addForward, List.lookup_cons] at isEntry
        split at isEntry
        · rename_i same
          have isGlobal := Table.has_of_lookup isFound
          rw [beq_iff_eq.1 same] at isGlobal
          rw [show state.symbols.globals.has heading.name = true from isGlobal] at notGlobal
          cases notGlobal
        · exact accounts.forwards name entry found isEntry isFound
      main := accounts.main.addForward accounts.lists.declares.2 isNew
      hasBody := fun id heading body isCode => (accounts.later succeeds isCode).1
      performs := fun id heading body isCode => (accounts.later succeeds isCode).2 }

/-! ### Definitions of callables -/

theorem Builtin.name_ne_resultName (builtin : Builtin) : ∀ callable, builtin.name ≠ resultName callable := by
  cases builtin <;> decide

theorem Builtin.ofName?_eq_none {name : String}
    (notBuiltin : ¬ ∃ builtin ∈ Builtin.all, builtin.name = name) : Builtin.ofName? name = none := by
  rw [Builtin.ofName?, List.find?_eq_none]
  intro builtin isIn same
  exact notBuiltin ⟨builtin, isIn, beq_iff_eq.1 same⟩

theorem Statement.mem_declaredNames {statement : Statement} {name : String}
    (isGlobal : name ∈ statement.globalNames) : name ∈ statement.declaredNames := by
  cases statement with
  | callable heading body => simp [List.mem_singleton.1 isGlobal, Statement.declaredNames]
  | forward heading => cases isGlobal
  | _ => exact isGlobal

theorem Lower.Lists.getOuter?_resultName (lists : Lists state done)
    (leaves : ∀ item ∈ done, ∀ name ∈ item.declaredNames, ∀ callable, name ≠ resultName callable)
    (callable : String) : state.symbols.getOuter? (resultName callable) = none := by
  refine getOuter?_eq_none ?_ ?_
  · by_contra isForward
    rw [Bool.not_eq_false] at isForward
    obtain ⟨entry, isEntry⟩ := Table.exists_of_has isForward
    obtain ⟨heading, isIn, same, -⟩ := lists.forwards _ entry (Table.mem_of_lookup isEntry)
    exact leaves _ isIn heading.name (by simp [Statement.declaredNames]) callable same
  · by_contra isGlobal
    rw [Bool.not_eq_false, lists.globals] at isGlobal
    rcases isGlobal with ⟨builtin, -, same⟩ | ⟨item, isIn, isName⟩
    · exact builtin.name_ne_resultName callable same
    · exact leaves item isIn _ (Statement.mem_declaredNames isName) callable rfl

theorem IR.Module.part_of_functions {ir whole : IR.Module} {id : IR.FunctionId}
    (globals : ir.globals.toList <+: whole.globals.toList)
    (same : whole.functions[id]? = ir.functions[id]?) : ir.Part id whole := by
  refine ⟨globals, fun index => ?_, ?_⟩
  · simp [IR.Module.code, IR.Module.block?, same]
  · simp [IR.Module.registers, same]

structure Completed (state : Lowering) (stock : Stock) (heading : Heading) (body : List Statement)
    (id : IR.FunctionId) (stock' : Stock) (state' : Lowering) : Prop where
  defines : Defines state heading id state'
  slots : stock'.slots = []
  fits : stock'.Fits state'
  owner : ∀ id home, stock.owner id = some home → stock'.owner id = some home
  performs : ∀ (plan : Plan) (outer : Names), plan.Completes outer state' stock' →
    ∀ (limits : Limits) (fuel : Nat), plan.Calls limits fuel (Evaluation.invoke outer fuel) →
      plan.Performs limits (fuel + 1) (Evaluation.invoke outer (fuel + 1)) id heading body

theorem Stock.Fits.left {state₁ : Lowering} (fits : stock.Fits state₁)
    (globals : state₁.builder.ir.globals.toList <+: state.builder.ir.globals.toList)
    (same : state.symbols.globals = state₁.symbols.globals)
    (isOuter : state.symbols.enclosing = none) :
    Stock.Fits { stock with slots := [] } state := by
  refine ⟨fits.injective, fun id home isHome => ?_, fun id home isHome => ?_, .nil, by simp,
    by simp [isOuter]⟩
  · obtain ⟨global, isGlobal, known⟩ := fits.global id home isHome
    exact ⟨global, IR.getElem?_of_prefix globals isGlobal, known⟩
  · have taken := fits.taken id home isHome
    match home with
    | .scalar name | .array ⟨none, name⟩ => exact (congrArg (Table.has · name) same).trans taken
    | .array ⟨some callable, name⟩ =>
        exact ⟨(congrArg (Table.has · callable) same).trans taken.1, by simp [isOuter]⟩

theorem completed_definition (accounts : Accounts moduleName state done stock code names)
    {heading : Heading} {body : List Statement} {next : Nat} (isBody : IsBody next body)
    (leaves : ∀ item ∈ done ++ [.callable heading body], ∀ name ∈ item.declaredNames,
      ∀ callable, name ≠ resultName callable) :
    Ensures (Lower.definition heading (Lower.statements body)) (fun _ state' => ∃ id stock',
      Completed state stock heading body id stock' state') state := by
  have isOuter := accounts.lists.declares
  have clean := leaves _ (List.mem_append_right _ (List.mem_singleton_self _))
  refine Lower.ensures_definition isOuter fun id state₁ entered => ?_
  have cleanOuter (callable : String) : state₁.symbols.getOuter? (resultName callable) = none :=
    getOuter?_entered isOuter entered
      (accounts.lists.getOuter?_resultName
        (fun item isIn => leaves item (List.mem_append_left _ isIn)) callable)
      (clean _ (by simp [Statement.declaredNames]) callable)
  refine ((Lower.fills_body entered isBody).and (filled_fill isOuter accounts.lists.locals entered
    accounts.fits accounts.noSlots isBody clean cleanOuter)).mono ?_
  rintro _ state' ⟨fills, state₃, stock₃, filled⟩
  have defines := entered.defines isOuter fills
  have sameOuter (name : String) :
      state'.symbols.getOuter? name = state₁.symbols.getOuter? name := by
    simp [SymbolTable.getOuter?, fills.symbols]
  refine ⟨id, ⟨stock₃.owner, []⟩, defines, rfl, ?_, filled.owner, ?_⟩
  · refine filled.fits.left filled.globals ?_ (by rw [fills.symbols])
    rw [fills.symbols, filled.outer.globals]
  · intro plan outer completes
    obtain ⟨function, isFunction, hasBody, -⟩ := defines.function
    refine filled.performs plan outer completes.fair
      ⟨filled.globals.trans completes.covers.globals, completes.covers.owner⟩
      (fun name entry isEntry => completes.knows name entry ((sameOuter name).trans isEntry))
      (fills.support ▸ completes.support) completes.bodies
      (IR.Module.part_of_functions completes.covers.globals ?_)
    rw [completes.functions id function isFunction hasBody, isFunction]

theorem Lower.Defines.getOuter? {heading : Heading} {id : IR.FunctionId} {state' : Lowering}
    (defines : Defines state heading id state') (name : String) :
    state'.symbols.getOuter? name =
      if name = heading.name ∧ state.symbols.forwards.lookup name = none then
        some ⟨heading.shape, .function id, none, heading.position⟩
      else state.symbols.getOuter? name := by
  simp only [SymbolTable.getOuter?, defines.symbols, List.lookup_cons]
  cases isForward : state.symbols.forwards.lookup name with
  | some entry => simp
  | none =>
      by_cases same : name = heading.name
      · simp [same]
      · simp [same, beq_false_of_ne same]

theorem Lower.Defines.getOuter?_of_eq_some {heading : Heading} {id : IR.FunctionId}
    {state' : Lowering} (defines : Defines state heading id state') {name : String} {entry : Entry}
    (isEntry : state.symbols.getOuter? name = some entry) :
    state'.symbols.getOuter? name = some entry := by
  rw [defines.getOuter?, if_neg, isEntry]
  rintro ⟨rfl, notForward⟩
  rw [getOuter?_eq_none (by simp [Table.has, notForward]) defines.notDefined] at isEntry
  cases isEntry

theorem Completed.succeeds {heading : Heading} {body : List Statement} {id : IR.FunctionId}
    {stock' : Stock} {state' : Lowering}
    (completed : Completed state stock heading body id stock' state') :
    Succeeds state stock state' stock' where
  globals := completed.defines.around.globals
  owner := completed.owner
  functions other function isFunction hasBody := by
    have different : other ≠ id := by
      rintro rfl
      rw [completed.defines.fresh function isFunction] at hasBody
      cases hasBody
    rwa [completed.defines.around.others other fun same => different (Option.some.inj same).symm]
  outer _ _ := completed.defines.getOuter?_of_eq_some
  support := completed.defines.support

theorem Lowering.NamesMain.definition (names : state.NamesMain) (isOuter : state.Declares none)
    {heading : Heading} {id : IR.FunctionId} {state' : Lowering}
    (defines : Defines state heading id state') : state'.NamesMain := by
  obtain ⟨function, isFunction, -, isNamed⟩ := defines.function
  have others {other : IR.FunctionId} (different : other ≠ id) :
      state'.builder.ir.functions[other]? = state.builder.ir.functions[other]? :=
    defines.around.others other fun same => different (Option.some.inj same).symm
  cases isForward : state.symbols.forwards.lookup heading.name with
  | none =>
      obtain ⟨rfl, name⟩ := isNamed isForward
      have isNew := getOuter?_eq_none (by simp [Table.has, isForward]) defines.notDefined
      refine names.add isOuter.2 isNew (fun other later isLater => ?_) fun other => ?_
      · by_cases same : other = state.builder.ir.functions.size
        · subst same
          obtain rfl := Option.some.inj (isLater.symm.trans isFunction)
          exact .inr ⟨rfl, name⟩
        · rw [others same] at isLater
          exact .inl ⟨later, isLater, rfl⟩
      · unfold SymbolTable.IsFunction
        rw [defines.getOuter?]
        by_cases isMain : heading.name = mainName
        · rw [if_pos isMain, if_pos ⟨isMain.symm, isMain ▸ isForward⟩]
          simp [eq_comm]
        · rw [if_neg isMain, if_neg fun same => isMain same.1.symm]
  | some entry =>
      have entrySound := isOuter.2.forwards heading.name entry isForward
      simp only [Entry.Sound, (defines.isForward entry isForward).2] at entrySound
      obtain ⟨before, isBefore, -⟩ := entrySound
      refine names.same (fun other later isLater => ?_) fun other => ?_
      · by_cases same : other = id
        · subst same
          obtain ⟨after, isAfter, name, -⟩ := defines.around.function other before isBefore
          obtain rfl := Option.some.inj (isLater.symm.trans isAfter)
          exact ⟨before, isBefore, name⟩
        · rw [others same] at isLater
          exact ⟨later, isLater, rfl⟩
      · unfold SymbolTable.IsFunction
        rw [defines.getOuter?, if_neg]
        rintro ⟨isMain, notForward⟩
        rw [isMain, isForward] at notForward
        cases notForward

def withBody (code : IR.FunctionId → Heading → List Statement → Prop) (id : IR.FunctionId)
    (heading : Heading) (body : List Statement) (other : IR.FunctionId) (otherHeading : Heading)
    (otherBody : List Statement) : Prop :=
  code other otherHeading otherBody ∨ (other = id ∧ otherHeading = heading ∧ otherBody = body)

theorem accounts_callable (accounts : Accounts moduleName state done stock code names)
    {heading : Heading} {body : List Statement} {next : Nat} (isBody : IsBody next body)
    (leaves : ∀ item ∈ done ++ [.callable heading body], ∀ name ∈ item.declaredNames,
      ∀ callable, name ≠ resultName callable) :
    Ensures (Lower.definition heading (Lower.statements body)) (fun _ state' => ∃ stock' code',
      Accounts moduleName state' (done ++ [.callable heading body]) stock' code'
        ((heading.name, .callable heading body) :: names)) state := by
  refine ((Lower.lists_callable accounts.lists isBody).and
    (completed_definition accounts isBody leaves)).mono ?_
  rintro _ state' ⟨lists, id, stock', completed⟩
  refine ⟨stock', withBody code id heading body, ?_⟩
  have defines := completed.defines
  have succeeds := completed.succeeds
  have notBuiltin : Builtin.ofName? heading.name = none := by
    refine Builtin.ofName?_eq_none fun isBuiltin => ?_
    have has := (accounts.lists.globals heading.name).2 (.inl isBuiltin)
    rw [defines.notDefined] at has
    cases has
  exact
    { lists := lists
      texts := accounts.texts.trans defines.around.globals
      noSlots := completed.slots
      fits := completed.fits
      evaluated := foldlM_topLevel _ _ accounts.evaluated rfl
      agrees := by
        intro plan covers included
        have agrees := accounts.agrees plan
          ⟨succeeds.globals.trans covers.globals,
            fun id home isHome => covers.owner id home (succeeds.owner id home isHome)⟩
          fun other otherHeading otherBody isCode => included _ _ _ (.inl isCode)
        rw [defines.symbols]
        exact agrees.cons ⟨rfl, rfl, rfl, notBuiltin, id, rfl, included _ _ _ (.inr ⟨rfl, rfl, rfl⟩)⟩
      forwards := by
        intro name entry found isEntry isFound
        simp only [defines.symbols, List.lookup_cons] at isEntry isFound
        split at isFound
        · rename_i same
          obtain rfl := Option.some.inj isFound
          obtain ⟨isShape, isStorage⟩ := defines.isForward entry (beq_iff_eq.1 same ▸ isEntry)
          exact ⟨isShape.symm, isStorage.symm⟩
        · exact accounts.forwards name entry found isEntry isFound
      main := accounts.main.definition accounts.lists.declares defines
      hasBody := by
        rintro other otherHeading otherBody (isCode | ⟨rfl, rfl, rfl⟩)
        · exact (accounts.later succeeds isCode).1
        · obtain ⟨function, isFunction, hasBody, -⟩ := defines.function
          exact ⟨function, isFunction, hasBody⟩
      performs := by
        rintro other otherHeading otherBody (isCode | ⟨rfl, rfl, rfl⟩)
        · exact (accounts.later succeeds isCode).2
        · exact completed.performs }

/-! ### Programs -/

theorem accounts_items {items : List Statement}
    (accounts : Accounts moduleName state done stock code names)
    (areItems : ∀ item ∈ items, item.IsItem)
    (leavesResults : ∀ item ∈ done ++ items, ∀ name ∈ item.declaredNames,
      ∀ callable, name ≠ resultName callable)
    (leavesForwards : ∀ heading, .forward heading ∈ done ++ items →
      ∀ item ∈ done ++ items, heading.name ∉ item.storageNames) :
    Ensures (Lower.statements items) (fun _ state' => ∃ stock' code' names',
      Accounts moduleName state' (done ++ items) stock' code' names') state := by
  induction items generalizing done state stock code names with
  | nil => simpa [Lower.statements] using ⟨stock, code, names, accounts⟩
  | cons first others ih =>
      have split : done ++ first :: others = (done ++ [first]) ++ others := by simp
      have isIn : first ∈ done ++ first :: others := by simp
      -- once the first item is accounted for, the others are by induction
      have goOn {state₁ : Lowering} (accounted : ∃ stock' code' names',
          Accounts moduleName state₁ (done ++ [first]) stock' code' names') :
          Ensures (Lower.statements others) (fun _ state' => ∃ stock' code' names',
            Accounts moduleName state' (done ++ first :: others) stock' code' names') state₁ := by
        obtain ⟨stock₁, code₁, names₁, accounts₁⟩ := accounted
        rw [split] at leavesResults leavesForwards ⊢
        exact ih accounts₁ (fun item isIn => areItems item (List.mem_cons_of_mem _ isIn))
          leavesResults leavesForwards
      rw [Lower.statements, ensures_bind]
      suffices item : Ensures (Lower.statement first) (fun ending state₁ => ending = none ∧
          ∃ stock' code' names', Accounts moduleName state₁ (done ++ [first]) stock' code' names')
          state by
        refine item.mono ?_
        rintro _ state₁ ⟨rfl, accounted⟩
        exact goOn accounted
      have storage (isStorage : first.IsStorage) : Ensures (Lower.statement first)
          (fun ending state₁ => ending = none ∧ ∃ stock' code' names',
            Accounts moduleName state₁ (done ++ [first]) stock' code' names') state := by
        refine (accounts_storage accounts isStorage fun heading isForward =>
          leavesForwards heading (List.mem_append_left _ isForward) first isIn).mono ?_
        rintro ending state₁ ⟨isNone, stock₁, names₁, accounts₁⟩
        exact ⟨isNone, stock₁, code, names₁, accounts₁⟩
      rcases areItems first (by simp) with ⟨name, rfl⟩ | ⟨next, isTopLevel⟩
      · rw [Lower.statement, ensures_pure]
        exact ⟨rfl, stock, code, names, accounts_header accounts name⟩
      · cases first with
        | forward heading =>
            simp only [Lower.statement, ensures_bind, ensures_pure, true_and]
            exact (accounts_forward accounts heading).mono fun _ state₁ accounts₁ =>
              ⟨stock, code, names, accounts₁⟩
        | callable heading body =>
            simp only [Lower.statement, ensures_bind, ensures_pure, true_and]
            refine (accounts_callable accounts isTopLevel.2 fun item isItem => ?_).mono ?_
            · rw [split] at leavesResults
              exact leavesResults item (List.mem_append_left _ isItem)
            · rintro _ state₁ ⟨stock₁, code₁, accounts₁⟩
              exact ⟨stock₁, code₁, _, accounts₁⟩
        | vars group => exact storage isTopLevel
        | constant name value position => exact storage isTopLevel
        | _ => exact isTopLevel.elim

end MiniPascal
