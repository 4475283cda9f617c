import MiniPascal.Proofs.IR.UniqueNames
import MiniPascal.Proofs.Lowering.Composed
import MiniPascal.Proofs.Lowering.Tables

/-!
# Names in a module

The globals of a module have distinct names, and so have its functions.  Each kind is looked through
for itself when a name is made unique, so that a global may have the name of a function.
-/

namespace MiniPascal

open IR (Build Builder NamedAfter)

/-! ### Names -/

namespace IR.Module

def globalNames (ir : Module) : List String := ir.globals.toList.map (·.name)

def functionNames (ir : Module) : List String := ir.functions.toList.map (·.name)

/-- The names of all that is defined or declared, as they stand behind an `@`. -/
def definedNames (ir : Module) : List String := ir.globalNames ++ ir.functionNames

end IR.Module

/-- The names of the variables that are stored in globals, declared inside of a callable or outside.
Inside, integers are not. -/
def VarGroup.stored (isLocal : Bool) (group : VarGroup) : List String :=
  match group.type, isLocal with
  | .integer, true => []
  | _, _ => group.names

def Statement.stored (isLocal : Bool) : Statement → List String
  | .vars group => group.stored isLocal
  | .constant name _ _ => [name]
  | _ => []

def Statement.storedNames : Statement → List String
  | .callable _ body => body.flatMap (Statement.stored true)
  | statement => statement.stored false

def Program.storedNames (program : Program) : List String :=
  program.statements.flatMap Statement.storedNames

def Program.functionNames (program : Program) : List String :=
  ["printf", "scanf"] ++ program.statements.filterMap Statement.callableName?

/-! ### Translations -/

/-- The names of a state's globals and functions are those that were asked for so far, and callables
that are declared forward have asked for theirs. -/
structure Lowering.Named (state : Lowering) (isLocal : Bool) (stored called : List String) :
    Prop where
  scope : state.symbols.enclosing.isSome = isLocal
  globals : NamedAfter (textGlobalName :: stored) state.builder.ir.globalNames
  functions : NamedAfter called state.builder.ir.functionNames
  forwards : ∀ name, state.symbols.forwards.has name = true → name ∈ called

namespace Lowering.Named

variable {state : Lowering} {isLocal : Bool} {stored called : List String}

theorem sameSignatures (named : state.Named isLocal stored called) {builder : Builder}
    (same : state.builder.SameSignatures builder) :
    { state with builder := builder }.Named isLocal stored called := by
  refine ⟨named.scope, ?_, ?_, named.forwards⟩
  · change NamedAfter _ (builder.ir.globals.toList.map (·.name))
    rw [same.globals]
    exact named.globals
  · change NamedAfter _ (builder.ir.functions.toList.map (·.name))
    rw [same.names]
    exact named.functions

theorem addGlobal (named : state.Named isLocal stored called) (name : String) (content : IR.Content)
    (constant : Bool) (linkage : IR.Linkage) :
    { state with builder := (IR.Build.addGlobal name content constant linkage state.builder).2 }.Named
      isLocal (stored ++ [name]) called := by
  refine ⟨named.scope, ?_, named.functions, named.forwards⟩
  change NamedAfter _ ((state.builder.ir.globals.push _).toList.map (·.name))
  rw [Array.toList_push, List.map_append]
  exact named.globals.add name

/-- The globals that hold texts are named after the first of them. -/
theorem addText (named : state.Named isLocal stored called) (text : String) :
    { state with builder := (IR.Build.addText text state.builder).2 }.Named isLocal stored called := by
  refine ⟨named.scope, ?_, named.functions, named.forwards⟩
  change NamedAfter _ ((state.builder.ir.globals.push _).toList.map (·.name))
  rw [Array.toList_push, List.map_append]
  exact named.globals.again List.mem_cons_self

theorem addFunction (named : state.Named isLocal stored called) (name : String) (parameters : Nat)
    (returnsValue variadic : Bool) :
    { state with builder :=
      (IR.Build.addFunction name parameters returnsValue variadic state.builder).2 }.Named
        isLocal stored (called ++ [name]) := by
  refine ⟨named.scope, named.globals, ?_, fun other has =>
    List.mem_append_left _ (named.forwards other has)⟩
  change NamedAfter _ ((state.builder.ir.functions.push _).toList.map (·.name))
  rw [Array.toList_push, List.map_append]
  exact named.functions.add name

theorem again (named : state.Named isLocal stored called) {name : String} (isIn : name ∈ called) :
    state.Named isLocal stored (called ++ [name]) where
  scope := named.scope
  globals := named.globals
  functions := named.functions.congr fun other => by
    rw [List.mem_append, List.mem_singleton]
    exact ⟨fun either => either.elim id fun same => same ▸ isIn, .inl⟩
  forwards other has := List.mem_append_left _ (named.forwards other has)

theorem symbols (named : state.Named isLocal stored called) (symbols : SymbolTable) {later : Bool}
    (scope : symbols.enclosing.isSome = later) (forwards : symbols.forwards = state.symbols.forwards) :
    { state with symbols := symbols }.Named later stored called :=
  ⟨scope, named.globals, named.functions, fun name has => named.forwards name (forwards ▸ has)⟩

theorem add (named : state.Named isLocal stored called) (name : String) (entry : Entry) :
    { state with symbols := state.symbols.add name entry }.Named isLocal stored called := by
  refine named.symbols _ ?_ ?_ <;> rw [SymbolTable.add] <;> split
  · exact named.scope
  · exact named.scope
  · rfl
  · rfl

end Lowering.Named

namespace Lower

variable {α : Type} {state : Lowering} {isLocal : Bool} {stored called : List String}

theorem Composed.named {reach : Reach} {action : Lower α} (composed : Composed reach action)
    (notDeclares : reach ≠ .declares) (named : state.Named isLocal stored called) :
    Ensures action (fun _ state' => state'.Named isLocal stored called) state := by
  induction composed generalizing state with
  | pure a => exact ensures_pure.2 named
  | throw _ => exact ensures_throw.2 trivial
  | get => exact ensures_get.2 named
  | ask _ => exact ensures_ask fun _ _ => named
  | code isCode _ | block _ isCode => exact ensures_build.2 (named.sameSignatures (isCode _))
  | text text => exact ensures_build.2 (named.addText text)
  | exits _ change => exact ensures_modify.2 ⟨named.scope, named.globals, named.functions, named.forwards⟩
  | function declares _ | symbols declares _ => exact absurd declares notDeclares
  | bind _ _ first next => exact ensures_bind.2 ((first named).mono fun a _ named' => next a named')

/-! ### Declarations -/

theorem named_declareLocal {position : Position} {name : String}
    (named : state.Named true stored called) :
    Ensures (declareVariable .integer position name)
      (fun _ state' => state'.Named true stored called) state := by
  refine ensures_declareVariable fun action _ room => ?_
  cases room with
  | slot isInside => exact (named.sameSignatures (IR.Build.isCode_alloca name _)).add name _
  | word isOutside =>
      rw [named.scope] at isOutside
      cases isOutside

theorem named_declareGlobal {shape : Shape} {position : Position} {name : String}
    (notSlot : isLocal = false ∨ shape ≠ .integer) (named : state.Named isLocal stored called) :
    Ensures (declareVariable shape position name)
      (fun _ state' => state'.Named isLocal (stored ++ [name]) called) state := by
  refine ensures_declareVariable fun action _ room => ?_
  cases room with
  | word isOutside => exact (named.addGlobal name _ _ _).add name _
  | array inOrder => exact (named.addGlobal name _ _ _).add name _
  | slot isInside =>
      rw [named.scope, notSlot.resolve_right fun differs => differs rfl] at isInside
      cases isInside

theorem named_declareConstant {name : String} {value : Int32} {position : Position}
    (named : state.Named isLocal stored called) :
    Ensures (declareConstant name value position)
      (fun _ state' => state'.Named isLocal (stored ++ [name]) called) state :=
  ensures_declareConstant fun _ => (named.addGlobal name _ _ _).add name _

theorem named_locals {position : Position} {names : List String}
    (named : state.Named true stored called) :
    Ensures (names.forM (declareVariable .integer position))
      (fun _ state' => state'.Named true stored called) state := by
  induction names generalizing state with
  | nil => exact ensures_pure.2 named
  | cons first others ih => exact ensures_bind.2 ((named_declareLocal named).mono fun _ _ => ih)

theorem named_globals {shape : Shape} {position : Position} {names : List String}
    (notSlot : isLocal = false ∨ shape ≠ .integer) (named : state.Named isLocal stored called) :
    Ensures (names.forM (declareVariable shape position))
      (fun _ state' => state'.Named isLocal (stored ++ names) called) state := by
  induction names generalizing state stored with
  | nil => exact ensures_pure.2 (by rwa [List.append_nil])
  | cons first others ih =>
      refine ensures_bind.2 ((named_declareGlobal notSlot named).mono fun _ state₁ named₁ => ?_)
      rw [List.append_cons]
      exact ih named₁

theorem named_vars (group : VarGroup) (named : state.Named isLocal stored called) :
    Ensures (vars group) (fun _ state' =>
      state'.Named isLocal (stored ++ group.stored isLocal) called) state := by
  obtain ⟨names, type, position⟩ := group
  rw [vars, ensures_bind]
  cases type with
  | integer =>
      refine ensures_pure.2 ?_
      cases isLocal with
      | true =>
          have none : VarGroup.stored true ⟨names, .integer, position⟩ = [] := rfl
          rw [none, List.append_nil]
          exact named_locals named
      | false => exact named_globals (.inl rfl) named
  | array low high =>
      have bound (expr : Expr) {state : Lowering} (named : state.Named isLocal stored called) :
          Ensures (constantValue expr) (fun _ state' => state'.Named isLocal stored called) state :=
        (composed_constantValue expr : Composed .straight _).named (by decide) named
      rw [shape, ensures_bind]
      refine (bound low named).mono fun first _ named₁ => ?_
      rw [ensures_bind]
      refine (bound high named₁).mono fun last _ named₂ => ensures_pure.2 ?_
      have stored : VarGroup.stored isLocal ⟨names, .array low high, position⟩ = names := by
        cases isLocal <;> rfl
      rw [stored]
      exact named_globals (.inr (by simp)) named₂

theorem named_storage {declaration : Statement} (isStorage : declaration.IsStorage)
    (named : state.Named isLocal stored called) :
    Ensures (statement declaration) (fun ending state' => ending = none ∧
      state'.Named isLocal (stored ++ declaration.stored isLocal) called) state := by
  cases declaration with
  | vars group =>
      rw [statement, ensures_bind]
      exact (named_vars group named).mono fun _ _ named' => ensures_pure.2 ⟨rfl, named'⟩
  | constant name value position =>
      rw [statement, constantDeclaration, bind_assoc, ensures_bind]
      have bound := (composed_constantValue value : Composed .straight _).named (by decide) named
      refine bound.mono fun number _ named₁ => ?_
      rw [ensures_bind]
      exact (named_declareConstant named₁).mono fun _ _ named' => ensures_pure.2 ⟨rfl, named'⟩
  | _ => exact isStorage.elim

theorem ensures_statements_cons {first : Statement} {others : List Statement}
    {post : Option Ending → Lowering → Prop}
    (h : Ensures (statement first)
      (fun ending state' => ending = none ∧ Ensures (statements others) post state') state) :
    Ensures (statements (first :: others)) post state := by
  rw [statements, ensures_bind]
  refine h.mono ?_
  rintro _ state' ⟨rfl, rest⟩
  exact rest

theorem stored_of_isAction {action : Statement} {loop : Option LoopId} {next : Nat}
    (isAction : action.IsAction loop next) : action.stored isLocal = [] := by
  cases action with
  | vars _ | constant _ _ _ => exact isAction.elim
  | _ => rfl

theorem stored_of_areActions {actions : List Statement} {loop : Option LoopId} {next : Nat}
    (areActions : Statement.AreActions loop next actions) :
    actions.flatMap (Statement.stored isLocal) = [] := by
  induction actions generalizing next with
  | nil => rfl
  | cons first others ih =>
      rw [List.flatMap_cons, stored_of_isAction areActions.1, ih areActions.2, List.append_nil]

theorem named_body {body : List Statement} {next : Nat} (isBody : IsBody next body)
    (named : state.Named true stored called) :
    Ensures (statements body) (fun _ state' =>
      state'.Named true (stored ++ body.flatMap (Statement.stored true)) called) state := by
  obtain ⟨declarations, actions, rfl, areStorage, areActions⟩ := isBody
  induction declarations generalizing state stored with
  | nil =>
      rw [List.nil_append, stored_of_areActions areActions, List.append_nil]
      have composed : Composed .jumps (statements actions) :=
        composed_statements (by decide) actions none next (.inr areActions)
      exact composed.named (by decide) named
  | cons first others ih =>
      rw [List.forall_mem_cons] at areStorage
      refine ensures_statements_cons ((named_storage areStorage.1 named).mono ?_)
      rintro _ state₁ ⟨rfl, named₁⟩
      refine ⟨rfl, ?_⟩
      rw [List.cons_append, List.flatMap_cons, ← List.append_assoc]
      exact ih named₁ areStorage.2

theorem named_declareResult {name : String} {position : Position}
    (named : state.Named true stored called) :
    Ensures (declareResult name position) (fun _ state' => state'.Named true stored called) state := by
  rw [declareResult, ensures_bind]
  refine (named_declareLocal named).mono fun _ state₁ named₁ => ?_
  have stores : Composed .straight (do
      let pointer ← address (resultName name) position
      build (IR.Build.store (.int 0) pointer)) := (composed_address _ _).bind fun _ => composed_emit _
  exact stores.named (by decide) named₁

theorem named_declareParameters {first : Nat} {parameters : List (String × Position)}
    (named : state.Named true stored called) :
    Ensures (declareParameters first parameters)
      (fun _ state' => state'.Named true stored called) state := by
  induction parameters generalizing state first with
  | nil => exact ensures_pure.2 named
  | cons parameter others ih =>
      rw [declareParameters, ensures_bind]
      refine (named_declareLocal named).mono fun _ state₁ named₁ => ?_
      rw [ensures_bind]
      refine ((composed_address _ _ : Composed .straight _).named (by decide) named₁).mono
        fun pointer state₂ named₂ => ?_
      rw [ensures_bind]
      exact ((composed_emit _ : Composed .straight _).named (by decide) named₂).mono fun _ _ => ih

theorem named_definedFunction {heading : Heading} (named : state.Named isLocal stored called) :
    Ensures (definedFunction heading)
      (fun _ state' => state'.Named isLocal stored (called ++ [heading.name])) state := by
  rw [definedFunction, ensures_bind, ensures_get]
  dsimp only
  split
  · rename_i entry isForward
    have again := named.again (named.forwards _ (Table.has_of_lookup isForward))
    split
    · rw [ensures_bind]
      exact ensures_throw.2 trivial
    · split
      · exact ensures_pure.2 again
      · exact ensures_throw.2 trivial
  · rw [ensures_bind]
    exact ensures_ask fun _ _ => ensures_build.2 (named.addFunction _ _ _ _)

theorem named_forwardDeclaration {heading : Heading} (named : state.Named isLocal stored called) :
    Ensures (forwardDeclaration heading)
      (fun _ state' => state'.Named isLocal stored (called ++ [heading.name])) state := by
  refine ensures_forwardDeclaration fun _ _ => ?_
  have added := named.addFunction heading.name heading.parameterCount heading.returns.isSome false
  refine ⟨named.scope, added.globals, added.functions, fun name has => ?_⟩
  rcases (Table.has_cons _ _ _ _).1 has with rfl | has
  · simp
  · exact added.forwards name has

theorem named_definition {heading : Heading} {body : List Statement} {next : Nat}
    (isBody : IsBody next body) (named : state.Named false stored called) :
    Ensures (definition heading (statements body)) (fun _ state' =>
      state'.Named false (stored ++ body.flatMap (Statement.stored true))
        (called ++ [heading.name])) state := by
  have filled (parameters : List (String × Position)) {state : Lowering} {called : List String}
      (named : state.Named true stored called) :
      Ensures (do
        declareParameters 0 parameters
        let _ ← statements body
        implicitReturn heading
        modifySymbols (·.leave)) (fun _ state' =>
          state'.Named false (stored ++ body.flatMap (Statement.stored true)) called) state := by
    rw [ensures_bind]
    refine (named_declareParameters named).mono fun _ state₁ named₁ => ?_
    rw [ensures_bind]
    refine (named_body isBody named₁).mono fun _ state₂ named₂ => ?_
    rw [ensures_bind]
    have returns : Composed .straight _ := composed_implicitReturn heading
    refine (returns.named (by decide) named₂).mono fun _ state₃ named₃ => ?_
    exact ensures_modify.2 (named₃.symbols _ rfl rfl)
  rw [definition, ensures_bind]
  refine (named_definedFunction named).mono fun id state₁ named₁ => ?_
  rw [ensures_bind]
  refine ensures_declareCallable fun _ => ?_
  have named₂ := named₁.add heading.name ⟨heading.shape, .function id, none, heading.position⟩
  have opens : IR.Build.IsCode (do IR.Build.setInsertPoint (← IR.Build.appendBlock id "body")) :=
    (IR.Build.isCode_appendBlock _ _).bind fun _ => IR.Build.isCode_setInsertPoint _
  have named₃ := (named₂.sameSignatures (opens _)).symbols
    ((state₁.symbols.add heading.name _).enter id heading.name) rfl rfl
  rw [ensures_bind, ensures_build, ensures_bind, ensures_build, ensures_bind, modifySymbols,
    ensures_modify]
  split
  · rw [ensures_bind]
    exact (named_declareResult named₃).mono fun _ _ => filled _
  · exact filled _ named₃

/-! ### Programs -/

theorem named_item_of_isStorage (item : Statement) (isStorage : item.IsStorage)
    (named : state.Named false stored called) :
    Ensures (statement item) (fun ending state' => ending = none ∧ state'.Named false
      (stored ++ item.storedNames) (called ++ item.callableName?.toList)) state := by
  refine (named_storage isStorage named).mono fun ending state' => ?_
  rintro ⟨rfl, named'⟩
  cases item with
  | vars group | constant name value position => exact ⟨rfl, by rwa [← List.append_nil called] at named'⟩
  | _ => exact isStorage.elim

theorem named_item {item : Statement} (isItem : item.IsItem)
    (named : state.Named false stored called) :
    Ensures (statement item) (fun ending state' => ending = none ∧ state'.Named false
      (stored ++ item.storedNames) (called ++ item.callableName?.toList)) state := by
  rcases isItem with ⟨name, rfl⟩ | ⟨next, isTopLevel⟩
  · rw [statement, ensures_pure]
    simpa [Statement.storedNames, Statement.stored, Statement.callableName?] using named
  · cases item with
    | forward heading =>
        rw [statement, ensures_bind]
        refine (named_forwardDeclaration named).mono fun _ _ named' => ensures_pure.2 ⟨rfl, ?_⟩
        rwa [← List.append_nil stored] at named'
    | callable heading body =>
        rw [statement, ensures_bind]
        exact (named_definition isTopLevel.2 named).mono fun _ _ named' => ensures_pure.2 ⟨rfl, named'⟩
    | vars group => exact named_item_of_isStorage (.vars group) isTopLevel named
    | constant name value position =>
        exact named_item_of_isStorage (.constant name value position) isTopLevel named
    | _ => exact isTopLevel.elim

theorem named_items {items : List Statement} (areItems : ∀ item ∈ items, item.IsItem)
    (named : state.Named false stored called) :
    Ensures (statements items) (fun _ state' => state'.Named false
      (stored ++ items.flatMap Statement.storedNames)
      (called ++ items.filterMap Statement.callableName?)) state := by
  induction items generalizing state stored called with
  | nil => exact ensures_pure.2 (by simpa using named)
  | cons first others ih =>
      rw [List.forall_mem_cons] at areItems
      refine ensures_statements_cons ((named_item areItems.1 named).mono ?_)
      rintro _ state₁ ⟨rfl, named₁⟩
      have callables : (first :: others).filterMap Statement.callableName? =
          first.callableName?.toList ++ others.filterMap Statement.callableName? := by
        cases isName : first.callableName? <;> simp [isName]
      rw [callables, List.flatMap_cons, ← List.append_assoc, ← List.append_assoc]
      exact ⟨rfl, ih areItems.2 named₁⟩

end Lower

theorem namedAfter_formats : NamedAfter [textGlobalName] [".str", ".str.1", ".str.2"] where
  nodup := by decide
  given := by decide
  asked := by
    simp only [List.forall_mem_cons]
    exact ⟨⟨_, List.mem_cons_self, .inl rfl⟩, ⟨_, List.mem_cons_self, .inr ⟨1, by decide +kernel⟩⟩,
      ⟨_, List.mem_cons_self, .inr ⟨2, by decide +kernel⟩⟩, nofun⟩

theorem Lowering.named_initial (moduleName : String) :
    (initial moduleName).Named false [] ["printf", "scanf"] where
  scope := rfl
  globals := namedAfter_formats
  functions := show NamedAfter ["printf", "scanf"] ["printf", "scanf"] from .self (by decide)
  forwards := nofun

/-- The globals and the functions of a module are named after those of the program. -/
theorem named_of_lower {program : Program} {moduleName : String} {ir : IR.Module}
    (grammatical : program.Grammatical) (lowered : program.lower moduleName = .ok ir) :
    NamedAfter (textGlobalName :: program.storedNames) ir.globalNames ∧
      NamedAfter program.functionNames ir.functionNames := by
  obtain ⟨ending, state, translated, -, rfl⟩ := Program.lower_eq_ok lowered
  have named := Lower.named_items (fun _ => grammatical.isItem) (Lowering.named_initial moduleName)
    ending state translated
  exact ⟨named.globals, named.functions⟩

/-! ### Clashes -/

theorem IsIdentifier.stem {name : String} (isIdentifier : IsIdentifier name) :
    IR.stem name = name.toList ∧ name.toList ≠ [] := by
  obtain ⟨⟨-, first, rest, isName, isLetter, areLetters⟩, -⟩ := isIdentifier
  have isDot : SymbolClass.ofChar '.' = .other := by decide
  refine ⟨IR.stem_of_not_mem fun isIn => ?_, by simp [isName]⟩
  rw [isName, List.mem_cons] at isIn
  rcases isIn with rfl | isIn
  · rw [isDot] at isLetter
    cases isLetter
  · rcases areLetters _ isIn with isLetter | isDigit
    · rw [isDot] at isLetter
      cases isLetter
    · rw [isDot] at isDigit
      cases isDigit

theorem isIdentifier_of_stored {declaration : Statement} (isStorage : declaration.IsStorage)
    {isLocal : Bool} {name : String} (isIn : name ∈ declaration.stored isLocal) :
    IsIdentifier name := by
  cases declaration with
  | vars group =>
      rw [Statement.stored] at isIn
      unfold VarGroup.stored at isIn
      split at isIn
      · cases isIn
      · exact isStorage.2.1 name isIn
  | constant other value position => exact List.mem_singleton.1 isIn ▸ isStorage.1
  | _ => exact isStorage.elim

theorem isIdentifier_of_storedNames {item : Statement} (isItem : item.IsItem) {name : String}
    (isIn : name ∈ item.storedNames) : IsIdentifier name := by
  have storage (declaration : Statement) (isStorage : declaration.IsStorage)
      (isIn : name ∈ declaration.stored false) : IsIdentifier name :=
    isIdentifier_of_stored isStorage isIn
  rcases isItem with ⟨header, rfl⟩ | ⟨next, isTopLevel⟩
  · cases isIn
  · cases item with
    | callable heading body =>
        obtain ⟨-, declarations, actions, rfl, areStorage, areActions⟩ := isTopLevel
        rw [Statement.storedNames, List.flatMap_append, Lower.stored_of_areActions areActions,
          List.append_nil, List.mem_flatMap] at isIn
        obtain ⟨declaration, isDeclaration, isIn⟩ := isIn
        exact isIdentifier_of_stored (areStorage declaration isDeclaration) isIn
    | vars group => exact storage (.vars group) isTopLevel isIn
    | constant other value position =>
        exact storage (.constant other value position) isTopLevel isIn
    | _ => cases isIn

theorem isIdentifier_of_callableName? {item : Statement} (isItem : item.IsItem) {name : String}
    (isName : item.callableName? = some name) : IsIdentifier name := by
  rcases isItem with ⟨header, rfl⟩ | ⟨next, isTopLevel⟩
  · cases isName
  · cases item with
    | forward heading =>
        obtain rfl := Option.some.inj isName
        exact isTopLevel.1
    | callable heading body =>
        obtain rfl := Option.some.inj isName
        exact isTopLevel.1.1
    | _ => cases isName

theorem stem_of_functionNames {program : Program} (grammatical : program.Grammatical)
    {name : String} (isIn : name ∈ program.functionNames) :
    IR.stem name = name.toList ∧ name.toList ≠ [] := by
  rw [Program.functionNames, List.mem_append, List.mem_filterMap] at isIn
  rcases isIn with isExternal | ⟨item, isItem, isName⟩
  · simp only [List.mem_cons, List.not_mem_nil, or_false] at isExternal
    rcases isExternal with rfl | rfl <;> decide +kernel
  · exact (isIdentifier_of_callableName? (grammatical.isItem isItem) isName).stem

/-- Names clash exactly if something that is stored in a global has the name of a function. -/
theorem nodup_definedNames {program : Program} {ir : IR.Module} (grammatical : program.Grammatical)
    (globals : NamedAfter (textGlobalName :: program.storedNames) ir.globalNames)
    (functions : NamedAfter program.functionNames ir.functionNames) :
    ir.definedNames.Nodup ↔ program.storedNames.Disjoint program.functionNames := by
  rw [IR.Module.definedNames, List.nodup_append']
  constructor
  · rintro ⟨-, -, disjoint⟩ name isStored isFunction
    exact disjoint (globals.given name (List.mem_cons_of_mem _ isStored))
      (functions.given name isFunction)
  · intro disjoint
    refine ⟨globals.nodup, functions.nodup, fun name isGlobal isFunction => ?_⟩
    obtain ⟨base, isBase, sameBase⟩ := globals.exists_stem isGlobal
    obtain ⟨function, isIn, sameFunction⟩ := functions.exists_stem isFunction
    obtain ⟨isStem, notEmpty⟩ := stem_of_functionNames grammatical isIn
    rw [sameBase, isStem] at sameFunction
    rcases List.mem_cons.1 isBase with rfl | isStored
    · exact notEmpty sameFunction.symm
    · obtain ⟨item, isItem, isStored'⟩ := List.mem_flatMap.1 isStored
      have isIdentifier := isIdentifier_of_storedNames (grammatical.isItem isItem) isStored'
      rw [isIdentifier.stem.1] at sameFunction
      exact disjoint isStored (String.toList_injective sameFunction ▸ isIn)

/-- In a module that is compiled, the globals have distinct names, the functions have distinct names,
and so have both together exactly if nothing that is stored in a global has the name of a callable or
of a function that the built-in callables call. -/
theorem compile_names {source moduleName : String} {program : Program} {ir : IR.Module}
    (parsed : Program.parse source = .ok program) (compiled : compile source moduleName = .ok ir) :
    ir.globalNames.Nodup ∧ ir.functionNames.Nodup ∧
      (ir.definedNames.Nodup ↔ program.storedNames.Disjoint program.functionNames) := by
  obtain ⟨_, isProgram, lowered⟩ := compile_eq_ok compiled
  obtain rfl := Except.ok.inj (isProgram.symm.trans parsed)
  have grammatical := Program.grammatical_of_parse parsed
  obtain ⟨globals, functions⟩ := named_of_lower grammatical lowered
  exact ⟨globals.nodup, functions.nodup, nodup_definedNames grammatical globals functions⟩

/-- The theorem at a program with a constant and an array of one name. -/
theorem compile_names_local :
    ∃ program ir, Program.parse "const a = 1; procedure p; var a: array[0..a] of integer; begin end;
        begin end." = .ok program ∧
      compile "const a = 1; procedure p; var a: array[0..a] of integer; begin end;
        begin end." "example" = .ok ir ∧ ir.definedNames.Nodup := by
  obtain ⟨program, parsed, disjoint⟩ := exists_of_any
    "const a = 1; procedure p; var a: array[0..a] of integer; begin end;
        begin end."
    (fun program => decide (∀ name ∈ program.storedNames, name ∉ program.functionNames))
    (by decide +kernel)
  have isOk : (compile "const a = 1; procedure p; var a: array[0..a] of integer; begin end;
        begin end." "example").isOk = true := by decide +kernel
  obtain ⟨ir, compiled⟩ := exists_of_isOk isOk
  have disjoint := of_decide_eq_true disjoint
  exact ⟨program, ir, parsed, compiled,
    (compile_names parsed compiled).2.2.2 fun name isStored => disjoint name isStored⟩

/-- A global variable may have the name of a function. -/
theorem compile_names_external :
    ∃ ir, compile "var printf: integer; begin end." "example" = .ok ir ∧ ¬ ir.definedNames.Nodup := by
  have isAny : (compile "var printf: integer; begin end." "example").toOption.any
      (fun ir => decide (¬ ir.definedNames.Nodup)) = true := by decide +kernel
  cases compiled : compile "var printf: integer; begin end." "example" with
  | error error => simp [compiled, Except.toOption] at isAny
  | ok ir => exact ⟨ir, rfl, by simpa [compiled, Except.toOption] using isAny⟩

end MiniPascal
