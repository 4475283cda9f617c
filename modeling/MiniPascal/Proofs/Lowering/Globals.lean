import Mathlib.Data.List.Pairwise
import MiniPascal.Proofs.Lowering.DefinedNames
import MiniPascal.Proofs.Simulation.Results

/-!
# Globals behind names

A variable or an array that is not on the stack has a global of its own, and the global is made for
what the name stands for.  Declarations keep this, and nothing else touches it.
-/

namespace MiniPascal

open IR (Builder)

/-! ### Entries -/

namespace Entry

def global? (entry : Entry) : Option IR.GlobalId :=
  match entry.storage with
  | .address (.global id) => some id
  | _ => none

def Suits (entry : Entry) (global : IR.Global) : Prop :=
  global.constant = entry.constant.isSome ∧
    match entry.shape with
    | .integer => global.content = .int (entry.constant.getD 0)
    | .array low high => low < high ∧ entry.constant = none ∧
        global.content = .array (SymbolTable.arrayLength low high)
    | .callable _ _ => False

structure Housed (ir : IR.Module) (entry : Entry) : Prop where
  global : ∀ id, entry.global? = some id → ∃ global, ir.globals[id]? = some global ∧ entry.Suits global
  array : ∀ low high, entry.shape = .array low high → entry.global?.isSome

def Apart (first second : Entry) : Prop :=
  ∀ id, first.global? = some id → second.global? ≠ some id

theorem Apart.symm {first second : Entry} (apart : first.Apart second) : second.Apart first :=
  fun id isSecond isFirst => apart id isFirst isSecond

theorem Housed.mono {old new : IR.Module} {entry : Entry} (housed : entry.Housed old)
    (isPrefix : old.globals.toList <+: new.globals.toList) : entry.Housed new where
  global id isId := by
    obtain ⟨global, isGlobal, suits⟩ := housed.global id isId
    exact ⟨global, IR.getElem?_of_prefix isPrefix isGlobal, suits⟩
  array := housed.array

theorem housed_of_none {ir : IR.Module} {entry : Entry} (noGlobal : entry.global? = none)
    (notArray : ∀ low high, entry.shape ≠ .array low high) : entry.Housed ir :=
  ⟨fun id isId => by simp [noGlobal] at isId, fun low high isArray => absurd isArray (notArray low high)⟩

end Entry

/-! ### Tables -/

def SymbolTable.listed (symbols : SymbolTable) : Table := symbols.locals ++ symbols.globals

/-- Names have their globals, and no two names share one. -/
structure Lowering.Houses (state : Lowering) : Prop where
  housed : ∀ name entry, (name, entry) ∈ state.symbols.listed → entry.Housed state.builder.ir
  apart : state.symbols.listed.Pairwise fun first second => first.2.Apart second.2
  forwards : ∀ name entry, (name, entry) ∈ state.symbols.forwards → ∃ id, entry.storage = .function id

theorem SymbolTable.perm_listed_add (symbols : SymbolTable) (name : String) (entry : Entry) :
    (symbols.add name entry).listed.Perm ((name, entry) :: symbols.listed) := by
  unfold add listed
  split
  · exact .refl _
  · exact List.perm_middle

namespace Lowering.Houses

variable {state state' : Lowering} {name other : String} {entry found : Entry}

theorem extend (houses : state.Houses) (same : state'.symbols = state.symbols)
    (isPrefix : state.builder.ir.globals.toList <+: state'.builder.ir.globals.toList) :
    state'.Houses where
  housed name entry isIn := (houses.housed name entry (same ▸ isIn)).mono isPrefix
  apart := same ▸ houses.apart
  forwards := same ▸ houses.forwards

theorem add (houses : state.Houses) {builder : Builder}
    (isPrefix : state.builder.ir.globals.toList <+: builder.ir.globals.toList) (name : String)
    (housed : entry.Housed builder.ir)
    (isNew : ∀ id, entry.global? = some id → state.builder.ir.globals.size ≤ id) :
    Houses { state with symbols := state.symbols.add name entry, builder := builder } where
  housed other found isIn := by
    rcases List.mem_cons.1 ((state.symbols.perm_listed_add name entry).mem_iff.1 isIn) with
      isFirst | isOld
    · cases isFirst
      exact housed
    · exact (houses.housed other found isOld).mono isPrefix
  apart := by
    refine ((state.symbols.perm_listed_add name entry).pairwise_iff fun apart => apart.symm).2
      (List.pairwise_cons.2 ⟨?_, houses.apart⟩)
    rintro ⟨other, found⟩ isOld id isEntry isFound
    obtain ⟨global, isGlobal, -⟩ := (houses.housed other found isOld).global id isFound
    exact absurd (Array.getElem?_eq_some_iff.1 isGlobal).1 (Nat.not_lt.2 (isNew id isEntry))
  forwards other found isIn := by
    rw [Lowering.forwards_add] at isIn
    exact houses.forwards other found isIn

theorem addGlobal (houses : state.Houses) (name : String) {content : IR.Content}
    {isConstant : Bool} {linkage : IR.Linkage} {shape : Shape} {constant : Option Int32}
    {position : Position}
    (suits : ∀ global : IR.Global, global.content = content → global.constant = isConstant →
      (⟨shape, .address (.global state.builder.ir.globals.size), constant, position⟩ :
        Entry).Suits global) :
    Houses { state with
      symbols := state.symbols.add name
        ⟨shape, .address (.global state.builder.ir.globals.size), constant, position⟩
      builder := (IR.Build.addGlobal name content isConstant linkage state.builder).2 } := by
  obtain ⟨global, isGlobal, isContent, sameConstant⟩ :=
    getElem?_addGlobal state.builder name content isConstant linkage
  refine houses.add (prefix_addGlobal _ _ _ _ _) name ⟨fun id isId => ?_, fun _ _ _ => rfl⟩
    fun id isId => ?_
  · obtain rfl := Option.some.inj isId
    exact ⟨global, isGlobal, suits global isContent sameConstant⟩
  · exact Nat.le_of_eq (Option.some.inj isId)

theorem forget (houses : state.Houses) {symbols : SymbolTable}
    (fewer : symbols.listed.Sublist state.symbols.listed)
    (sameForwards : symbols.forwards = state.symbols.forwards) :
    Houses { state with symbols := symbols } :=
  ⟨fun name entry isIn => houses.housed name entry (fewer.subset isIn), houses.apart.sublist fewer,
    sameForwards ▸ houses.forwards⟩

/-! ### What names stand for -/

theorem mem_listed (houses : state.Houses) (isEntry : state.symbols.get? name = some entry) :
    (name, entry) ∈ state.symbols.listed ∨ ∃ id, entry.storage = .function id := by
  have outer (isOuter : state.symbols.getOuter? name = some entry) :
      (name, entry) ∈ state.symbols.listed ∨ ∃ id, entry.storage = .function id := by
    rcases Option.or_eq_some_iff.1 isOuter with isForward | ⟨-, isGlobal⟩
    · exact .inr (houses.forwards name entry (Table.mem_of_lookup isForward))
    · exact .inl (List.mem_append_right _ (Table.mem_of_lookup isGlobal))
  unfold SymbolTable.get? at isEntry
  split at isEntry
  · rcases Option.or_eq_some_iff.1 isEntry with isLocal | ⟨-, isOuter⟩
    · exact .inl (List.mem_append_left _ (Table.mem_of_lookup isLocal))
    · exact outer isOuter
  · exact outer isEntry

theorem housed_of_get? (houses : state.Houses) (isEntry : state.symbols.get? name = some entry)
    (notFunction : ∀ id, entry.storage ≠ .function id) : entry.Housed state.builder.ir := by
  rcases houses.mem_listed isEntry with isIn | ⟨id, isFunction⟩
  · exact houses.housed name entry isIn
  · exact absurd isFunction (notFunction id)

theorem eq_of_global? (houses : state.Houses) (isEntry : state.symbols.get? name = some entry)
    (isFound : state.symbols.get? other = some found) {id : IR.GlobalId}
    (isGlobal : entry.global? = some id) (sameGlobal : found.global? = some id) : name = other := by
  have inTable {name : String} {entry : Entry} (isEntry : state.symbols.get? name = some entry)
      (isGlobal : entry.global? = some id) : (name, entry) ∈ state.symbols.listed := by
    refine (houses.mem_listed isEntry).resolve_right ?_
    rintro ⟨function, isFunction⟩
    simp [Entry.global?, isFunction] at isGlobal
  have symmetric : Std.Symm fun first second : String × Entry => first.2.Apart second.2 :=
    ⟨fun _ _ apart => apart.symm⟩
  by_contra different
  exact houses.apart.forall (inTable isEntry isGlobal) (inTable isFound sameGlobal)
    (fun same => different (Prod.mk.inj same).1) id isGlobal sameGlobal

end Lowering.Houses

/-! ### Translation -/

theorem IR.Builder.SameSignatures.globalsKept {old new : Builder}
    (same : old.SameSignatures new) : old.ir.globals.toList <+: new.ir.globals.toList := by
  simp only [same.globals, List.prefix_rfl]

namespace Lower

variable {α : Type} {state : Lowering}

/-- What declares nothing leaves all names alone, and at most adds globals. -/
theorem Composed.houses {reach : Reach} {action : Lower α} (composed : Composed reach action)
    (notDeclares : reach ≠ .declares) (houses : state.Houses) :
    Ensures action (fun _ state' => state'.Houses) state := by
  induction composed generalizing state with
  | pure a => exact ensures_pure.2 houses
  | throw _ => exact ensures_throw.2 trivial
  | get => exact ensures_get.2 houses
  | ask _ => exact ensures_ask fun _ _ => houses
  | code isCode _ | block _ isCode =>
      exact ensures_build.2 (houses.extend rfl (isCode _).globalsKept)
  | text text => exact ensures_build.2 (houses.extend rfl (prefix_addGlobal _ _ _ _ _))
  | exits _ change => exact ensures_modify.2 (houses.extend rfl List.prefix_rfl)
  | function declares _ | symbols declares _ => exact absurd declares notDeclares
  | bind _ _ first next => exact ensures_bind.2 ((first houses).mono fun a _ houses' => next a houses')

theorem global?_alloca (name : String) (builder : Builder) (shape : Shape) (position : Position) :
    (⟨shape, .address (IR.Build.alloca name builder).1, none, position⟩ : Entry).global? = none := by
  simp only [IR.Build.alloca, IR.Build.bind_apply, IR.Build.get_apply]
  obtain ⟨register?, later⟩ := IR.Build.freshRegister builder
  cases builder.insertPoint <;> cases register? <;> rfl

theorem houses_declareVariable (houses : state.Houses) (shape : Shape) (position : Position)
    (name : String) :
    Ensures (declareVariable shape position name) (fun _ state' => state'.Houses) state := by
  refine ensures_declareVariable fun action _ room => ?_
  cases room with
  | array inOrder =>
      exact houses.addGlobal name fun global isContent notConstant =>
        ⟨notConstant, inOrder, rfl, isContent⟩
  | word isOutside =>
      exact houses.addGlobal name fun global isContent notConstant => ⟨notConstant, isContent⟩
  | slot isInside =>
      have noGlobal := global?_alloca name state.builder .integer position
      refine houses.add (IR.Build.isCode_alloca name _).globalsKept name
        (Entry.housed_of_none noGlobal (by simp)) fun id isId => ?_
      rw [noGlobal] at isId
      cases isId

theorem houses_declareConstant (houses : state.Houses) (name : String) (value : Int32)
    (position : Position) :
    Ensures (declareConstant name value position) (fun _ state' => state'.Houses) state :=
  ensures_declareConstant fun _ => houses.addGlobal name fun _ isContent isConstant =>
    ⟨isConstant, isContent⟩

theorem houses_forM {β : Type} {items : List β} {action : β → Lower Unit}
    (h : ∀ item (state : Lowering), state.Houses →
      Ensures (action item) (fun _ state' => state'.Houses) state) (houses : state.Houses) :
    Ensures (items.forM action) (fun _ state' => state'.Houses) state := by
  induction items generalizing state with
  | nil => exact ensures_pure.2 houses
  | cons first others ih => exact ensures_bind.2 ((h first state houses).mono fun _ _ => ih)

theorem houses_storage {declaration : Statement} (isStorage : declaration.IsStorage)
    (houses : state.Houses) :
    Ensures (statement declaration) (fun ending state' => ending = none ∧ state'.Houses) state := by
  cases declaration with
  | vars group =>
      rw [statement, vars, bind_assoc, ensures_bind]
      have shaped := (composed_shape group.type : Composed .straight _).houses (by decide) houses
      refine shaped.mono fun shape _ houses₁ => ?_
      rw [ensures_bind]
      refine (houses_forM (fun name _ houses => houses_declareVariable houses shape _ name)
        houses₁).mono fun _ _ houses₂ => ?_
      exact ensures_pure.2 ⟨rfl, houses₂⟩
  | constant name value position =>
      rw [statement, constantDeclaration, bind_assoc, ensures_bind]
      have evaluated := (composed_constantValue value : Composed .straight _).houses (by decide) houses
      refine evaluated.mono fun number _ houses₁ => ?_
      rw [ensures_bind]
      exact (houses_declareConstant houses₁ name number position).mono fun _ _ houses₂ =>
        ensures_pure.2 ⟨rfl, houses₂⟩
  | _ => exact isStorage.elim

theorem houses_storages {declarations : List Statement}
    (areStorage : ∀ declaration ∈ declarations, declaration.IsStorage) (houses : state.Houses) :
    Ensures (statements declarations) (fun _ state' => state'.Houses) state := by
  induction declarations generalizing state with
  | nil => exact ensures_pure.2 houses
  | cons first others ih =>
      rw [List.forall_mem_cons] at areStorage
      refine ensures_statements_cons ((houses_storage areStorage.1 houses).mono ?_)
      rintro _ state₁ ⟨rfl, houses₁⟩
      exact ⟨rfl, ih areStorage.2 houses₁⟩

/-! ### Callables -/

theorem houses_entered {heading : Heading} {id : IR.FunctionId} {state' : Lowering}
    (outer : state.Declares none) (entered : Entered state heading id state')
    (houses : state.Houses) : state'.Houses := by
  have isAdded : state'.symbols = (state.symbols.add heading.name
      ⟨heading.shape, .function id, none, heading.position⟩).enter id heading.name := by
    rw [entered.symbols outer]
    simp [SymbolTable.add, SymbolTable.enter, outer.1]
  have added := houses.add entered.around.globals heading.name
    (Entry.housed_of_none (by rfl) (by simp [Heading.shape]) : Entry.Housed _
      ⟨heading.shape, .function id, none, heading.position⟩) (by simp [Entry.global?])
  refine ⟨?_, ?_, ?_⟩ <;> rw [isAdded]
  · exact added.housed
  · exact added.apart
  · exact added.forwards

theorem houses_prologue (heading : Heading) (houses : state.Houses) :
    Ensures (prologue heading) (fun _ state' => state'.Houses) state := by
  have declared {name : String} {position : Position} {value : IR.Operand} {state : Lowering}
      (houses : state.Houses) : Ensures (do
        declareVariable .integer position name
        let pointer ← address name position
        build (IR.Build.store value pointer)) (fun _ state' => state'.Houses) state := by
    rw [ensures_bind]
    refine (houses_declareVariable houses .integer position name).mono fun _ state₁ houses₁ => ?_
    exact ((composed_address name position).bind fun _ => composed_emit _ :
      Composed .straight _).houses (by decide) houses₁
  have parameters (first : Nat) (names : List (String × Position)) {state : Lowering}
      (houses : state.Houses) :
      Ensures (declareParameters first names) (fun _ state' => state'.Houses) state := by
    induction names generalizing first state with
    | nil => exact ensures_pure.2 houses
    | cons parameter others ih =>
        have parts : declareParameters first (parameter :: others) = (do
            declareVariable .integer parameter.2 parameter.1
            let pointer ← address parameter.1 parameter.2
            build (IR.Build.store (.argument first) pointer)) >>= fun _ =>
              declareParameters (first + 1) others := by
          simp only [declareParameters, bind_assoc]
        rw [parts, ensures_bind]
        exact (declared houses).mono fun _ state₁ houses₁ => ih (first + 1) houses₁
  unfold prologue
  split
  · rw [ensures_bind]
    exact (declared houses).mono fun _ state₁ houses₁ => parameters 0 _ houses₁
  · exact parameters 0 _ houses

theorem houses_definition {heading : Heading} {body : List Statement} {next : Nat}
    (outer : state.Declares none) (isBody : IsBody next body) (houses : state.Houses) :
    Ensures (definition heading (statements body)) (fun _ state' => state'.Houses) state := by
  refine (defines_definition outer isBody).mono ?_
  rintro _ state' ⟨id, defines⟩
  have added := houses.add defines.around.globals heading.name
    (Entry.housed_of_none (by rfl) (by simp [Heading.shape]) : Entry.Housed _
      ⟨heading.shape, .function id, none, heading.position⟩) (by simp [Entry.global?])
  have fewer : state'.symbols.listed.Sublist
      (state.symbols.add heading.name
        ⟨heading.shape, .function id, none, heading.position⟩).listed := by
    rw [defines.symbols]
    simp [SymbolTable.add, SymbolTable.listed, outer.1]
  have left := added.forget fewer (by rw [defines.symbols, Lowering.forwards_add])
  exact ⟨left.housed, left.apart, left.forwards⟩

theorem houses_forward {heading : Heading} (houses : state.Houses) :
    Ensures (forwardDeclaration heading) (fun _ state' => state'.Houses) state := by
  refine ensures_forwardDeclaration fun _ _ => ⟨?_, houses.apart, ?_⟩
  · exact fun name entry isIn => (houses.housed name entry isIn).mono List.prefix_rfl
  · intro name entry isIn
    rcases List.mem_cons.1 isIn with isFirst | isOld
    · cases isFirst
      exact ⟨_, rfl⟩
    · exact houses.forwards name entry isOld

/-! ### Programs -/

theorem houses_item {item : Statement} (isItem : item.IsItem) (outer : state.Declares none)
    (houses : state.Houses) : Ensures (statement item) (fun ending state' => ending = none ∧
      state'.Declares none ∧ state'.Houses) state := by
  rcases isItem with ⟨name, rfl⟩ | ⟨next, isTopLevel⟩
  · rw [statement, ensures_pure]
    exact ⟨rfl, outer, houses⟩
  suffices kept : Ensures (statement item) (fun _ state' => state'.Houses) state from
    ((declares_topLevel outer isTopLevel).and kept).mono fun _ _ both => ⟨both.1.1, both.1.2, both.2⟩
  cases item with
  | forward heading =>
      rw [statement, ensures_bind]
      exact (houses_forward houses).mono fun _ _ houses' => ensures_pure.2 houses'
  | callable heading body =>
      rw [statement, ensures_bind]
      exact (houses_definition outer isTopLevel.2 houses).mono fun _ _ houses' =>
        ensures_pure.2 houses'
  | vars group =>
      have isStorage : Statement.IsStorage (.vars group) := isTopLevel
      exact (houses_storage isStorage houses).mono fun _ _ both => both.2
  | constant name value position =>
      have isStorage : Statement.IsStorage (.constant name value position) := isTopLevel
      exact (houses_storage isStorage houses).mono fun _ _ both => both.2
  | _ => exact isTopLevel.elim

theorem houses_items {items : List Statement} (areItems : ∀ item ∈ items, item.IsItem)
    (outer : state.Declares none) (houses : state.Houses) :
    Ensures (statements items) (fun _ state' => state'.Declares none ∧ state'.Houses) state := by
  induction items generalizing state with
  | nil => exact ensures_pure.2 ⟨outer, houses⟩
  | cons first others ih =>
      rw [List.forall_mem_cons] at areItems
      refine ensures_statements_cons ((houses_item areItems.1 outer houses).mono ?_)
      rintro _ state₁ ⟨rfl, outer₁, houses₁⟩
      exact ⟨rfl, ih areItems.2 outer₁ houses₁⟩

end Lower

theorem Lowering.houses_initial (moduleName : String) : (Lowering.initial moduleName).Houses := by
  have isBuiltin (pair : String × Entry) (isIn : pair ∈ (initial moduleName).symbols.listed) :
      ∃ builtin, pair.2 = builtinEntry builtin := by
    obtain ⟨builtin, -, rfl⟩ := List.mem_map.1 isIn
    exact ⟨builtin, rfl⟩
  refine ⟨fun name entry isIn => ?_, ?_, by simp [initial, SymbolTable.empty]⟩
  · obtain ⟨builtin, rfl⟩ := isBuiltin _ isIn
    exact Entry.housed_of_none rfl (by simp [builtinEntry])
  · refine List.pairwise_of_forall_mem_list fun first isFirst second _ id isId => ?_
    obtain ⟨builtin, same⟩ := isBuiltin _ isFirst
    rw [same] at isId
    cases isId

end MiniPascal
