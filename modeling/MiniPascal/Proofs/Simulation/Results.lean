import MiniPascal.Proofs.Lowering.Forwards
import MiniPascal.Proofs.Simulation.Accounts

/-!
# Results

The result of a callable has a slot of its own, which is looked up under a name that the program
could declare for something else.  If it declares no such name, the name of a callable is only
assigned in the callable's own body: the assignment ends with a store into that slot, and a name that
is read as a value is loaded from there.
-/

namespace MiniPascal

open Evaluation (Place Names Meaning)
open Lower (Entered Lists)
open Lowering (Ready)

/-- The translation of a program has got to the actions of a body. -/
def Program.Reaches (program : Program) (moduleName : String) (heading : Heading)
    (id : IR.FunctionId) (state : Lowering) : Prop :=
  ∃ earlier declarations actions later ending outer ending' entered,
    program.statements = earlier ++ .callable heading (declarations ++ actions) :: later ∧
    (∀ declaration ∈ declarations, declaration.IsStorage) ∧
    Lower.statements earlier (Lowering.initial moduleName) = .ok ending outer ∧
    Entered outer heading id entered ∧
    (do
      Lower.prologue heading
      Lower.statements declarations) entered = .ok ending' state

/-- The name of a result is known for the callable itself at most, and nothing else is stored in the
slot that it stands for. -/
structure OwnsResult (heading : Heading) (symbols : SymbolTable) : Prop where
  own : ∀ callable entry, symbols.get? (resultName callable) = some entry →
    callable = heading.name ∧ heading.returns.isSome = true ∧ entry.shape = .integer ∧
      entry.storage = .address (.register 0)
  alone : heading.returns.isSome = true → ∀ name entry, symbols.get? name = some entry →
    entry.storage = .address (.register 0) → name = resultName heading.name

section

variable {state : Lowering} {stock : Stock} {id : IR.FunctionId} {heading : Heading}
  {stores : List (IR.Operand × IR.Register)}

theorem head_slots (returns : heading.returns.isSome = true) :
    heading.slots = .result :: heading.parameterNames.map .local := by
  simp [Heading.slots, returns]

theorem slot_eq_zero {slots : List Place} (nodup : slots.Nodup) (first : slots[0]? = some .result)
    {slot : Nat} (isSlot : slots[slot]? = some .result) : slot = 0 := by
  obtain ⟨bound, isResult⟩ := List.getElem?_eq_some_iff.1 isSlot
  obtain ⟨bound', isFirst⟩ := List.getElem?_eq_some_iff.1 first
  exact (nodup.getElem_inj_iff).1 (isResult.trans isFirst.symm)

theorem ownsResult_of_records {before between : Lowering} {stock' stock₂ : Stock} {added : Names}
    (keeps : stock'.Keeps (some id) stores state)
    (records : Records before stock (added ++ heading.entryNames) state stock')
    (behind : Records between { stock₂ with slots := heading.slots } added state stock')
    (noNames : before.symbols.current = []) (clean : KeepsResults heading state.symbols added)
    (isInside : state.symbols.enclosing.isSome = true) : OwnsResult heading state.symbols := by
  have agrees := records.agrees ⟨state.builder.ir, stock'.owner, fun _ _ _ => False⟩
    ⟨List.prefix_rfl, fun _ _ isHome => isHome⟩ []
  rw [noNames] at agrees
  simp only [SymbolTable.current, isInside, if_true, List.append_nil] at agrees
  have agrees := agrees (Plan.agrees_nil _ _)
  obtain ⟨more, isSlots⟩ := behind.grows.slots
  have first (returns : heading.returns.isSome = true) : stock'.slots[0]? = some .result := by
    rw [← isSlots, head_slots returns]
    rfl
  refine ⟨fun callable entry isEntry => ?_, fun returns name entry isEntry isStorage => ?_⟩
  · obtain ⟨isLocal, returns, rfl⟩ := clean.own isInside isEntry
    obtain ⟨meaning, isMeaning, means⟩ := agrees.exists_meaning isLocal
    have isResult : (added ++ heading.entryNames ++ []).lookup (resultName heading.name) =
        some (.scalar .result) :=
      lookup_result returns (clean.declared heading.name) (clean.parameters heading.name)
    rw [List.append_nil] at isResult
    obtain rfl := Option.some.inj (isMeaning.symm.trans isResult)
    obtain ⟨isShape, -, pointer, isStorage, addresses⟩ := means
    refine ⟨rfl, returns, isShape, ?_⟩
    cases pointer with
    | register slot =>
        rw [isStorage, slot_eq_zero keeps.fits.nodup (first returns) addresses]
    | _ => exact addresses.elim
  · simp only [SymbolTable.get?, isInside, if_true] at isEntry
    cases isLocal : state.symbols.locals.lookup name with
    | none =>
        rw [isLocal, Option.none_or] at isEntry
        have ready : state.Ready ⟨id, 0⟩ [] := keeps.declares
        have sound := ready.sound.outer isEntry
        simp only [Entry.Sound, isStorage] at sound
        cases sound
    | some found =>
        rw [isLocal, Option.some_or, Option.some.injEq] at isEntry
        subst isEntry
        obtain ⟨meaning, isMeaning, means⟩ := agrees.exists_meaning isLocal
        obtain ⟨place, rfl, addresses⟩ := means.of_register isStorage
        cases place with
        | result =>
            -- declarations get later slots, so that nothing else has the slot of the result
            rcases List.mem_append.1 (mem_of_lookup isMeaning) with isAdded | isInitial
            · exact absurd (by simp [head_slots returns]) (behind.result name isAdded)
            · simpa [Heading.entryNames, returns] using isInitial
        | «local» other =>
            have isOther : stock'.slots[0]? = some (.local other) := addresses
            rw [first returns] at isOther
            cases isOther
        | _ => exact addresses.elim

theorem head_opening {slots : Nat} (opening : state.Opening id slots stores) (enough : 0 < slots) :
    ∃ label, (state.builder.ir.code ⟨id, 0⟩).head? = some (.alloca 0 label) := by
  obtain ⟨names, count, isCode⟩ := opening.code
  rw [isCode]
  cases names with
  | nil => simp [← count] at enough
  | cons label names => exact ⟨label, by simp [room]⟩

end

theorem Lower.Entered.keeps {outer entered : Lowering} {heading : Heading} {id : IR.FunctionId}
    (isEntered : Entered outer heading id entered) (declares : outer.Declares none) :
    Stock.Keeps ⟨fun _ => none, []⟩ (some id) [] entered := by
  have noStock : Stock.Fits ⟨fun _ => none, []⟩ outer :=
    ⟨by simp, by simp, by simp, .nil, by simp, by simp [declares.1]⟩
  exact ⟨isEntered.ready, fits_entered declares isEntered noStock rfl,
    by rintro _ ⟨⟩; exact opening_entered isEntered, by simp⟩

/-- In every body the name of a result is used for the result alone. -/
theorem Program.Reaches.ownsResult {program : Program} (grammatical : program.Grammatical)
    (leaves : program.LeavesResults) {moduleName : String} {heading : Heading} {id : IR.FunctionId}
    {state : Lowering} (reaches : program.Reaches moduleName heading id state) :
    OwnsResult heading state.symbols ∧ state.Ready ⟨id, 0⟩ [] ∧ (heading.returns.isSome = true →
      ∃ label, (state.builder.ir.code ⟨id, 0⟩).head? = some (.alloca 0 label)) := by
  obtain ⟨earlier, declarations, actions, later, ending, outer, ending', entered, isProgram,
    areStorage, translated, isEntered, reached⟩ := reaches
  have isItem (item : Statement) (isIn : item ∈ earlier) : item.IsItem :=
    grammatical.isItem (by simp [isProgram, isIn])
  have lists : Lists outer earlier := Lower.lists_items isItem (Lower.lists_initial moduleName)
    ending outer translated
  have leavesEarlier (item : Statement) (isIn : item ∈ earlier) :
      ∀ name ∈ item.declaredNames, ∀ callable, name ≠ resultName callable :=
    leaves item (by simp [isProgram, isIn])
  have clean := leaves (.callable heading (declarations ++ actions)) (by simp [isProgram])
  have symbols := isEntered.symbols lists.declares
  have keeps := isEntered.keeps lists.declares
  have noNames : entered.symbols.current = [] := by
    simp [SymbolTable.current, symbols, lists.locals]
  have isHere : entered.symbols.enclosing.isSome = true := by simp [symbols]
  have cleanOuter (callable : String) : entered.symbols.getOuter? (resultName callable) = none :=
    getOuter?_entered lists.declares isEntered (lists.getOuter?_resultName leavesEarlier callable)
      (clean _ (by simp [Statement.declaredNames]) callable)
  have owns : Ensures (Lower.prologue heading >>= fun _ => Lower.statements (declarations ++ []))
      (fun _ state => OwnsResult heading state.symbols ∧ state.Ready ⟨id, 0⟩ [] ∧
        (heading.returns.isSome = true →
          ∃ label, (state.builder.ir.code ⟨id, 0⟩).head? = some (.alloca 0 label))) entered := by
    rw [ensures_bind]
    refine ((records_prologue isEntered keeps rfl).and (Lower.keeps_prologue isEntered)).mono ?_
    rintro _ state₂ ⟨⟨records₂, keeps₂⟩, kept₂⟩
    refine records_append areStorage keeps₂ ?_
    intro state₃ stock₃ added kept₃ records₃ keeps₃ addedNames _
    have same := (kept₂.trans kept₃).outer rfl
    have records := records₂.trans records₃
    have keepsResults := keepsResults_of_records noNames isHere same records addedNames clean
      cleanOuter
    rw [Lower.statements, ensures_pure]
    refine ⟨ownsResult_of_records keeps₃ records records₃ noNames keepsResults
      (by rw [same.enclosing, isHere]), keeps₃.declares,
      fun returns => head_opening (keeps₃.opening id rfl) ?_⟩
    obtain ⟨more, isSlots⟩ := records₃.grows.slots
    simp [← isSlots, head_slots returns]
  rw [← List.append_nil declarations] at reached
  exact owns _ _ reached

theorem OwnsResult.ensures_namePointer {heading : Heading} {state : Lowering}
    (owns : OwnsResult heading state.symbols) {name : String} {entry : Entry} {parameters : Nat}
    {returnsValue : Bool} (isEntry : state.symbols.get? name = some entry)
    (isCallable : entry.shape = .callable parameters returnsValue) (position : Position) :
    Ensures (Lower.namePointer name position) (fun pointer last => last = state ∧
      name = heading.name ∧ heading.returns.isSome = true ∧ pointer = .register 0) state := by
  rw [Lower.namePointer, ensures_bind]
  refine Lower.ensures_declared fun found isFound => ?_
  obtain rfl := Option.some.inj (isEntry.symm.trans isFound)
  rw [isCallable]
  refine Lower.ensures_address fun result pointer isResult isPointer => ?_
  obtain ⟨sameName, returns, -, isStorage⟩ := owns.own name result isResult
  rw [isStorage, Storage.address.injEq] at isPointer
  exact ⟨rfl, sameName, returns, isPointer.symm⟩

theorem OwnsResult.ensures_nameValue {heading : Heading} {state : Lowering}
    (owns : OwnsResult heading state.symbols) {name : String} {entry : Entry} {parameters : Nat}
    {returnsValue : Bool} (isEntry : state.symbols.get? name = some entry)
    (isCallable : entry.shape = .callable (parameters + 1) returnsValue) (position : Position) :
    Ensures (Lower.nameValue .running name position) (fun value last =>
      name = heading.name ∧ heading.returns.isSome = true ∧
        Lower.build (IR.Build.load (.register 0)) state = .ok value last) state := by
  have isPlain (bound : Nat) : state.symbols.valueName bound (resultName name) = resultName name := by
    cases bound with
    | zero => rfl
    | succ bound =>
        unfold SymbolTable.valueName
        split
        · rename_i isResult
          cases (owns.own name _ isResult).2.2.1
        · rfl
  have isResult : state.symbols.valueName (state.symbols.size + 1) name = resultName name := by
    obtain ⟨shape, storage, constant, position⟩ := entry
    obtain rfl : shape = .callable (parameters + 1) returnsValue := isCallable
    simp only [SymbolTable.valueName, isEntry, isPlain]
  unfold Lower.nameValue
  simp only [ensures_bind, ensures_get]
  rw [isResult, Lower.plainValue, ensures_bind]
  refine Lower.ensures_declared fun result isFound => ?_
  obtain ⟨sameName, returns, isShape, isStorage⟩ := owns.own name result isFound
  rw [isShape]
  simp only [ensures_bind]
  refine Lower.ensures_address fun other pointer isOther isPointer => ?_
  obtain rfl := Option.some.inj (isFound.symm.trans isOther)
  rw [isStorage, Storage.address.injEq] at isPointer
  subst isPointer
  exact fun value last loaded => ⟨sameName, returns, loaded⟩

/-! ### What is emitted -/

section

variable {heading : Heading} {state : Lowering} {here : IR.BlockId} {pending : List Nat} {name : String}
  {entry : Entry} {parameters : Nat} {returnsValue : Bool}

/-- What is emitted where the name of a callable is used in a body: the result of the body is in
register 0. -/
structure UsesResult (heading : Heading) (here : IR.BlockId) (state : Lowering) (name : String)
    (parameters : Nat) : Prop where
  assigned : ∀ assignment : Assignment, assignment.target.target? = some name →
    Ensures (Lower.assign assignment) (fun _ last =>
      name = heading.name ∧ heading.returns.isSome = true ∧
        ∃ value between, Lower.expression .running assignment.value state = .ok value between ∧
          between.Emits here (.store value (.register 0)) 0 last) state
  advanced : ∀ position direction,
    Ensures (Lower.advanceCounter (.ident name position) direction) (fun _ last =>
      name = heading.name ∧ heading.returns.isSome = true ∧
        ∃ next between, state.Straight between ∧
          between.Emits here (.store next (.register 0)) 0 last) state
  notDecremented : ∀ position last, Lower.decrement (.ident name position) state ≠ .ok () last
  notReadTo : ∀ position last, Lower.requireReadable (.ident name position) state ≠ .ok () last
  read : 0 < parameters → ∀ position,
    Ensures (Lower.expression .running (.ident name position)) (fun value last =>
      name = heading.name ∧ heading.returns.isSome = true ∧
        ∃ register, value = .register register ∧
          state.Emits here (.load register (.register 0)) 1 last) state

theorem OwnsResult.ensures_assign (owns : OwnsResult heading state.symbols)
    (ready : state.Ready here pending) (isEntry : state.symbols.get? name = some entry)
    (isCallable : entry.shape = .callable parameters returnsValue) {assignment : Assignment}
    (isTarget : assignment.target.target? = some name) :
    Ensures (Lower.assign assignment) (fun _ last =>
      name = heading.name ∧ heading.returns.isSome = true ∧
        ∃ value between, Lower.expression .running assignment.value state = .ok value between ∧
          between.Emits here (.store value (.register 0)) 0 last) state := by
  unfold Lower.assign
  simp only [isTarget, ensures_bind]
  refine Lower.ensures_notConstant fun _ _ _ => ?_
  cases isIdent : assignment.target with
  | ident other position =>
      obtain rfl : other = name := by simpa [isIdent, Expr.target?] using isTarget
      refine (owns.ensures_namePointer isEntry isCallable position).mono ?_
      rintro _ _ ⟨rfl, sameName, returns, rfl⟩
      intro value between isValue
      obtain ⟨ready', -⟩ := Lower.yields_expression assignment.value ready value between isValue
      exact (ready'.emits _).mono fun _ last emits => ⟨sameName, returns, value, between, isValue, emits⟩
  | element array index position =>
      obtain rfl : array = name := by simpa [isIdent, Expr.target?] using isTarget
      rw [Lower.pointer, Lower.elementPointer, ensures_bind]
      refine Lower.ensures_declared fun found isFound => ?_
      obtain rfl := Option.some.inj (isEntry.symm.trans isFound)
      simp [isCallable]
  | _ => simp [isIdent, Expr.target?] at isTarget

theorem OwnsResult.ensures_advanceCounter (owns : OwnsResult heading state.symbols)
    (ready : state.Ready here pending) (isEntry : state.symbols.get? name = some entry)
    (isCallable : entry.shape = .callable parameters returnsValue) (position : Position)
    (direction : Direction) :
    Ensures (Lower.advanceCounter (.ident name position) direction) (fun _ last =>
      name = heading.name ∧ heading.returns.isSome = true ∧
        ∃ next between, state.Straight between ∧
          between.Emits here (.store next (.register 0)) 0 last) state := by
  rw [Lower.advanceCounter, ensures_bind]
  refine (owns.ensures_namePointer isEntry isCallable position).mono ?_
  rintro _ _ ⟨same, sameName, returns, rfl⟩
  obtain rfl := same.symm
  rw [ensures_bind]
  have value := (Lower.yields_expression (.ident name position) ready).and
    (Lower.isStraight_expression .running (.ident name position) state)
  refine value.mono ?_
  rintro current state₁ ⟨⟨ready₁, has₁⟩, straight₁⟩
  have stepped (op : IR.ArithOp) : Ensures (Lower.build (IR.Build.arith op current (.int 1)) >>=
      fun next => Lower.build (IR.Build.store next (.register 0))) (fun _ last =>
        name = heading.name ∧ heading.returns.isSome = true ∧ ∃ next between,
          state.Straight between ∧ between.Emits here (.store next (.register 0)) 0 last) state₁ := by
    rw [ensures_bind]
    refine ((Lower.ready_arith ready₁ op has₁ (Lower.has_int 1)).and
      (Lower.isStraight_build (IR.Build.isStraight_arith op current (.int 1)) state₁)).mono ?_
    rintro next state₂ ⟨⟨ready₂, -⟩, straight₂⟩
    exact (ready₂.emits _).mono fun _ last emits =>
      ⟨sameName, returns, next, state₂, straight₁.trans straight₂, emits⟩
  cases direction with
  | upward => exact stepped .add
  | downward => exact stepped .sub

theorem OwnsResult.usesResult (owns : OwnsResult heading state.symbols)
    (ready : state.Ready here pending) (isEntry : state.symbols.get? name = some entry)
    (isCallable : entry.shape = .callable parameters returnsValue) :
    UsesResult heading here state name parameters where
  assigned _ := owns.ensures_assign ready isEntry isCallable
  advanced := owns.ensures_advanceCounter ready isEntry isCallable
  notDecremented position last := by
    have refused : Ensures (Lower.decrement (.ident name position)) (fun _ _ => False) state := by
      rw [Lower.decrement, ensures_bind]
      refine Lower.ensures_notConstant fun found isFound _ => ?_
      obtain rfl := Option.some.inj (isEntry.symm.trans isFound)
      simp [isCallable]
    exact refused () last
  notReadTo position last := by
    have refused : Ensures (Lower.requireReadable (.ident name position)) (fun _ _ => False) state := by
      rw [Lower.requireReadable, ensures_bind]
      refine Lower.ensures_notConstant fun found isFound _ => ?_
      obtain rfl := Option.some.inj (isEntry.symm.trans isFound)
      simp [isCallable]
    exact refused () last
  read hasParameters position := by
    obtain ⟨others, rfl⟩ := Nat.exists_eq_succ_of_ne_zero (Nat.pos_iff_ne_zero.1 hasParameters)
    refine (owns.ensures_nameValue isEntry isCallable position).mono ?_
    rintro value last ⟨sameName, returns, loaded⟩
    obtain ⟨isValue, emits⟩ := ready.emitsValue (.load · (.register 0)) value last loaded
    exact ⟨sameName, returns, _, isValue, emits⟩

end

/-- For programs that leave the names of results alone: a body that returns a value begins with the
slot of its result, in which nothing else is stored; and wherever translation gets to in the body, the
name of a callable is only assigned, and read if it has parameters, where it is the body's own, by a
store into that slot and a load from it. -/
theorem results_are_kept {source moduleName : String} {program : Program}
    (parsed : Program.parse source = .ok program) (leaves : program.LeavesResults)
    {heading : Heading} {id : IR.FunctionId} {state : Lowering}
    (reaches : program.Reaches moduleName heading id state) :
    (heading.returns.isSome = true →
      (∃ label, (state.builder.ir.code ⟨id, 0⟩).head? = some (.alloca 0 label)) ∧
        ∀ name entry, state.symbols.get? name = some entry →
          entry.storage = .address (.register 0) → name = resultName heading.name) ∧
    state.Ready ⟨id, 0⟩ [] ∧
    ∀ (state' : Lowering) (here : IR.BlockId) (pending : List Nat), state'.Ready here pending →
      state'.symbols = state.symbols →
        here.function = id ∧
        (∀ action loop next, action.IsAction loop next → state'.KnowsExit here.function loop next →
          Ensures (Lower.statement action) (fun ending last => last.symbols = state.symbols ∧
            (ending = none → ∃ there, last.Ready there pending)) state') ∧
        ∀ name entry parameters returnsValue, state'.symbols.get? name = some entry →
          entry.shape = .callable parameters returnsValue →
            UsesResult heading here state' name parameters := by
  obtain ⟨owns, ready, slot⟩ := reaches.ownsResult (Program.grammatical_of_parse parsed) leaves
  refine ⟨fun returns => ⟨slot returns, owns.alone returns⟩, ready,
    fun state' here pending ready' same => ⟨?_, ?_, ?_⟩⟩
  · obtain ⟨name, isEnclosing⟩ := ready.enclosing
    obtain ⟨name', isEnclosing'⟩ := ready'.enclosing
    rw [same, isEnclosing, Option.some.injEq] at isEnclosing'
    exact (congrArg Enclosing.function isEnclosing').symm
  · intro action loop next isAction knows
    refine (Lower.runs_statement action isAction ready' knows).mono fun ending last goes => ?_
    refine ⟨goes.moves.symbols.trans same, fun goesOn => ?_⟩
    obtain ⟨there, -, later⟩ := goes.continues goesOn
    exact ⟨there, later⟩
  · intro name entry parameters returnsValue isEntry isCallable
    rw [← same] at owns
    exact owns.usesResult ready' isEntry isCallable

/-! ### Where translation gets -/

theorem isItem_of_isStorage {declaration : Statement} (isStorage : declaration.IsStorage) :
    declaration.IsItem := by
  refine .inr ⟨0, ?_⟩
  cases declaration with
  | vars group | constant name value position => exact isStorage
  | _ => exact isStorage.elim

theorem ending_eq_none {item : Statement} (isItem : item.IsItem) (state : Lowering) :
    Ensures (Lower.statement item) (fun ending _ => ending = none) state := by
  rcases isItem with ⟨name, rfl⟩ | ⟨next, isTopLevel⟩
  · simp [Lower.statement]
  · cases item with
    | forward heading | callable heading body | vars group | constant name value position =>
        rw [Lower.statement, ensures_bind]
        exact fun _ _ _ => ensures_pure.2 rfl
    | _ => exact isTopLevel.elim

theorem statements_append_eq_ok {items others : List Statement} {state last : Lowering}
    {ending : Option Ending} (areItems : ∀ item ∈ items, item.IsItem)
    (translated : Lower.statements (items ++ others) state = .ok ending last) :
    ∃ between, Lower.statements items state = .ok none between ∧
      Lower.statements others between = .ok ending last := by
  induction items generalizing state with
  | nil => exact ⟨state, rfl, translated⟩
  | cons first rest ih =>
      rw [List.cons_append, Lower.statements, bind_eq_ok] at translated
      obtain ⟨ending', state₁, isFirst, translated⟩ := translated
      obtain rfl := ending_eq_none (areItems first (by simp)) state ending' state₁ isFirst
      obtain ⟨between, isRest, isOther⟩ :=
        ih (fun item isIn => areItems item (List.mem_cons_of_mem _ isIn)) translated
      refine ⟨between, ?_, isOther⟩
      rw [Lower.statements, bind_of_ok _ isFirst]
      exact isRest

theorem compile_around {source moduleName : String} {ir : IR.Module} {program : Program}
    (compiled : compile source moduleName = .ok ir) (parsed : Program.parse source = .ok program)
    {earlier declarations actions later : List Statement} {heading : Heading}
    (isProgram : program.statements = earlier ++ .callable heading (declarations ++ actions) :: later)
    (areStorage : ∀ declaration ∈ declarations, declaration.IsStorage) :
    ∃ id outer entered state filled ending last,
      Lower.statements earlier (Lowering.initial moduleName) = .ok none outer ∧
      Entered outer heading id entered ∧
      Lower.fill heading (Lower.statements (declarations ++ actions)) entered =
        .ok () { filled with symbols := filled.symbols.leave } ∧
      (do
        Lower.prologue heading
        Lower.statements declarations) entered = .ok none state ∧
      (do
        let _ ← Lower.statements actions
        Lower.implicitReturn heading) state = .ok () filled ∧
      Lower.statements later { filled with symbols := filled.symbols.leave } = .ok ending last ∧
      last.builder.ir = ir := by
  obtain ⟨_, isSame, lowered⟩ := compile_eq_ok compiled
  obtain rfl := Except.ok.inj (parsed.symm.trans isSame)
  have grammatical := Program.grammatical_of_parse parsed
  obtain ⟨ending, last, translated, -, isModule⟩ := Program.lower_eq_ok lowered
  rw [isProgram] at translated
  have areItems (item : Statement) (isIn : item ∈ earlier) : item.IsItem :=
    grammatical.isItem (by simp [isProgram, isIn])
  obtain ⟨outer, isEarlier, translated⟩ := statements_append_eq_ok areItems translated
  have lists : Lists outer earlier := Lower.lists_items areItems (Lower.lists_initial moduleName)
    none outer isEarlier
  rw [Lower.statements, bind_eq_ok] at translated
  obtain ⟨_, state₁, isCallable, isLater⟩ := translated
  rw [Lower.statement, bind_eq_ok] at isCallable
  obtain ⟨_, state₂, isDefinition, isNone⟩ := isCallable
  cases isNone
  have isEntered : Ensures (Lower.definition heading (Lower.statements (declarations ++ actions)))
      (fun _ last => ∃ id entered, Entered outer heading id entered ∧
        Lower.fill heading (Lower.statements (declarations ++ actions)) entered = .ok () last) outer :=
    Lower.ensures_definition lists.declares fun id entered isEntered _ last filled =>
      ⟨id, entered, isEntered, filled⟩
  obtain ⟨id, entered, isEntered, isFilled⟩ := isEntered _ _ isDefinition
  -- the parts of the body, in the order in which they are translated
  have filled := isFilled
  rw [Lower.fill, bind_eq_ok] at filled
  obtain ⟨_, state₃, isPrologue, filled⟩ := filled
  rw [bind_eq_ok] at filled
  obtain ⟨_, state₄, isBody, filled⟩ := filled
  rw [bind_eq_ok] at filled
  obtain ⟨_, state₅, isReturn, isLeft⟩ := filled
  cases isLeft
  obtain ⟨state, isReached, areActions⟩ := statements_append_eq_ok
    (fun declaration isIn => isItem_of_isStorage (areStorage declaration isIn)) isBody
  refine ⟨id, outer, entered, state, state₅, ending, last, isEarlier, isEntered, isFilled, ?_, ?_,
    isLater, isModule⟩
  · rw [bind_of_ok _ isPrologue]
    exact isReached
  · rw [bind_of_ok _ areActions]
    exact isReturn

theorem compile_reaches {source moduleName : String} {ir : IR.Module} {program : Program}
    (compiled : compile source moduleName = .ok ir) (parsed : Program.parse source = .ok program)
    {earlier declarations actions later : List Statement} {heading : Heading}
    (isProgram : program.statements = earlier ++ .callable heading (declarations ++ actions) :: later)
    (areStorage : ∀ declaration ∈ declarations, declaration.IsStorage) :
    ∃ id state, program.Reaches moduleName heading id state := by
  obtain ⟨id, outer, entered, state, -, -, -, isEarlier, isEntered, -, isReached, -⟩ :=
    compile_around compiled parsed isProgram areStorage
  exact ⟨id, state, earlier, declarations, actions, later, none, outer, none, entered, isProgram,
    areStorage, isEarlier, isEntered, isReached⟩

/-- The first callable of a program and its body, if that is two assignments. -/
def Program.firstAssignments? (program : Program) : Option (Heading × Assignment × Assignment) :=
  match program.statements with
  | .callable heading [.assign first, .assign second] :: _ => some (heading, first, second)
  | _ => none

theorem Program.exists_of_firstAssignments? {program : Program} {heading : Heading}
    {first second : Assignment} (isFirst : program.firstAssignments? = some (heading, first, second)) :
    ∃ later, program.statements = .callable heading [.assign first, .assign second] :: later := by
  unfold firstAssignments? at isFirst
  split at isFirst
  · rename_i later isProgram
    cases isFirst
    exact ⟨later, isProgram⟩
  · cases isFirst

def Lower.last? {α : Type} (action : Lower α) (state : Lowering) : Option Lowering :=
  match action state with
  | .ok _ last => some last
  | .error _ _ => none

theorem Lower.exists_of_last? {α : Type} {action : Lower α} {state last : Lowering}
    (isLast : action.last? state = some last) : ∃ a, action state = .ok a last := by
  unfold last? at isLast
  split at isLast
  · rename_i a _ isOk
    cases isLast
    exact ⟨a, isOk⟩
  · cases isLast

theorem Program.reaches_first {program : Program} {moduleName : String} {heading : Heading}
    {actions later : List Statement} {state : Lowering}
    (isProgram : program.statements = .callable heading actions :: later)
    (isLast : Lower.last? (Lower.openDefinition heading >>= fun _ => Lower.prologue heading)
      (Lowering.initial moduleName) = some state) :
    ∃ id, program.Reaches moduleName heading id state := by
  obtain ⟨_, reached⟩ := Lower.exists_of_last? isLast
  obtain ⟨_, entered, isOpened, isReached⟩ := bind_eq_ok.1 reached
  have isEntered : Ensures (Lower.openDefinition heading)
      (fun _ entered => ∃ id, Entered (Lowering.initial moduleName) heading id entered)
      (Lowering.initial moduleName) :=
    Lower.ensures_openDefinition (Lowering.declares_initial moduleName) fun id _ entered => ⟨id, entered⟩
  obtain ⟨id, isEntered⟩ := isEntered _ _ isOpened
  refine ⟨id, [], [], actions, later, none, _, none, entered, isProgram, by simp, rfl, isEntered, ?_⟩
  rw [bind_of_ok _ isReached]
  rfl

def Expr.leftName? : Expr → Option (String × Position)
  | .binary _ (.ident name position) _ _ => some (name, position)
  | _ => none

/-- The first callable of a program whose body is two assignments, and the states in front of the
assignments, between them and behind them. -/
structure AssignedTwice where
  heading : Heading
  first : Assignment
  second : Assignment
  before : Lowering
  between : Lowering
  behind : Lowering

def Program.assignedTwice? (program : Program) (moduleName : String) : Option AssignedTwice := do
  let (heading, first, second) ← program.firstAssignments?
  let before ← Lower.last? (Lower.openDefinition heading >>= fun _ => Lower.prologue heading)
    (.initial moduleName)
  let between ← Lower.last? (Lower.assign first) before
  let behind ← Lower.last? (Lower.assign second) between
  return ⟨heading, first, second, before, between, behind⟩

theorem Program.assignedTwice?_eq_some {program : Program} {moduleName : String}
    {assigned : AssignedTwice} (isAssigned : program.assignedTwice? moduleName = some assigned) :
    (∃ id, program.Reaches moduleName assigned.heading id assigned.before) ∧
      Lower.assign assigned.first assigned.before = .ok () assigned.between ∧
      Lower.assign assigned.second assigned.between = .ok () assigned.behind := by
  simp only [assignedTwice?, bind, Option.bind_eq_some_iff, pure, Option.some.injEq] at isAssigned
  obtain ⟨_, isProgram, _, isReached, _, isFirst, _, isSecond, rfl⟩ := isAssigned
  obtain ⟨later, isProgram⟩ := exists_of_firstAssignments? isProgram
  obtain ⟨_, isFirst⟩ := Lower.exists_of_last? isFirst
  obtain ⟨_, isSecond⟩ := Lower.exists_of_last? isSecond
  exact ⟨reaches_first isProgram isReached, isFirst, isSecond⟩

/-- The theorem at a program with a function that assigns its name twice and reads it in between. -/
theorem results_are_kept_function :
    ∃ program heading first second id state state₁ state₂ place,
      Program.parse "function f(n: integer): integer; begin f := n; f := f + 1 end; begin end." =
        .ok program ∧ program.LeavesResults ∧ program.Reaches "example" heading id state ∧
      heading.name = "f" ∧ first.target.target? = some "f" ∧ second.target.target? = some "f" ∧
      second.value.leftName? = some ("f", place) ∧
      Lower.assign first state = .ok () state₁ ∧ Lower.assign second state₁ = .ok () state₂ ∧
      (∃ label, (state.builder.ir.code ⟨id, 0⟩).head? = some (.alloca 0 label)) ∧
      (∃ value between, Lower.expression .running first.value state = .ok value between ∧
        between.Emits ⟨id, 0⟩ (.store value (.register 0)) 0 state₁) ∧
      (∃ register loaded, Lower.expression .running (.ident "f" place) state₁ =
        .ok (.register register) loaded ∧
        state₁.Emits ⟨id, 0⟩ (.load register (.register 0)) 1 loaded) ∧
      ∃ value between, Lower.expression .running second.value state₁ = .ok value between ∧
        between.Emits ⟨id, 0⟩ (.store value (.register 0)) 0 state₂ := by
  obtain ⟨program, parsed, holds⟩ := exists_of_any
    "function f(n: integer): integer; begin f := n; f := f + 1 end; begin end."
    (fun program => decide program.LeavesResults && (program.assignedTwice? "example").any
      fun found => found.heading.name == "f" && found.heading.returns.isSome &&
        found.first.target.target? == some "f" && found.second.target.target? == some "f" &&
        (found.before.symbols.get? "f").any (·.shape == .callable 1 true) &&
        found.second.value.leftName?.any fun left => left.1 == "f" &&
          (Lower.last? (Lower.expression .running (.ident "f" left.2)) found.between).isSome)
    (by decide +kernel)
  rw [Bool.and_eq_true, decide_eq_true_eq, Option.any_eq_true] at holds
  obtain ⟨leaves, ⟨heading, first, second, state, state₁, state₂⟩, isAssigned, holds⟩ := holds
  simp only [Bool.and_eq_true, beq_iff_eq, Option.any_eq_true] at holds
  obtain ⟨⟨⟨⟨⟨isName, returns⟩, isFirst⟩, isSecond⟩, entry, isEntry, isCallable⟩, ⟨name, place⟩,
    isLeft, rfl, isRead⟩ := holds
  obtain ⟨⟨id, reaches⟩, assigned, assigned'⟩ := Program.assignedTwice?_eq_some isAssigned
  obtain ⟨last, isLast⟩ := Option.isSome_iff_exists.1 isRead
  obtain ⟨value, isValue⟩ := Lower.exists_of_last? isLast
  obtain ⟨slot, ready, uses⟩ := results_are_kept parsed leaves reaches
  have ready₁ := Lower.ready_assign ready first () state₁ assigned
  have same₁ := (Lower.isStraight_assign first state () state₁ assigned).symbols
  have isEntry₁ : state₁.symbols.get? "f" = some entry := by rw [same₁, isEntry]
  obtain ⟨-, -, emitted⟩ := uses state ⟨id, 0⟩ [] ready rfl
  obtain ⟨-, -, emitted₁⟩ := uses state₁ ⟨id, 0⟩ [] ready₁ same₁
  obtain ⟨-, -, stored⟩ :=
    (emitted "f" entry 1 true isEntry isCallable).assigned first isFirst () state₁ assigned
  obtain ⟨-, -, stored'⟩ :=
    (emitted₁ "f" entry 1 true isEntry₁ isCallable).assigned second isSecond () state₂ assigned'
  obtain ⟨-, -, register, rfl, emits⟩ :=
    (emitted₁ "f" entry 1 true isEntry₁ isCallable).read (by decide) place value last isValue
  exact ⟨program, heading, first, second, id, state, state₁, state₂, place, parsed, leaves, reaches,
    isName, isFirst, isSecond, isLeft, assigned, assigned', (slot returns).1, stored,
    ⟨register, last, isValue, emits⟩, stored'⟩

/-- A procedure that declares the name of a result is assigned there. -/
theorem compile_declared_result :
    ∃ ir, compile "procedure p; var p_return: integer; begin p := 1 end; begin end." "example" =
        .ok ir ∧ (ir.code ⟨2, 0⟩).take 2 =
          [.alloca 0 "p_return", .store (.int 1) (.register 0)] := by
  have isAny : (compile "procedure p; var p_return: integer; begin p := 1 end; begin end."
      "example").toOption.any (fun ir => decide ((ir.code ⟨2, 0⟩).take 2 =
        [.alloca 0 "p_return", .store (.int 1) (.register 0)])) = true := by decide +kernel
  cases compiled : compile "procedure p; var p_return: integer; begin p := 1 end; begin end."
      "example" with
  | error error => simp [compiled, Except.toOption] at isAny
  | ok ir =>
      simp only [compiled, Except.toOption, Option.any_some, decide_eq_true_eq] at isAny
      exact ⟨ir, rfl, isAny⟩

end MiniPascal
