import MiniPascal.Proofs.Simulation.Calls

/-!
# Names

A name that is read or assigned is translated to what it means.
-/

namespace MiniPascal

open Evaluation (Eval Memory Place Meaning)
open IR (BlockId Operand Instruction)
open Lowering (Ready)
open Machine (Config Frame Word Pointer Cells)

namespace Scene

variable {scene : Scene}

structure Within (scene : Scene) (state : Lowering) : Prop where
  symbols : state.symbols = scene.symbols
  support : state.support = scene.support

theorem Within.straight {state state' : Lowering} (within : scene.Within state)
    (straight : state.Straight state') : scene.Within state' :=
  ⟨straight.symbols.trans within.symbols, straight.support.trans within.support⟩

/-! What the translation asks of a name is known from its entry in the scene. -/

section

variable {state : Lowering} {name : String} {entry : Entry}

theorem Within.declared (within : scene.Within state)
    (isEntry : scene.symbols.get? name = some entry) {position : Position}
    {post : Entry → Lowering → Prop} (holds : post entry state) :
    Ensures (Lower.ask (·.declared name position)) post state := by
  refine Lower.ensures_declared fun found isFound => ?_
  rw [within.symbols] at isFound
  obtain rfl := Option.some.inj (isFound.symm.trans isEntry)
  exact holds

theorem Within.address (within : scene.Within state)
    (isEntry : scene.symbols.get? name = some entry) {pointer : Operand}
    (isStorage : entry.storage = .address pointer) {position : Position}
    {post : Operand → Lowering → Prop} (holds : post pointer state) :
    Ensures (Lower.address name position) post state := by
  refine Lower.ensures_address fun found other isFound isOther => ?_
  rw [within.symbols] at isFound
  obtain rfl := Option.some.inj (isFound.symm.trans isEntry)
  obtain rfl := Storage.address.inj (isOther.symm.trans isStorage)
  exact holds

theorem Within.callee (within : scene.Within state)
    (isEntry : scene.symbols.get? name = some entry) (arguments : Nat) (position : Position)
    (used : Bool) :
    Ensures (Lower.callee name arguments position used) (fun storage state' => state' = state ∧
      storage = entry.storage ∧ ∃ returnsValue, entry.shape = .callable arguments returnsValue)
      state := by
  refine (Lower.ensures_callee name arguments position used state).mono ?_
  rintro storage _ ⟨rfl, callable⟩
  obtain ⟨found, returnsValue, isFound, isShape, isStorage, -⟩ := callable.entry
  rw [within.symbols] at isFound
  obtain rfl := Option.some.inj (isFound.symm.trans isEntry)
  exact ⟨rfl, isStorage.symm, returnsValue, isShape⟩

end

/-- An action whose code does what the evaluation does, with results that agree. -/
def Carries {α β : Type} (scene : Scene) (good : Lowering → BlockId → β → α → Frame → Prop)
    (action : Lower β) (evaluation : Eval α) : Prop :=
  ∀ ⦃state : Lowering⦄ ⦃here : BlockId⦄ ⦃pending : List Nat⦄, state.Ready here pending →
    scene.Within state →
      Ensures action (fun b state' => state'.builder.ir.Part here.function scene.plan.ir →
        ∀ ⦃memory config⦄, scene.Here state here memory config →
          scene.Follows config (evaluation memory) fun a memory' last =>
            scene.Reaches state here config state' memory' last ∧
              good state' here b a last.frame) state

abbrev Values (scene : Scene) : Lower Operand → Eval Int32 → Prop :=
  scene.Carries fun state here operand value => scene.Reads state here operand (.int value)

abbrev Places (scene : Scene) : Lower Operand → Eval Place → Prop :=
  scene.Carries fun state here operand place => scene.Leads state here operand place

variable {state state' : Lowering} {here : BlockId} {pending : List Nat} {memory : Memory}
  {config : Config}

structure Tracks (state : Lowering) (here : BlockId) (pending : List Nat) (state' : Lowering) :
    Prop where
  ready : state'.Ready here pending
  straight : state.Straight state'

theorem Carries.run {α β : Type} {good : Lowering → BlockId → β → α → Frame → Prop}
    {action : Lower β} {evaluation : Eval α} {known : β → Lowering → Prop}
    (carries : scene.Carries good action evaluation)
    (yields : Ensures action (fun b state' => state'.Ready here pending ∧ known b state') state)
    (straight : action.IsStraight) (ready : state.Ready here pending)
    (within : scene.Within state) :
    Ensures action (fun b state' => Tracks state here pending state' ∧ known b state' ∧
      (state'.builder.ir.Part here.function scene.plan.ir → ∀ ⦃memory config⦄,
        scene.Here state here memory config →
          scene.Follows config (evaluation memory) fun a memory' last =>
            scene.Reaches state here config state' memory' last ∧
              good state' here b a last.frame)) state := by
  refine ((yields.and (straight state)).and (carries ready within)).mono ?_
  rintro b state' ⟨⟨⟨ready', isKnown⟩, straight'⟩, follows⟩
  exact ⟨⟨ready', straight'⟩, isKnown, follows⟩

variable (scene) in
theorem run_arith (ready : state.Ready here pending) (op : IR.ArithOp) {left right : Operand}
    (hasLeft : state.Has here left) (hasRight : state.Has here right) :
    Ensures (Lower.build (IR.Build.arith op left right)) (fun operand state' =>
      Tracks state here pending state' ∧ state'.Has here operand ∧
      (state'.builder.ir.Part here.function scene.plan.ir → ∀ ⦃memory config x y⦄,
        scene.Here state here memory config → scene.Reads state here left (.int x) config.frame →
          scene.Reads state here right (.int y) config.frame →
            scene.Follows config (ofOption (op.evaluate? x y) memory) fun value memory' last =>
              scene.Reaches state here config state' memory' last ∧
                scene.Reads state' here operand (.int value) last.frame)) state := by
  refine (((Lower.ready_arith ready op hasLeft hasRight).and
    (Lower.isStraight_build (IR.Build.isStraight_arith op left right) state)).and
    (follows_arith scene ready op left right)).mono ?_
  rintro operand state' ⟨⟨⟨ready', has⟩, straight⟩, follows⟩
  exact ⟨⟨ready', straight⟩, has, follows⟩

variable (scene) in
theorem run_compare (ready : state.Ready here pending) (predicate : IR.Predicate)
    {left right : Operand} (hasLeft : state.Has here left) (hasRight : state.Has here right) :
    Ensures (Lower.build (IR.Build.compare predicate left right)) (fun operand state' =>
      Tracks state here pending state' ∧ state'.Has here operand ∧
      (state'.builder.ir.Part here.function scene.plan.ir → ∀ ⦃memory config x y⦄,
        scene.Here state here memory config → scene.Reads state here left (.int x) config.frame →
          scene.Reads state here right (.int y) config.frame →
            scene.Follows config ((pure (truth (predicate.evaluate x y)) : Eval Int32) memory)
              fun value memory' last => scene.Reaches state here config state' memory' last ∧
                scene.Reads state' here operand (.int value) last.frame)) state := by
  refine (((Lower.ready_compare ready predicate hasLeft hasRight).and
    (Lower.isStraight_build (IR.Build.isStraight_compare predicate left right) state)).and
    (follows_compare scene ready predicate left right)).mono ?_
  rintro operand state' ⟨⟨⟨ready', has⟩, straight⟩, follows⟩
  exact ⟨⟨ready', straight⟩, has, follows⟩

theorem run_load (fair : scene.Fair) (ready : state.Ready here pending) {pointer : Operand}
    (has : state.Has here pointer) :
    Ensures (Lower.build (IR.Build.load pointer)) (fun operand state' =>
      Tracks state here pending state' ∧ state'.Has here operand ∧
      (state'.builder.ir.Part here.function scene.plan.ir → ∀ ⦃memory config place⦄,
        scene.Here state here memory config → scene.Leads state here pointer place config.frame →
          scene.Follows config (Evaluation.read place memory) fun value memory' last =>
            scene.Reaches state here config state' memory' last ∧
              scene.Reads state' here operand (.int value) last.frame)) state := by
  refine (((Lower.ready_load ready has).and
    (Lower.isStraight_build (IR.Build.isStraight_emitValue _) state)).and
    (follows_load fair ready pointer)).mono ?_
  rintro operand state' ⟨⟨⟨ready', has⟩, straight⟩, follows⟩
  exact ⟨⟨ready', straight⟩, has, follows⟩

theorem run_store (fair : scene.Fair) (ready : state.Ready here pending)
    {source pointer : Operand} (hasValue : state.Has here source)
    (hasPointer : state.Has here pointer) :
    Ensures (Lower.build (IR.Build.store source pointer)) (fun _ state' =>
      Tracks state here pending state' ∧
      (state'.builder.ir.Part here.function scene.plan.ir → ∀ ⦃memory config place value⦄,
        scene.Here state here memory config →
          scene.Reads state here source (.int value) config.frame →
            scene.Leads state here pointer place config.frame →
              scene.Follows config (Evaluation.write place value memory) fun _ memory' last =>
                scene.Reaches state here config state' memory' last)) state := by
  refine (((Lower.ready_store ready hasValue hasPointer).and
    (Lower.isStraight_build (IR.Build.isStraight_emit _) state)).and
    (follows_store fair ready source pointer)).mono ?_
  rintro _ state' ⟨⟨ready', straight⟩, follows⟩
  exact ⟨⟨ready', straight⟩, follows⟩

theorem Tracks.trans {state₁ : Lowering} (h₁ : Tracks state here pending state₁)
    (h₂ : Tracks state₁ here pending state') : Tracks state here pending state' :=
  ⟨h₂.ready, h₁.straight.trans h₂.straight⟩

theorem Tracks.part {whole : IR.Module} (tracks : Tracks state here pending state')
    (ready : state.Ready here pending) (part : state'.builder.ir.Part here.function whole) :
    state.builder.ir.Part here.function whole :=
  tracks.straight.part ready.insertPoint part

theorem Tracks.registers (tracks : Tracks state here pending state')
    (ready : state.Ready here pending) :
    state.builder.ir.registers here.function ≤ state'.builder.ir.registers here.function :=
  tracks.straight.registers ready.insertPoint

theorem Leads.keeps {operand : Operand} {place : Place} {frame later : Frame}
    (leads : scene.Leads state here operand place frame)
    (keeps : frame.Keeps (state.builder.ir.registers here.function) later)
    (le : state.builder.ir.registers here.function ≤ state'.builder.ir.registers here.function) :
    scene.Leads state' here operand place later := by
  obtain ⟨pointer, reads, points⟩ := leads
  exact ⟨pointer, reads.keeps keeps le, points⟩

/-! ### Addresses -/

theorem leads_of_addresses (isHere : scene.Here state here memory config) {place : Place}
    {pointer : Operand} (addresses : scene.plan.Addresses scene.slots place pointer) :
    scene.Leads state here pointer place config.frame := by
  have slot {number : Nat} (isSlot : number < scene.slots.length) :
      scene.Reads state here (.register number)
        (.pointer (.slot (scene.activation.below.length + number))) config.frame := by
    refine ⟨?_, Nat.lt_of_lt_of_le isSlot isHere.room⟩
    simp only [Frame.word, isHere.owns.slots number isSlot]
  cases place with
  | global name =>
      cases pointer with
      | global id => exact ⟨_, ⟨rfl, trivial⟩, addresses, rfl⟩
      | _ => exact addresses.elim
  | «local» name | result =>
      cases pointer with
      | register number =>
          exact ⟨_, slot (List.getElem?_eq_some_iff.1 addresses).1, number, addresses, rfl⟩
      | _ => exact addresses.elim
  | element array length offset => cases pointer <;> exact addresses.elim

theorem places_address {name : String} {place : Place} {entry : Entry} (position : Position)
    (isEntry : scene.symbols.get? name = some entry)
    (means : scene.plan.Means scene.slots name entry (.scalar place)) :
    scene.Places (Lower.address name position) (return place) := by
  intro state here pending ready within
  obtain ⟨-, -, pointer, isStorage, addresses⟩ := means
  refine within.address isEntry isStorage fun part memory config isHere => ?_
  exact .done ⟨.refl isHere, leads_of_addresses isHere addresses⟩

theorem values_load (fair : scene.Fair) {action : Lower Operand} {evaluation : Eval Place}
    (places : scene.Places action evaluation) (yields : Lower.Yields action)
    (straight : action.IsStraight) :
    scene.Values (do Lower.build (IR.Build.load (← action)))
      (do Evaluation.read (← evaluation)) := by
  intro state here pending ready within
  rw [ensures_bind]
  refine (places.run (yields ready) straight ready within).mono ?_
  rintro pointer state₁ ⟨tracks₁, has₁, follows₁⟩
  refine (run_load fair tracks₁.ready has₁).mono ?_
  rintro operand state₂ ⟨tracks₂, -, follows₂⟩ part memory config isHere
  refine (follows₁ (tracks₂.part tracks₁.ready part) isHere).bind ?_
  rintro place memory₁ config₁ ⟨reaches₁, leads₁⟩
  refine (follows₂ part reaches₁.isHere leads₁).weaken ?_
  rintro value memory₂ config₂ ⟨reaches₂, reads₂⟩
  exact ⟨reaches₁.trans reaches₂ (tracks₁.registers ready), reads₂⟩

theorem follows_constant (ready : state.Ready here pending) {id : IR.GlobalId} {global : IR.Global}
    {value : Int32} (isGlobal : scene.plan.ir.globals[id]? = some global)
    (content : global.content = .int value) (isConstant : global.constant = true) :
    Ensures (Lower.build (IR.Build.load (.global id))) (fun operand state' =>
      state'.builder.ir.Part here.function scene.plan.ir → ∀ ⦃memory config⦄,
        scene.Here state here memory config →
          scene.Follows config ((pure value : Eval Int32) memory) fun value memory' last =>
            scene.Reaches state here config state' memory' last ∧
              scene.Reads state' here operand (.int value) last.frame) state := by
  refine (ready.emitsValue _).mono ?_
  rintro _ state' ⟨rfl, emits⟩ part memory config isHere
  obtain ⟨cells, isCells, -, fixed, -⟩ := isHere.holds.counted.globals id global isGlobal
  rw [fixed isConstant, content] at isCells
  have isLoaded : Machine.Run.load scene.plan.ir config.frame.function (.global id 0)
      config.state.counted = .ok value config.state.counted := by
    simp [Machine.Run.load, isCells, Machine.Run.checkBounds, Cells.ofContent, Cells.size_ofList,
      Cells.get_ofList]
  have executed := Machine.Run.execute_load scene.limits config.state.counted
    (Machine.Frame.pointer_eq_ok.2 (rfl : config.frame.word scene.plan.ir (.global id) = _))
    (Scene.room emits part isHere)
  rw [isLoaded] at executed
  obtain ⟨last, runs, reaches, reads⟩ := reaches_define emits part isHere executed isHere.holds.counted
  exact .steps runs (.done ⟨reaches, reads⟩)

/-! ### Values -/

theorem valueName_cases (fair : scene.Fair) (bound : Nat) (name : String) :
    (∃ entry parameters returnsValue, scene.symbols.get? name = some entry ∧
        entry.shape = .callable (parameters + 1) returnsValue ∧
        scene.symbols.valueName (bound + 1) name = resultName name) ∨
      ((∀ entry parameters returnsValue, scene.symbols.get? name = some entry →
        entry.shape ≠ .callable (parameters + 1) returnsValue) ∧
        scene.symbols.valueName (bound + 1) name = name) := by
  have plain {other : String} (notCallable : ∀ entry parameters returnsValue,
      scene.symbols.get? other = some entry →
        entry.shape ≠ .callable (parameters + 1) returnsValue) (bound : Nat) :
      scene.symbols.valueName bound other = other := by
    cases bound with
    | zero => rfl
    | succ bound =>
        rw [SymbolTable.valueName]
        split
        · rename_i isEntry
          exact absurd rfl (notCallable _ _ _ isEntry)
        · rfl
  by_cases isCallable : ∃ entry parameters returnsValue, scene.symbols.get? name = some entry ∧
      entry.shape = .callable (parameters + 1) returnsValue
  · left
    obtain ⟨entry, parameters, returnsValue, isEntry, isShape⟩ := isCallable
    refine ⟨entry, parameters, returnsValue, isEntry, isShape, ?_⟩
    obtain ⟨shape, storage, constant, position⟩ := entry
    obtain rfl : shape = .callable (parameters + 1) returnsValue := isShape
    rw [SymbolTable.valueName, isEntry]
    refine plain (fun result count returns isResult isShape => ?_) bound
    cases isShape.symm.trans (fair.meansResult isResult).1
  · right
    have notCallable : ∀ entry parameters returnsValue, scene.symbols.get? name = some entry →
        entry.shape ≠ .callable (parameters + 1) returnsValue :=
      fun entry parameters returnsValue isEntry isShape =>
        isCallable ⟨entry, parameters, returnsValue, isEntry, isShape⟩
    exact ⟨notCallable, plain notCallable _⟩

theorem values_plainScalar (fair : scene.Fair) {name : String} {place : Place} {entry : Entry}
    (position : Position) (isEntry : scene.symbols.get? name = some entry)
    (means : scene.plan.Means scene.slots name entry (.scalar place)) :
    scene.Values (Lower.plainValue name position) (Evaluation.read place) := by
  intro state here pending ready within
  unfold Lower.plainValue
  rw [ensures_bind]
  refine within.declared isEntry ?_
  rw [means.1]
  exact values_load fair (places_address position isEntry means)
    (fun _ _ _ ready => Lower.ready_address ready name position)
    (Lower.isStraight_address name position) ready within

theorem declared_of_plainValue {name : String} {position : Position} {operand : Operand}
    (ok : Lower.plainValue name position state = .ok operand state') :
    ∃ entry, state.symbols.get? name = some entry := by
  unfold Lower.plainValue at ok
  obtain ⟨entry, state₁, asked, -⟩ := bind_eq_ok.1 ok
  have isDeclared : Ensures (Lower.ask (·.declared name position))
      (fun entry _ => state.symbols.get? name = some entry) state :=
    Lower.ensures_declared fun _ isEntry => isEntry
  exact ⟨entry, isDeclared entry state₁ asked⟩

theorem values_plainResult (fair : scene.Fair) (callable : String) (position : Position) :
    scene.Values (Lower.plainValue (resultName callable) position)
      (Evaluation.read .result) := by
  intro state here pending ready within operand state' ok
  obtain ⟨entry, isEntry⟩ := declared_of_plainValue ok
  rw [within.symbols] at isEntry
  exact values_plainScalar fair position isEntry (fair.meansResult isEntry) ready within operand
    state' ok

theorem valueName_result (fair : scene.Fair) (bound : Nat) (callable : String) :
    scene.symbols.valueName (bound + 1) (resultName callable) = resultName callable := by
  rcases valueName_cases fair bound (resultName callable) with
    ⟨entry, parameters, returnsValue, isEntry, isShape, -⟩ | ⟨-, same⟩
  · cases isShape.symm.trans (fair.meansResult isEntry).1
  · exact same

theorem values_result (fair : scene.Fair) (callable : String) (position : Position) :
    scene.Values (Lower.nameValue .running (resultName callable) position)
      (Evaluation.read .result) := by
  intro state here pending ready within
  simp only [Lower.nameValue, ensures_bind, ensures_get, within.symbols, valueName_result fair]
  exact values_plainResult fair callable position ready within

theorem values_plainConstant {name : String} {value : Int32} {entry : Entry}
    (position : Position) (isEntry : scene.symbols.get? name = some entry)
    (means : scene.plan.Means scene.slots name entry (.constant value)) :
    scene.Values (Lower.plainValue name position) (return value) := by
  intro state here pending ready within
  obtain ⟨isShape, -, id, global, isStorage, isGlobal, content, isConstant⟩ := means
  unfold Lower.plainValue
  rw [ensures_bind]
  refine within.declared isEntry ?_
  rw [isShape]
  simp only [ensures_bind]
  exact within.address isEntry isStorage (follows_constant ready isGlobal content isConstant)

theorem values_plainCall (fair : scene.Fair) {name : String} {heading : Heading}
    {body : List Statement} {entry : Entry} (position : Position)
    (isEntry : scene.symbols.get? name = some entry)
    (means : scene.plan.Means scene.slots name entry (.callable heading body)) :
    scene.Values (Lower.plainValue name position) (do
      Evaluation.asValue (← scene.invoke heading body [])) := by
  intro state here pending ready within
  obtain ⟨-, isShape, -, -, id, isStorage, isCode⟩ := means
  unfold Lower.plainValue
  rw [ensures_bind]
  refine within.declared isEntry ?_
  rw [isShape]
  simp only [Heading.shape]
  rw [ensures_bind]
  refine (within.callee isEntry 0 position true).mono ?_
  rintro storage _ ⟨rfl, rfl, returnsValue, isOtherShape⟩
  rw [isStorage]
  have noParameters : heading.parameterCount = 0 := by
    rw [isShape, Heading.shape, Shape.callable.injEq] at isOtherShape
    exact isOtherShape.1
  have sound := ready.sound.get? (within.symbols ▸ isEntry)
  simp only [Entry.Sound, isStorage] at sound
  obtain ⟨called, isCalled, -, sameShape⟩ := sound
  rw [isShape, Heading.shape, Shape.callable.injEq] at sameShape
  rw [ensures_bind]
  refine (follows_emitCall fair ready isCalled sameShape.2.symm isCode []).mono ?_
  intro result state₁ follows
  refine Lower.ensures_asValue ?_
  rintro operand rfl part memory config isHere
  refine (follows part (by simp [noParameters]) isHere .nil).bind ?_
  rintro value? memory₁ config₁ ⟨reaches, results⟩
  cases value? with
  | none => exact results.elim
  | some value => exact .done ⟨reaches, results⟩

theorem nameValue_callable (fair : scene.Fair) {name : String} {entry found : Entry}
    {parameters : Nat} {returnsValue : Bool} (isEntry : scene.symbols.get? name = some entry)
    (isShape : entry.shape = .callable (parameters + 1) returnsValue)
    (isFound : scene.symbols.get? (resultName name) = some found) :
    Evaluation.nameValue scene.invoke scene.scope name = Evaluation.read .result := by
  obtain ⟨-, ⟨own, isOwn, isOwnName, returns⟩, notBuiltin⟩ := fair.results name found isFound
  obtain ⟨meaning, isMeaning, means⟩ := fair.names name entry isEntry
  rcases means.of_callable isShape with ⟨heading, body, rfl⟩ | ⟨builtin, rfl⟩
  · obtain ⟨sameName, sameShape, -⟩ := means
    rw [isShape, Heading.shape, Shape.callable.injEq] at sameShape
    simp [Evaluation.nameValue, isMeaning, ← sameShape.1, Evaluation.Scope.returnsFrom, isOwn,
      isOwnName, sameName, returns]
  · exact absurd isMeaning (notBuiltin builtin)

theorem values_nameValue (fair : scene.Fair) (name : String) (position : Position) :
    scene.Values (Lower.nameValue .running name position)
      (Evaluation.nameValue scene.invoke scene.scope name) := by
  intro state here pending ready within
  simp only [Lower.nameValue, ensures_bind, ensures_get, within.symbols]
  rcases valueName_cases fair scene.symbols.size name with
    ⟨entry, parameters, returnsValue, isEntry, isShape, isName⟩ | ⟨notCallable, isName⟩
  · rw [isName]
    intro operand state' ok
    obtain ⟨found, isFound⟩ := declared_of_plainValue ok
    rw [within.symbols] at isFound
    rw [nameValue_callable fair isEntry isShape isFound]
    exact values_plainResult fair name position ready within operand state' ok
  · rw [isName]
    intro operand state' ok
    obtain ⟨entry, isEntry⟩ := declared_of_plainValue ok
    rw [within.symbols] at isEntry
    obtain ⟨meaning, isMeaning, means⟩ := fair.names name entry isEntry
    revert operand state'
    change Ensures _ _ state
    cases meaning with
    | constant value =>
        have isValue : Evaluation.nameValue scene.invoke scene.scope name = return value := by
          simp only [Evaluation.nameValue, isMeaning]
        rw [isValue]
        exact values_plainConstant position isEntry means ready within
    | scalar place =>
        have isRead : Evaluation.nameValue scene.invoke scene.scope name =
            Evaluation.read place := by
          simp only [Evaluation.nameValue, isMeaning]
        rw [isRead]
        exact values_plainScalar fair position isEntry means ready within
    | callable heading body =>
        have noParameters : heading.parameterCount = 0 := by
          have isShape := means.2.1
          rw [Heading.shape] at isShape
          cases isCount : heading.parameterCount with
          | zero => rfl
          | succ count =>
              rw [isCount] at isShape
              exact absurd isShape (notCallable entry _ _ isEntry)
        have isCall : Evaluation.nameValue scene.invoke scene.scope name = (do
            Evaluation.asValue (← scene.invoke heading body [])) := by
          simp only [Evaluation.nameValue, isMeaning, noParameters, if_true]
        rw [isCall]
        exact values_plainCall fair position isEntry means ready within
    | array array low high =>
        -- an array has no value, and is refused
        unfold Lower.plainValue
        rw [ensures_bind]
        refine within.declared isEntry ?_
        simp [means.1]
    | builtin builtin =>
        unfold Lower.plainValue
        rw [ensures_bind]
        refine within.declared isEntry ?_
        obtain ⟨-, isShape, -, isStorage⟩ := means
        simp only [isShape, ensures_bind]
        refine (within.callee isEntry 0 position true).mono ?_
        rintro storage _ ⟨rfl, rfl, -⟩
        simp [isStorage]

/-! ### Places -/

theorem declared_of_address {name : String} {position : Position} {operand : Operand}
    (ok : Lower.address name position state = .ok operand state') :
    ∃ entry, state.symbols.get? name = some entry := by
  have isDeclared : Ensures (Lower.address name position)
      (fun _ _ => ∃ entry, state.symbols.get? name = some entry) state :=
    Lower.ensures_address fun entry _ isEntry _ => ⟨entry, isEntry⟩
  exact isDeclared operand state' ok

theorem places_result (fair : scene.Fair) (callable : String) (position : Position) :
    scene.Places (Lower.address (resultName callable) position) (return .result) := by
  intro state here pending ready within operand state' ok
  obtain ⟨entry, isEntry⟩ := declared_of_address ok
  rw [within.symbols] at isEntry
  exact places_address position isEntry (fair.meansResult isEntry) ready within operand state' ok

theorem namePlace_callable (fair : scene.Fair) {name : String} {entry found : Entry}
    {parameters : Nat} {returnsValue : Bool} (isEntry : scene.symbols.get? name = some entry)
    (isShape : entry.shape = .callable parameters returnsValue)
    (isFound : scene.symbols.get? (resultName name) = some found) :
    Evaluation.namePlace scene.scope name = return .result := by
  obtain ⟨-, ⟨own, isOwn, isOwnName, returns⟩, notBuiltin⟩ := fair.results name found isFound
  obtain ⟨meaning, isMeaning, means⟩ := fair.names name entry isEntry
  rcases means.of_callable isShape with ⟨heading, body, rfl⟩ | ⟨builtin, rfl⟩
  · simp [Evaluation.namePlace, isMeaning, Evaluation.Scope.returnsFrom, isOwn, isOwnName, means.1,
      returns]
  · exact absurd isMeaning (notBuiltin builtin)

theorem places_namePointer (fair : scene.Fair) (name : String) (position : Position)
    (notConstant : ∀ entry, scene.symbols.get? name = some entry → entry.constant = none) :
    scene.Places (Lower.namePointer name position) (Evaluation.namePlace scene.scope name) := by
  intro state here pending ready within
  unfold Lower.namePointer
  rw [ensures_bind]
  refine Lower.ensures_declared fun entry isEntry => ?_
  rw [within.symbols] at isEntry
  split
  · rename_i isShape
    obtain ⟨meaning, isMeaning, means⟩ := fair.names name entry isEntry
    rcases means.of_integer isShape with ⟨value, rfl⟩ | ⟨place, rfl⟩
    · have isConstant := means.2.1
      rw [notConstant entry isEntry] at isConstant
      cases isConstant
    · have isPlace : Evaluation.namePlace scene.scope name = return place := by
        simp only [Evaluation.namePlace, isMeaning]
      rw [isPlace]
      exact places_address position isEntry means ready within
  · rename_i parameters returnsValue isShape
    intro operand state' ok
    obtain ⟨found, isFound⟩ := declared_of_address ok
    rw [within.symbols] at isFound
    rw [namePlace_callable fair isEntry isShape isFound]
    exact places_result fair name position ready within operand state' ok
  · simp

theorem places_elementPointer (fair : scene.Fair) (array : String) (position : Position)
    {index : Lower Operand} {evaluation : Eval Int32} (values : scene.Values index evaluation)
    (yields : Lower.Yields index) (straight : index.IsStraight) :
    scene.Places (Lower.elementPointer array position index)
      (Evaluation.elementPlace scene.scope array evaluation) := by
  intro state here pending ready within
  unfold Lower.elementPointer
  rw [ensures_bind]
  refine Lower.ensures_declared fun entry isEntry => ?_
  rw [within.symbols] at isEntry
  split
  · rename_i low high isShape
    obtain ⟨meaning, isMeaning, means⟩ := fair.names array entry isEntry
    obtain ⟨name, rfl⟩ := means.of_array isShape
    obtain ⟨-, -, id, global, isStorage, isOwner, isGlobal, content⟩ := means
    rw [ensures_bind]
    refine within.address isEntry isStorage ?_
    rw [ensures_bind]
    refine (values.run (yields ready) straight ready within).mono ?_
    rintro operand state₁ ⟨tracks₁, has₁, follows₁⟩
    rw [ensures_bind]
    refine (run_arith scene tracks₁.ready .sub has₁ (Lower.has_int low)).mono ?_
    rintro offset state₂ ⟨tracks₂, has₂, follows₂⟩
    refine ((follows_element scene tracks₂.ready (.global id) offset).and
      (Lower.isStraight_build (IR.Build.isStraight_emitValue _) state₂)).mono ?_
    rintro pointer state₃ ⟨follows₃, straight₃⟩ part memory config isHere
    have part₂ := straight₃.part tracks₂.ready.insertPoint part
    have part₁ := tracks₂.part tracks₁.ready part₂
    have isPlace : Evaluation.elementPlace scene.scope array evaluation =
        evaluation >>= fun value => ofOption (IR.ArithOp.sub.evaluate? value low) >>=
          fun offset =>
            return Place.element name (Evaluation.elements low high) offset.toInt := by
      simp only [Evaluation.elementPlace, isMeaning, IR.ArithOp.evaluate?, ofOption, pure_bind]
    rw [isPlace]
    refine (follows₁ part₁ isHere).bind ?_
    rintro value memory₁ config₁ ⟨reaches₁, reads₁⟩
    refine (follows₂ part₂ reaches₁.isHere reads₁ (reads_int low _)).bind ?_
    rintro offset memory₂ config₂ ⟨reaches₂, reads₂⟩
    obtain ⟨config₃, runs₃, reaches₃, reads₃⟩ :=
      follows₃ part reaches₂.isHere ⟨rfl, trivial⟩ reads₂
    refine .steps runs₃ (.done ⟨?_, ?_⟩)
    · have le₁ := tracks₁.registers ready
      have le₂ := tracks₂.registers tracks₁.ready
      exact (reaches₁.trans reaches₂ le₁).trans reaches₃ (Nat.le_trans le₁ le₂)
    · exact ⟨_, reads₃, isOwner, rfl, global, isGlobal, by rw [content]; rfl⟩
  · simp

end Scene

end MiniPascal
