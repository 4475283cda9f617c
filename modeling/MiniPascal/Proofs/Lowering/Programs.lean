import MiniPascal.Compile
import MiniPascal.Proofs.Lowering.Declarations
import MiniPascal.Proofs.Parser.Declarations

/-!
# Translation of callables and programs

A definition opens the function that was made for it, translates the body, and leaves no block
open.  So all functions that have blocks are well-formed in the end.
-/

namespace MiniPascal

open IR (BlockId Builder Operand Instruction)
open Lowering (Ready)

namespace Lowering

variable {state : Lowering}

structure Opens (state : Lowering) (name : String) (id : IR.FunctionId) (entry : Entry) : Prop where
  outer : state.symbols.enclosing = none
  sound : state.Sound []
  isEntry : state.symbols.getOuter? name = some entry
  isStorage : entry.storage = .function id
  isDeclaration : ∀ function : IR.Function, state.builder.ir.functions[id]? = some function →
    function.isDeclaration
  isDefined : state.symbols.globals.has name = true
  owned : ∀ other found, state.symbols.forwards.lookup other = some found →
    found.storage = .function id → other = name

theorem Opens.function {name : String} {id : IR.FunctionId} {entry : Entry}
    (opens : state.Opens name id entry) :
    ∃ function, state.builder.ir.functions[id]? = some function ∧ function.blocks = #[] ∧
      entry.shape = .callable function.parameters function.returnsValue ∧
      function.Growing state.builder.ir id [] := by
  have sound := opens.sound.outer opens.isEntry
  simp only [Entry.Sound, opens.isStorage] at sound
  obtain ⟨function, isFunction, -, isShape⟩ := sound
  have growing := opens.sound.functions id function isFunction
  refine ⟨function, isFunction, ?_, isShape, by simpa [current?, opens.outer] using growing⟩
  simpa [IR.Function.isDeclaration] using opens.isDeclaration function isFunction

theorem Opens.ready {name : String} {id : IR.FunctionId} {entry : Entry}
    (opens : state.Opens name id entry) (label : String) :
    { state with
      builder := { state.builder.modifyFunction id (·.addBlock label) with
        insertPoint := some ⟨id, 0⟩ }
      symbols := state.symbols.enter id name }.Ready ⟨id, 0⟩ [] := by
  obtain ⟨function, isFunction, noBlocks, isShape, growing⟩ := opens.function
  have isNew : (state.builder.modifyFunction id (·.addBlock label)).ir.functions[id]? =
      some (function.addBlock label) := by
    simp [Builder.functions_modifyFunction, isFunction]
  have others (other : IR.FunctionId) (different : other ≠ id) :
      (state.builder.modifyFunction id (·.addBlock label)).ir.functions[other]? =
        state.builder.ir.functions[other]? := by
    simp [Builder.functions_modifyFunction, different.symm]
  have within : state.builder.ir.Within
      (state.builder.modifyFunction id (·.addBlock label)).ir := by
    refine ⟨Nat.le_refl _, fun other found isFound => ?_⟩
    by_cases same : other = id
    · subst same
      obtain rfl := Option.some.inj (isFound.symm.trans isFunction)
      exact ⟨_, isNew, rfl, rfl, rfl⟩
    · exact ⟨found, (others other same).trans isFound, rfl, rfl, rfl⟩
  have grown := (growing.addBlock label).within within
  rw [noBlocks] at grown
  refine ⟨rfl, ⟨name, rfl⟩, ⟨?_, opens.sound.support.within within,
    fun other entry isEntry => (opens.sound.globals other entry isEntry).within within (by simp),
    fun other entry isEntry => (opens.sound.forwards other entry isEntry).within within (by simp),
    ?_, ?_, ?_, opens.sound.distinct⟩⟩
  · intro other found isFound
    by_cases same : other = id
    · subst same
      obtain rfl := Option.some.inj (isFound.symm.trans isNew)
      simpa [current?, SymbolTable.enter] using grown
    · have kept := opens.sound.functions other found ((others other same).symm.trans isFound)
      simp only [current?, opens.outer, Option.map_none, reduceCtorEq, if_false] at kept
      simpa [current?, SymbolTable.enter, Ne.symm same] using kept.within within
  · intro other found isFound
    refine (opens.sound.locals other found isFound).within within ?_
    simp [slots, current?, opens.outer]
  · rintro _ ⟨⟩
    exact ⟨entry, opens.isEntry, opens.isStorage⟩
  · intro other found isFound isUndefined
    obtain ⟨otherId, isStorage, -, isDeclaration⟩ :=
      opens.sound.undefined other found isFound isUndefined
    have different : otherId ≠ id := by
      rintro rfl
      obtain rfl := opens.owned other found isFound isStorage
      simp [SymbolTable.enter, opens.isDefined] at isUndefined
    refine ⟨otherId, isStorage, by simpa [current?, SymbolTable.enter] using different.symm, ?_⟩
    exact fun function isFunction => isDeclaration function
      ((others otherId different).symm.trans isFunction)

theorem Sound.leave (sound : state.Sound []) :
    { state with symbols := state.symbols.leave }.Sound [] := by
  refine ⟨fun id function isFunction => ?_, sound.support, sound.globals, sound.forwards,
    by simp [SymbolTable.leave], by simp [SymbolTable.leave], ?_, sound.distinct⟩
  · simpa [current?] using sound.functions id function isFunction
  · intro other found isFound isUndefined
    obtain ⟨id, isStorage, -, isDeclaration⟩ := sound.undefined other found isFound isUndefined
    exact ⟨id, isStorage, by simp [current?, SymbolTable.leave], isDeclaration⟩

structure Describes (state : Lowering) (id : IR.FunctionId) (name : String) (parameters : Nat)
    (returnsValue : Bool) : Prop where
  entry : ∃ entry, state.symbols.getOuter? name = some entry ∧ entry.storage = .function id ∧
    entry.shape = .callable parameters returnsValue
  enclosing : state.symbols.enclosing = some ⟨id, name⟩

theorem Describes.sameOuter {state' : Lowering} {id : IR.FunctionId} {name : String}
    {parameters : Nat} {returnsValue : Bool}
    (describes : state.Describes id name parameters returnsValue) (same : state.SameOuter state') :
    state'.Describes id name parameters returnsValue :=
  ⟨by simpa [same.getOuter?] using describes.entry, same.enclosing.trans describes.enclosing⟩

theorem Describes.function {id : IR.FunctionId} {name : String} {parameters : Nat}
    {returnsValue : Bool} {pending : List Nat}
    (describes : state.Describes id name parameters returnsValue) (sound : state.Sound pending) :
    ∃ function, state.builder.ir.functions[id]? = some function ∧
      function.parameters = parameters ∧ function.returnsValue = returnsValue := by
  obtain ⟨entry, isEntry, isStorage, isShape⟩ := describes.entry
  have entrySound := sound.outer isEntry
  simp only [Entry.Sound, isStorage, isShape, Shape.callable.injEq] at entrySound
  obtain ⟨function, isFunction, -, same₁, same₂⟩ := entrySound
  exact ⟨function, isFunction, same₁.symm, same₂.symm⟩

def addForward (state : Lowering) (heading : Heading) : Lowering :=
  { state with
    symbols := state.symbols.addForward heading.name
      ⟨heading.shape, .function state.builder.ir.functions.size, none, heading.position⟩
    builder := (IR.Build.addFunction heading.name heading.parameterCount
      heading.returns.isSome false state.builder).2 }

end Lowering

namespace Lower

open Lowering (Describes Opens)

variable {state : Lowering} {id : IR.FunctionId}

/-! ### Parameters and results -/

theorem Keeps.straight {state' : Lowering} (straight : state.Straight state')
    (isHere : state.builder.insertPoint = some ⟨id, 0⟩) (ready : state'.Ready ⟨id, 0⟩ []) :
    Keeps (some id) state state' :=
  ⟨ready, fun _ => by constructor <;> rw [straight.symbols], straight.support,
    (straight.grows _ isHere).around⟩

theorem keeps_initialized (declares : state.Declares (some id)) (name : String) (position : Position)
    {value : Operand} (has : ∀ state', Keeps (some id) state state' → state'.Has ⟨id, 0⟩ value) :
    Ensures (do
      declareVariable .integer position name
      let pointer ← address name position
      build (IR.Build.store value pointer)) (fun _ => Keeps (some id) state) state := by
  rw [ensures_bind]
  refine (keeps_declareVariable declares .integer position name).mono fun _ state₁ keeps₁ => ?_
  rw [ensures_bind]
  refine ((ready_address keeps₁.1 name position).and (isStraight_address name position state₁)).mono ?_
  rintro pointer state₂ ⟨⟨ready₂, hasPointer⟩, straight₂⟩
  have keeps₂ := keeps₁.trans (.straight straight₂ keeps₁.1.insertPoint ready₂)
  refine ((ready_store ready₂ (has state₂ keeps₂) hasPointer).and
    (isStraight_build (IR.Build.isStraight_emit _) state₂)).mono ?_
  rintro _ state₃ ⟨ready₃, straight₃⟩
  exact keeps₂.trans (.straight straight₃ ready₂.insertPoint ready₃)

theorem keeps_declareParameters {name : String} {parameters first : Nat} {returnsValue : Bool}
    (declares : state.Declares (some id))
    (describes : state.Describes id name parameters returnsValue)
    (others : List (String × Position)) (enough : first + others.length ≤ parameters) :
    Ensures (declareParameters first others) (fun _ => Keeps (some id) state) state := by
  induction others generalizing first state with
  | nil => exact ensures_pure.2 (.refl declares)
  | cons parameter others ih =>
      obtain ⟨name', position⟩ := parameter
      rw [List.length_cons] at enough
      have has (state' : Lowering) (keeps : Keeps (some id) state state') :
          state'.Has ⟨id, 0⟩ (.argument first) := by
        intro function block isFunction isBlock
        obtain ⟨same, isSame, isCount, -⟩ :=
          (describes.sameOuter (keeps.2 rfl)).function keeps.1.sound
        obtain rfl := Option.some.inj (isFunction.symm.trans isSame)
        simp only [Operand.Fits, isCount]
        omega
      have rest : Ensures (do
          declareVariable .integer position name'
          let pointer ← address name' position
          build (IR.Build.store (.argument first) pointer))
          (fun _ state' => Ensures (declareParameters (first + 1) others)
            (fun _ => Keeps (some id) state) state') state := by
        refine (keeps_initialized declares name' position has).mono fun _ state₁ keeps₁ => ?_
        refine (ih keeps₁.1 (describes.sameOuter (keeps₁.2 rfl)) (by omega)).mono ?_
        exact fun _ state₂ keeps₂ => keeps₁.trans keeps₂
      simpa only [declareParameters, ensures_bind] using rest

/-! ### Bodies -/

theorem sound_implicitReturn {heading : Heading} {here : BlockId} {pending : List Nat}
    {ending : Option Ending} {next : Nat} {state' : Lowering}
    (describes : state.Describes here.function heading.name heading.parameterCount
      heading.returns.isSome)
    (goes : state.Goes here pending next ending state') :
    Ensures (implicitReturn heading) (fun _ state'' => state''.Sound pending ∧
      state''.symbols = state.symbols) state' := by
  unfold implicitReturn
  rw [ensures_bind, ensures_build]
  cases ending with
  | some ending =>
      -- the statements have ended the block themselves
      obtain ⟨sound, isEnded⟩ := goes.ends rfl
      have isTerminated : (IR.Build.isTerminated state'.builder).1 = true := isEnded
      simp only [isTerminated, Bool.not_true, Bool.false_eq_true, if_false, ensures_pure]
      exact ⟨sound, goes.moves.symbols⟩
  | none =>
      obtain ⟨there, leads, ready⟩ := goes.continues rfl
      have notTerminated : (IR.Build.isTerminated state'.builder).1 = false :=
        Bool.eq_false_iff.2 ready.notEnded
      have describes' : state'.Describes there.function heading.name heading.parameterCount
          heading.returns.isSome := by
        rw [leads.same]
        refine ⟨?_, by rw [goes.moves.symbols]; exact describes.enclosing⟩
        rw [goes.moves.symbols]
        exact describes.entry
      obtain ⟨function, isFunction, -, isReturning⟩ := describes'.function ready.sound
      have returns : state'.Returns there.function heading.returns.isSome := by
        intro other isOther
        obtain rfl := Option.some.inj (isOther.symm.trans isFunction)
        exact isReturning.symm
      simp only [notTerminated, Bool.not_false, if_true]
      cases isSome : heading.returns.isSome with
      | true =>
          rw [isSome] at returns
          simp only [if_true, ensures_bind]
          refine ((yields_nameValue _ heading.position ready).and
            (isStraight_nameValue .running _ _ state')).mono ?_
          rintro value state₁ ⟨⟨ready₁, has₁⟩, straight₁⟩
          have returns₁ := returns.straight ready straight₁
          refine ((ready₁.terminate (.ret (some value)) (allows_ret (by simpa using has₁) returns₁)
            rfl).and
            (isStraight_build (IR.Build.isStraight_emit _) state₁)).mono ?_
          rintro _ state₂ ⟨ended, straight₂⟩
          exact ⟨ended.1, ((straight₁.trans straight₂).symbols).trans goes.moves.symbols⟩
      | false =>
          rw [isSome] at returns
          simp only [Bool.false_eq_true, if_false]
          refine ((ready.terminate (.ret none) (allows_ret (by simp) returns) rfl).and
            (isStraight_build (IR.Build.isStraight_emit _) state')).mono ?_
          rintro _ state₁ ⟨ended, straight₁⟩
          exact ⟨ended.1, straight₁.symbols.trans goes.moves.symbols⟩

/-! ### Definitions -/

theorem growing_declaration (ir : IR.Module) (id : IR.FunctionId) (name : String)
    (parameters : Nat) (returnsValue variadic : Bool) :
    (⟨name, parameters, returnsValue, variadic, #[], 0⟩ : IR.Function).Growing ir id [] := by
  refine ⟨⟨?_, ?_⟩, ?_, ?_, ?_⟩ <;> simp [IR.Function.definedRegisters]

theorem getElem?_addFunction (builder : Builder) (name : String) (parameters : Nat)
    (returnsValue variadic : Bool) :
    (IR.Build.addFunction name parameters returnsValue variadic builder).2.ir.functions[
        builder.ir.functions.size]? =
      some ⟨IR.uniqueName (builder.ir.functions.toList.map (·.name)) name, parameters,
        returnsValue, variadic, #[], 0⟩ := by
  change (builder.ir.functions.push _)[builder.ir.functions.size]? = _
  rw [Array.getElem?_push, if_pos rfl]

theorem getElem?_addFunction_of_eq_some {builder : Builder} (name : String) (parameters : Nat)
    (returnsValue variadic : Bool) {id : IR.FunctionId} {function : IR.Function}
    (isFunction : builder.ir.functions[id]? = some function) :
    (IR.Build.addFunction name parameters returnsValue variadic builder).2.ir.functions[id]? =
      some function := by
  change (builder.ir.functions.push _)[id]? = _
  rw [Array.getElem?_push, if_neg, isFunction]
  exact Nat.ne_of_lt (Array.getElem?_eq_some_iff.1 isFunction).1

theorem declares_addFunction (outer : state.Declares none) (name : String) (parameters : Nat)
    (returnsValue variadic : Bool) :
    { state with
      builder :=
        (IR.Build.addFunction name parameters returnsValue variadic state.builder).2 }.Declares
          none := by
  obtain ⟨isNone, sound⟩ := outer
  have isOld {id : IR.FunctionId} {function : IR.Function}
      (isFunction : state.builder.ir.functions[id]? = some function) :
      (IR.Build.addFunction name parameters returnsValue variadic
        state.builder).2.ir.functions[id]? = some function := by
    change (state.builder.ir.functions.push _)[id]? = _
    have bound := (Array.getElem?_eq_some_iff.1 isFunction).1
    rw [Array.getElem?_push, if_neg (by omega), isFunction]
  have within : state.builder.ir.Within
      (IR.Build.addFunction name parameters returnsValue variadic state.builder).2.ir :=
    ⟨Nat.le_refl _, fun id function isFunction => ⟨function, isOld isFunction, rfl, rfl, rfl⟩⟩
  refine ⟨isNone, ⟨?_, sound.support.within within,
    fun other entry isEntry => (sound.globals other entry isEntry).within within (by simp),
    fun other entry isEntry => (sound.forwards other entry isEntry).within within (by simp),
    fun other entry isEntry => (sound.locals other entry isEntry).within within ?_,
    sound.enclosing, ?_, sound.distinct⟩⟩
  · intro id function isFunction
    change (state.builder.ir.functions.push _)[id]? = _ at isFunction
    rw [Array.getElem?_push] at isFunction
    split at isFunction
    · obtain rfl := Option.some.inj isFunction
      simpa [Lowering.current?, isNone] using growing_declaration _ _ _ _ _ _
    · exact (sound.functions id function isFunction).within within
  · simp [Lowering.slots, Lowering.current?, isNone]
  · intro other found isFound isUndefined
    obtain ⟨id, isStorage, notCurrent, isDeclaration⟩ :=
      sound.undefined other found isFound isUndefined
    refine ⟨id, isStorage, notCurrent, fun function isFunction => isDeclaration function ?_⟩
    have entrySound := sound.forwards other found isFound
    simp only [Entry.Sound, isStorage] at entrySound
    obtain ⟨old, isOldFunction, -, -⟩ := entrySound
    rw [← isFunction, isOld isOldFunction, isOldFunction]

/-- The function that a definition fills has no blocks yet, unless the callable has a definition. -/
structure Chosen (state : Lowering) (heading : Heading) (id : IR.FunctionId)
    (state' : Lowering) : Prop where
  outer : state'.Declares none
  made : state' = state ∧ (state.symbols.forwards.lookup heading.name).isSome ∨
    state.symbols.forwards.lookup heading.name = none ∧ id = state.builder.ir.functions.size ∧
      state' = { state with builder := (IR.Build.addFunction heading.name heading.parameterCount
        heading.returns.isSome false state.builder).2 }
  symbols : state'.symbols = state.symbols
  owned : ∀ other found, state.symbols.forwards.lookup other = some found →
    found.storage = .function id → other = heading.name
  forward : ∀ entry, state.symbols.forwards.lookup heading.name = some entry →
    entry.shape = heading.shape ∧ entry.storage = .function id
  function : ∃ function, state'.builder.ir.functions[id]? = some function ∧
    function.variadic = false ∧
    heading.shape = .callable function.parameters function.returnsValue ∧
    (state.symbols.globals.has heading.name = false → function.isDeclaration)

theorem ensures_definedFunction (heading : Heading) (outer : state.Declares none) :
    Ensures (definedFunction heading) (Chosen state heading) state := by
  unfold definedFunction
  simp only [ensures_bind, ensures_get]
  cases isForward : state.symbols.forwards.lookup heading.name with
  | some entry =>
      have sound := outer.2.forwards _ entry isForward
      by_cases sameShape : entry.shape = heading.shape
      · simp only [sameShape, ne_eq, not_true, if_false]
        split
        · rename_i id isStorage
          simp only [Entry.Sound, isStorage] at sound
          obtain ⟨function, isFunction, notVariadic, isShape⟩ := sound
          refine ensures_pure.2 ⟨outer, .inl ⟨rfl, by simp [isForward]⟩, rfl, ?_, ?_, function,
            isFunction, notVariadic,
            sameShape.symm.trans isShape, ?_⟩
          · intro other found isFound isSame
            exact outer.2.distinct _ _ _ _ isFound isForward (isSame.trans isStorage.symm)
          · intro other isOther
            obtain rfl := Option.some.inj (isForward.symm.trans isOther)
            exact ⟨sameShape, isStorage⟩
          · intro isUndefined
            obtain ⟨id', isStorage', -, isDeclaration⟩ :=
              outer.2.undefined _ entry isForward isUndefined
            obtain rfl : id = id' := by simpa using isStorage.symm.trans isStorage'
            exact isDeclaration function isFunction
        · simp
      · simp [sameShape]
  | none =>
      simp only [ensures_bind]
      refine ensures_ask fun _ _ => ?_
      rw [newFunction, ensures_build]
      have declares := declares_addFunction outer heading.name heading.parameterCount
        heading.returns.isSome false
      refine ⟨declares, .inr ⟨isForward, rfl, rfl⟩, rfl, ?_, by simp [isForward], ?_⟩
      · intro other found isFound isSame
        have sound := outer.2.forwards other found isFound
        simp only [Entry.Sound, isSame] at sound
        obtain ⟨function, isFunction, -, -⟩ := sound
        exact absurd (Array.getElem?_eq_some_iff.1 isFunction).1 (Nat.lt_irrefl _)
      · exact ⟨_, getElem?_addFunction _ _ _ _ _, rfl, rfl, fun _ => rfl⟩

theorem Chosen.opens {heading : Heading} {id : IR.FunctionId} {state' : Lowering}
    (chosen : Chosen state heading id state')
    (notDefined : state.symbols.globals.has heading.name = false) :
    ∃ entry, entry.shape = heading.shape ∧
      Opens
        { state' with
          symbols := state'.symbols.add heading.name
            ⟨heading.shape, .function id, none, heading.position⟩ } heading.name id entry := by
  obtain ⟨isNone, sound⟩ := chosen.outer
  obtain ⟨function, isFunction, notVariadic, isShape, isDeclaration⟩ := chosen.function
  have added : state'.symbols.add heading.name ⟨heading.shape, .function id, none, heading.position⟩ =
      { state'.symbols with globals :=
        (heading.name, ⟨heading.shape, .function id, none, heading.position⟩) ::
          state'.symbols.globals } := by
    simp [SymbolTable.add, isNone]
  have entrySound : (⟨heading.shape, .function id, none, heading.position⟩ : Entry).Sound
      state'.builder.ir state'.slots := by
    simp only [Entry.Sound]
    exact ⟨function, isFunction, notVariadic, isShape⟩
  have outer : (state'.symbols.add heading.name
      ⟨heading.shape, .function id, none, heading.position⟩).enclosing = none := by
    rw [Lowering.enclosing_add, isNone]
  have isDeclaration' : ∀ other : IR.Function, state'.builder.ir.functions[id]? = some other →
      other.isDeclaration := by
    intro other isOther
    obtain rfl := Option.some.inj (isOther.symm.trans isFunction)
    exact isDeclaration notDefined
  have isDefined : (state'.symbols.add heading.name
      ⟨heading.shape, .function id, none, heading.position⟩).globals.has heading.name = true := by
    simp [added, Table.has]
  have owned : ∀ other found, (state'.symbols.add heading.name
      ⟨heading.shape, .function id, none, heading.position⟩).forwards.lookup other = some found →
        found.storage = .function id → other = heading.name := by
    rw [Lowering.forwards_add, chosen.symbols]
    exact chosen.owned
  have forwards : (state'.symbols.add heading.name
      ⟨heading.shape, .function id, none, heading.position⟩).forwards = state.symbols.forwards := by
    rw [Lowering.forwards_add, chosen.symbols]
  cases isForward : state.symbols.forwards.lookup heading.name with
  | some entry =>
      obtain ⟨sameShape, isStorage⟩ := chosen.forward entry isForward
      refine ⟨entry, sameShape, outer, sound.add _ entrySound, ?_, isStorage, isDeclaration',
        isDefined, owned⟩
      simp only [SymbolTable.getOuter?, forwards, isForward, Option.some_or]
  | none =>
      refine ⟨⟨heading.shape, .function id, none, heading.position⟩, rfl, outer,
        sound.add _ entrySound, ?_, rfl, isDeclaration', isDefined, owned⟩
      simp only [SymbolTable.getOuter?, forwards, isForward, Option.none_or]
      simp [added]

def opened (state : Lowering) (heading : Heading) (id : IR.FunctionId) : Lowering :=
  { state with
    builder := { state.builder.modifyFunction id (·.addBlock "body") with
      insertPoint := some ⟨id, 0⟩ }
    symbols := (state.symbols.add heading.name
      ⟨heading.shape, .function id, none, heading.position⟩).enter id heading.name }

structure Entered (state : Lowering) (heading : Heading) (id : IR.FunctionId)
    (state' : Lowering) : Prop where
  opened : ∃ chosen, Chosen state heading id chosen ∧ state' = opened chosen heading id
  notDefined : state.symbols.globals.has heading.name = false
  ready : state'.Ready ⟨id, 0⟩ []
  describes : state'.Describes id heading.name heading.parameterCount heading.returns.isSome

def prologue (heading : Heading) : Lower Unit := do
  if heading.returns.isSome then declareResult heading.name heading.position
  declareParameters 0
    (heading.parameters.flatMap fun group => group.names.map fun name => (name, group.position))

def fill (heading : Heading) (body : Lower (Option Ending)) : Lower Unit := do
  prologue heading
  let _ ← body
  implicitReturn heading
  modifySymbols (·.leave)

def openDefinition (heading : Heading) : Lower Unit := do
  let function ← definedFunction heading
  declareCallable heading.name heading.shape (.function function) heading.position
  let entry ← build (IR.Build.appendBlock function "body")
  build (IR.Build.setInsertPoint entry)
  modifySymbols (·.enter function heading.name)

theorem definition_eq (heading : Heading) (body : Lower (Option Ending)) :
    definition heading body = (do
      openDefinition heading
      fill heading body) := by
  unfold definition openDefinition fill prologue
  cases heading.returns.isSome <;> simp only [bind_assoc, Bool.false_eq_true, if_true, if_false]

theorem ensures_openDefinition {heading : Heading} {post : Unit → Lowering → Prop}
    (outer : state.Declares none) (h : ∀ id state', Entered state heading id state' → post () state') :
    Ensures (openDefinition heading) post state := by
  unfold openDefinition
  rw [ensures_bind]
  refine (ensures_definedFunction heading outer).mono fun id state₁ chosen => ?_
  rw [ensures_bind]
  refine ensures_declareCallable fun notTaken => ?_
  have notDefined : state.symbols.globals.has heading.name = false := by
    rw [chosen.symbols] at notTaken
    simpa [SymbolTable.current, outer.1] using notTaken
  obtain ⟨entry, sameShape, opens⟩ := chosen.opens notDefined
  obtain ⟨function, isFunction, noBlocks, -⟩ := opens.function
  have isEntered : IR.Build.appendBlock id "body" state₁.builder =
      (⟨id, 0⟩, state₁.builder.modifyFunction id (·.addBlock "body")) := by
    rw [IR.Build.appendBlock_eq isFunction, noBlocks]
    rfl
  rw [ensures_bind, ensures_build, isEntered, ensures_bind, ensures_build, modifySymbols,
    ensures_modify]
  exact h id _ ⟨⟨state₁, chosen, rfl⟩, notDefined, opens.ready "body",
    ⟨⟨entry, opens.isEntry, opens.isStorage, sameShape⟩, rfl⟩⟩

theorem ensures_definition {heading : Heading} {body : Lower (Option Ending)}
    {post : Unit → Lowering → Prop} (outer : state.Declares none)
    (h : ∀ id state', Entered state heading id state' → Ensures (fill heading body) post state') :
    Ensures (definition heading body) post state := by
  rw [definition_eq, ensures_bind]
  exact ensures_openDefinition outer h

theorem keeps_prologue {heading : Heading} {state' : Lowering}
    (entered : Entered state heading id state') :
    Ensures (prologue heading) (fun _ => Keeps (some id) state') state' := by
  have declares : state'.Declares (some id) := entered.ready
  have count : (heading.parameters.flatMap fun group =>
      group.names.map fun name => (name, group.position)).length = heading.parameterCount := by
    simp [Heading.parameterCount, Heading.parameterNames, List.length_flatMap]
  have parameters (state₁ : Lowering) (keeps₁ : Keeps (some id) state' state₁) :
      Ensures (declareParameters 0 (heading.parameters.flatMap fun group =>
        group.names.map fun name => (name, group.position)))
        (fun _ => Keeps (some id) state') state₁ := by
    have describes₁ := entered.describes.sameOuter (keeps₁.2 rfl)
    refine (keeps_declareParameters keeps₁.1 describes₁ _ (by omega)).mono ?_
    exact fun _ state₂ keeps₂ => keeps₁.trans keeps₂
  unfold prologue
  split
  · rw [ensures_bind]
    exact (keeps_initialized declares _ _ fun _ _ => has_int 0).mono fun _ => parameters
  · exact parameters state' (.refl declares)

theorem declares_definition {heading : Heading} {body : List Statement} {next : Nat}
    (outer : state.Declares none) (isBody : IsBody next body) :
    Ensures (definition heading (statements body)) (fun _ state' => state'.Declares none) state := by
  obtain ⟨declarations, actions, rfl, areStorage, areActions⟩ := isBody
  refine ensures_definition outer fun id state₁ entered => ?_
  rw [fill, ensures_bind]
  refine (keeps_prologue entered).mono fun _ state₂ keeps₂ => ?_
  rw [ensures_bind]
  refine ensures_statements_append areStorage keeps₂.1 fun state₃ keeps₃ => ?_
  have ready₃ : state₃.Ready ⟨id, 0⟩ [] := keeps₃.1
  have describes₃ := entered.describes.sameOuter ((keeps₂.trans keeps₃).2 rfl)
  refine (runs_statements actions areActions ready₃ (by simp [Lowering.KnowsExit])).mono ?_
  intro ending state₄ goes
  rw [ensures_bind]
  refine (sound_implicitReturn describes₃ goes).mono ?_
  rintro _ state₅ ⟨sound₅, symbols₅⟩
  rw [modifySymbols, ensures_modify]
  exact ⟨rfl, sound₅.leave⟩

/-! ### Forward declarations -/

theorem ensures_forwardDeclaration {heading : Heading} {post : Unit → Lowering → Prop}
    (h : state.symbols.forwards.has heading.name = false →
      state.symbols.globals.has heading.name = false →
      post () (state.addForward heading)) :
    Ensures (forwardDeclaration heading) post state := by
  unfold forwardDeclaration
  simp only [ensures_bind, ensures_get]
  refine ensures_notDeclaredForward fun notForward => ?_
  cases isGlobal : state.symbols.globals.has heading.name with
  | true => simp
  | false =>
      simp only [Bool.false_eq_true, if_false, newFunction, ensures_bind, ensures_build]
      exact ensures_declareForward fun _ => h notForward isGlobal

theorem declares_forward {heading : Heading} (outer : state.Declares none) :
    Ensures (forwardDeclaration heading) (fun _ state' => state'.Declares none) state := by
  refine ensures_forwardDeclaration fun notForward notGlobal => ?_
  have isNone : state.symbols.enclosing = none := outer.1
  obtain ⟨-, sound⟩ := declares_addFunction outer heading.name heading.parameterCount
    heading.returns.isSome false
  have isNew := getElem?_addFunction state.builder heading.name heading.parameterCount
    heading.returns.isSome false
  have entrySound : (⟨heading.shape, .function state.builder.ir.functions.size, none,
      heading.position⟩ : Entry).Sound (IR.Build.addFunction heading.name heading.parameterCount
        heading.returns.isSome false state.builder).2.ir [] := ⟨_, isNew, rfl, rfl⟩
  have notNew (other : String) (found : Entry)
      (isFound : state.symbols.forwards.lookup other = some found) :
      found.storage ≠ .function state.builder.ir.functions.size := by
    intro isStorage
    have foundSound := outer.2.forwards other found isFound
    simp only [Entry.Sound, isStorage] at foundSound
    obtain ⟨function, isFunction, -, -⟩ := foundSound
    exact absurd (Array.getElem?_eq_some_iff.1 isFunction).1 (Nat.lt_irrefl _)
  refine ⟨isNone, sound.functions, sound.support, sound.globals,
    Lowering.lookup_cons_of sound.forwards entrySound, sound.locals, ?_, ?_, ?_⟩
  · intro enclosing isEnclosing
    simp [Lowering.addForward, SymbolTable.addForward, isNone] at isEnclosing
  · intro other found isFound isUndefined
    simp only [Lowering.addForward, SymbolTable.addForward, List.lookup_cons] at isFound
    split at isFound
    · obtain rfl := Option.some.inj isFound
      refine ⟨_, rfl, by
        simp [Lowering.current?, Lowering.addForward, SymbolTable.addForward, isNone], ?_⟩
      intro function isFunction
      obtain rfl := Option.some.inj (isFunction.symm.trans isNew)
      rfl
    · exact sound.undefined other found isFound isUndefined
  · intro first second entry other isEntry isOther same
    simp only [Lowering.addForward, SymbolTable.addForward, List.lookup_cons] at isEntry isOther
    split at isEntry <;> split at isOther
    · simp_all
    · obtain rfl := Option.some.inj isEntry
      exact absurd same.symm (notNew second other isOther)
    · obtain rfl := Option.some.inj isOther
      exact absurd same (notNew first entry isEntry)
    · exact sound.distinct first second entry other isEntry isOther same

/-! ### Programs -/

theorem declares_topLevel {next : Nat} {declaration : Statement} (outer : state.Declares none)
    (isTopLevel : declaration.IsTopLevel next) :
    Ensures (statement declaration) (fun ending state' => ending = none ∧ state'.Declares none)
      state := by
  cases declaration with
  | forward heading =>
      simp only [statement, ensures_bind, ensures_pure, true_and]
      exact declares_forward outer
  | callable heading body =>
      simp only [statement, ensures_bind, ensures_pure, true_and]
      exact declares_definition outer isTopLevel.2
  | vars group =>
      have isStorage : Statement.IsStorage (.vars group) := isTopLevel
      exact (keeps_storage isStorage outer).mono fun _ _ keeps => ⟨keeps.1, keeps.2.1⟩
  | constant name value position =>
      have isStorage : Statement.IsStorage (.constant name value position) := isTopLevel
      exact (keeps_storage isStorage outer).mono fun _ _ keeps => ⟨keeps.1, keeps.2.1⟩
  | _ => exact isTopLevel.elim

theorem ensures_topLevel_append {declarations others : List Statement} {next : Nat}
    {post : Option Ending → Lowering → Prop} (outer : state.Declares none)
    (areTopLevel : Statement.AreTopLevel next declarations)
    (h : ∀ state' : Lowering, state'.Declares none → Ensures (statements others) post state') :
    Ensures (statements (declarations ++ others)) post state := by
  induction declarations generalizing state next with
  | nil => exact h state outer
  | cons first rest ih =>
      rw [List.cons_append, statements, ensures_bind]
      refine (declares_topLevel outer areTopLevel.1).mono ?_
      rintro _ state₁ ⟨rfl, outer₁⟩
      exact ih outer₁ areTopLevel.2

theorem declares_program {program : Program} (grammatical : program.Grammatical)
    (outer : state.Declares none) :
    Ensures (statements program.statements) (fun _ state' => state'.Declares none) state := by
  obtain ⟨header, declarations, position, actions, isProgram, isHeader, areTopLevel, areActions⟩ :=
    grammatical
  have main (state' : Lowering) (outer' : state'.Declares none) :
      Ensures (statements [Parse.mainCallable position actions])
        (fun _ state' => state'.Declares none) state' := by
    have isBody : IsBody (Statement.totalLoops declarations) actions :=
      ⟨[], actions, rfl, by simp, areActions⟩
    simp only [statements, Parse.mainCallable, statement, ensures_bind, ensures_pure]
    exact declares_definition outer' isBody
  have rest := ensures_topLevel_append outer areTopLevel main
  rw [isProgram, List.append_assoc]
  rcases isHeader with rfl | ⟨name, -, rfl⟩
  · exact rest
  · simpa only [List.cons_append, List.nil_append, statements, statement, ensures_bind,
      ensures_pure] using rest

end Lower

namespace Lowering

def builtinEntry (builtin : Builtin) : Entry :=
  ⟨.callable builtin.parameterCount builtin.returnsValue, .builtin builtin, none, .nowhere⟩

def initial (moduleName : String) : Lowering where
  builder :=
    { ir :=
        { name := moduleName
          functions := #[⟨"printf", 1, true, true, #[], 0⟩, ⟨"scanf", 1, true, true, #[], 0⟩]
          globals :=
            #[⟨".str", .bytes "%d\n", true, .internal⟩, ⟨".str.1", .bytes "%d", true, .internal⟩,
              ⟨".str.2", .bytes "%s", true, .internal⟩] }
      insertPoint := none }
  symbols :=
    { SymbolTable.empty with
      globals := Builtin.all.reverse.map fun builtin => (builtin.name, builtinEntry builtin) }
  exits := []
  support := ⟨0, 1, .global 0, .global 1, .global 2⟩

theorem start_eq (moduleName : String) : start (Builder.new moduleName) = .ok (initial moduleName) :=
  rfl

theorem builtin_of_lookup {builtins : List Builtin} {name : String} {entry : Entry}
    (isEntry : (builtins.map fun builtin => (builtin.name, builtinEntry builtin)).lookup name =
      some entry) : ∃ builtin ∈ builtins, builtin.name = name ∧ entry = builtinEntry builtin := by
  induction builtins with
  | nil => simp at isEntry
  | cons first others ih =>
      rw [List.map_cons, List.lookup_cons] at isEntry
      split at isEntry
      · rename_i same
        obtain rfl := Option.some.inj isEntry
        exact ⟨first, by simp, (beq_iff_eq.1 same).symm, rfl⟩
      · obtain ⟨builtin, isIn, found⟩ := ih isEntry
        exact ⟨builtin, List.mem_cons_of_mem _ isIn, found⟩

theorem declares_initial (moduleName : String) : (initial moduleName).Declares none := by
  refine ⟨rfl, ?_, ⟨⟨_, rfl, rfl, rfl, rfl⟩, ⟨_, rfl, rfl, rfl, rfl⟩, ?_, ?_, ?_⟩, ?_,
    by simp [initial, SymbolTable.empty], by simp [initial, SymbolTable.empty],
    by simp [initial, SymbolTable.empty], by simp [initial, SymbolTable.empty],
    by simp [initial, SymbolTable.empty]⟩
  · intro id function isFunction
    obtain ⟨bound, rfl⟩ := Array.getElem?_eq_some_iff.1 isFunction
    match id, bound with
    | 0, _ | 1, _ => exact Lower.growing_declaration _ _ _ _ _ _
  · simp [initial, Operand.IsAddress]
  · simp [initial, Operand.IsAddress]
  · simp [initial, Operand.IsAddress]
  · intro name entry isEntry
    obtain ⟨builtin, -, -, rfl⟩ := builtin_of_lookup isEntry
    rfl

end Lowering

theorem Lower.finish_eq_ok {state state' : Lowering} (finished : Lower.finish state = .ok () state') :
    state = state' ∧ state.symbols.undefinedForwards = [] := by
  simp only [Lower.finish, bind_eq_ok, get_eq_ok] at finished
  obtain ⟨_, _, ⟨rfl, rfl⟩, finished⟩ := finished
  cases undefined : state.symbols.undefinedForwards with
  | nil =>
      simp only [undefined] at finished
      exact ⟨(pure_eq_ok.1 finished).2, rfl⟩
  | cons first others => simp [undefined] at finished

theorem Lower.finish_of_nil {state : Lowering} (isNil : state.symbols.undefinedForwards = []) :
    Lower.finish state = .ok () state := by
  rw [finish, get_bind, isNil]
  rfl

def Lower.module : EStateM.Result SemanticError Lowering Unit → Except SemanticError IR.Module
  | .ok _ state => .ok state.builder.ir
  | .error error _ => .error error

theorem Program.lower_eq (program : Program) (moduleName : String) :
    program.lower moduleName = Lower.module ((Lower.statements program.statements >>= fun _ =>
      Lower.finish) (Lowering.initial moduleName)) := by
  unfold Program.lower
  rw [Lowering.start_eq]
  rfl

theorem Program.lower_eq_ok {program : Program} {moduleName : String} {ir : IR.Module}
    (lowered : program.lower moduleName = .ok ir) :
    ∃ ending state, Lower.statements program.statements (Lowering.initial moduleName) =
      .ok ending state ∧ Lower.finish state = .ok () state ∧ state.builder.ir = ir := by
  rw [lower_eq] at lowered
  cases isResult : (Lower.statements program.statements >>= fun _ => Lower.finish)
    (Lowering.initial moduleName) with
  | error error state => rw [isResult] at lowered; cases lowered
  | ok _ state =>
      rw [isResult] at lowered
      obtain rfl := Except.ok.inj lowered
      obtain ⟨ending, before, translated, finished⟩ := bind_eq_ok.1 isResult
      obtain ⟨rfl, -⟩ := Lower.finish_eq_ok finished
      exact ⟨ending, _, translated, finished, rfl⟩

/-- Every module that is compiled comes from a tree that the grammar derives. -/
theorem compile_eq_ok {source moduleName : String} {ir : IR.Module}
    (compiled : compile source moduleName = .ok ir) :
    ∃ program, Program.parse source = .ok program ∧ program.lower moduleName = .ok ir := by
  unfold compile at compiled
  cases parsed : Program.parse source with
  | error error => simp [parsed] at compiled
  | ok program =>
      simp only [parsed] at compiled
      cases lowered : program.lower moduleName with
      | error error => simp [lowered] at compiled
      | ok module =>
          obtain rfl : module = ir := by simpa [lowered] using compiled
          exact ⟨program, rfl, lowered⟩

theorem exists_of_isOk {ε α : Type} {result : Except ε α} (isOk : result.isOk = true) :
    ∃ a, result = .ok a := by
  cases result with
  | error error => cases isOk
  | ok a => exact ⟨a, rfl⟩

/-- Every module that is compiled is well-formed. -/
theorem compile_wellFormed {source moduleName : String} {ir : IR.Module}
    (compiled : compile source moduleName = .ok ir) : ir.WellFormed := by
  obtain ⟨program, parsed, lowered⟩ := compile_eq_ok compiled
  obtain ⟨ending, state, translated, -, rfl⟩ := Program.lower_eq_ok lowered
  obtain ⟨isNone, sound⟩ := Lower.declares_program (Program.grammatical_of_parse parsed)
    (Lowering.declares_initial moduleName) ending state translated
  intro id function isFunction _
  have growing := sound.functions id function isFunction
  simp only [Lowering.current?, isNone, Option.map_none, reduceCtorEq, if_false] at growing
  exact growing.wellFormed

/-- The theorem at a program with a call, a loop and a way out of it. -/
theorem compile_wellFormed_break :
    ∃ ir, compile "function f(n: integer): integer; begin while n > 0 do begin if n = 3 then break;
      dec(n) end; f := n end; begin writeln(f(7)) end." "example" = .ok ir ∧ ir.WellFormed := by
  have isOk : (compile "function f(n: integer): integer; begin while n > 0 do begin if n = 3 then break;
      dec(n) end; f := n end; begin writeln(f(7)) end." "example").isOk = true := by decide +kernel
  obtain ⟨ir, compiled⟩ := exists_of_isOk isOk
  exact ⟨ir, compiled, compile_wellFormed compiled⟩

end MiniPascal
