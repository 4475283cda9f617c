import MiniPascal.Proofs.Simulation.Bodies

/-!
# Definitions

The body of a callable is translated when only some of the names outside are known.  What it does is
said for any plan with which the translation of the program may end.
-/

namespace MiniPascal

open Evaluation (Eval Memory Place Names Scope Meaning)
open IR (BlockId Operand Instruction)
open Lower (Entered Fills Defines)
open Lowering (Ready)
open Machine (Limits)

structure Plan.Completes (plan : Plan) (outer : Names) (state : Lowering) (stock : Stock) :
    Prop where
  fair : plan.Fair
  covers : plan.Covers state.builder.ir stock
  functions : ∀ (id : IR.FunctionId) (function : IR.Function),
    state.builder.ir.functions[id]? = some function → function.isDeclaration = false →
      plan.ir.functions[id]? = some function
  knows : plan.Knows outer state.symbols
  support : state.support.Fair plan.ir
  bodies : ∀ id heading body, plan.code id heading body →
    ∃ function, plan.ir.functions[id]? = some function ∧ function.isDeclaration = false

/-! ### Contexts of bodies -/

theorem mem_of_lookup {names : Names} {name : String} {meaning : Meaning}
    (isMeaning : names.lookup name = some meaning) : (name, meaning) ∈ names := by
  obtain ⟨before, after, rfl, -⟩ := List.lookup_eq_some_iff.1 isMeaning
  simp

theorem resultName_injective {first second : String} (same : resultName first = resultName second) :
    first = second := by
  simpa [resultName] using same

theorem lookup_result {added outer : Names} {heading : Heading}
    (returns : heading.returns.isSome = true)
    (notAdded : resultName heading.name ∉ added.map (·.1))
    (notParameter : resultName heading.name ∉ heading.parameterNames) :
    ((added ++ heading.entryNames) ++ outer).lookup (resultName heading.name) =
      some (.scalar .result) := by
  have notIn : added.lookup (resultName heading.name) = none := by
    rw [List.lookup_eq_none_iff]
    intro found isIn
    have different : resultName heading.name ≠ found.1 := fun same =>
      notAdded (same ▸ List.mem_map_of_mem isIn)
    simp [different]
  have notArgument : (heading.parameterNames.map fun name =>
      (name, Meaning.scalar (.local name))).reverse.lookup (resultName heading.name) = none := by
    rw [List.lookup_eq_none_iff]
    intro found isIn
    obtain ⟨name, isName, rfl⟩ := List.mem_map.1 (List.mem_reverse.1 isIn)
    have different : resultName heading.name ≠ name := fun same => notParameter (same ▸ isName)
    simp [different]
  simp [List.lookup_append, notIn, Heading.entryNames, returns, notArgument]

/-- What is asked of the names that a body declares and of those outside. -/
structure KeepsResults (heading : Heading) (symbols : SymbolTable) (added : Names) : Prop where
  outer : ∀ callable, symbols.getOuter? (resultName callable) = none
  locals : ∀ name, symbols.locals.has name = true →
    name ∈ (added ++ heading.entryNames).map (·.1)
  declared : ∀ callable, resultName callable ∉ added.map (·.1)
  parameters : ∀ callable, resultName callable ∉ heading.parameterNames
  notBuiltin : ∀ name builtin, (name, Meaning.builtin builtin) ∉ added ++ heading.entryNames

theorem KeepsResults.own {heading : Heading} {symbols : SymbolTable} {added : Names}
    (clean : KeepsResults heading symbols added) (isInside : symbols.enclosing.isSome = true)
    {callable : String} {entry : Entry} (isEntry : symbols.get? (resultName callable) = some entry) :
    symbols.locals.lookup (resultName callable) = some entry ∧ heading.returns.isSome = true ∧
      heading.name = callable := by
  simp only [SymbolTable.get?, isInside, if_true, clean.outer, Option.or_none] at isEntry
  refine ⟨isEntry, ?_⟩
  have isLocal := clean.locals _ (Table.has_of_lookup isEntry)
  rw [List.map_append, List.mem_append] at isLocal
  rcases isLocal with isAdded | isInitial
  · exact absurd isAdded (clean.declared callable)
  · unfold Heading.entryNames at isInitial
    rw [List.map_append, List.mem_append] at isInitial
    rcases isInitial with isParameter | isResult
    · have isParameter : resultName callable ∈ heading.parameterNames := by
        simpa using isParameter
      exact absurd isParameter (clean.parameters callable)
    · cases returns : heading.returns.isSome with
      | false => simp [returns] at isResult
      | true =>
          simp only [returns, if_true, List.map_singleton, List.mem_singleton] at isResult
          exact ⟨rfl, (resultName_injective isResult).symm⟩

theorem Plan.Within.fair {plan : Plan} {slots : List Place} {symbols : SymbolTable}
    {support : Support} {outer added : Names} {heading : Heading} {id : IR.FunctionId}
    (within : plan.Within slots symbols outer (added ++ heading.entryNames)) (fair : plan.Fair)
    (isSupport : support.Fair plan.ir) (nodup : slots.Nodup)
    (clean : KeepsResults heading symbols added)
    (isEnclosing : symbols.enclosing = some ⟨id, heading.name⟩) {entry : Entry}
    (isEntry : symbols.getOuter? heading.name = some entry)
    (isStorage : entry.storage = .function id) (isShape : entry.shape = heading.shape)
    (bodies : ∀ id heading body, plan.code id heading body →
      ∃ function, plan.ir.functions[id]? = some function ∧ function.isDeclaration = false) :
    Context.Fair
      ⟨plan, symbols, support, ⟨(added ++ heading.entryNames) ++ outer, some heading⟩, slots⟩ where
  plan := fair
  support := isSupport
  nodup := nodup
  names name entry isEntry := within.find isEntry
  results callable found isFound := by
    obtain ⟨-, returns, rfl⟩ := clean.own within.isInside isFound
    refine ⟨lookup_result returns (clean.declared _) (clean.parameters _), ⟨heading, rfl, rfl, returns⟩,
      fun builtin isBuiltin => ?_⟩
    simp only [Scope.find?] at isBuiltin
    rw [List.lookup_append] at isBuiltin
    cases inner : (added ++ heading.entryNames).lookup heading.name with
    | some meaning =>
        rw [inner, Option.some_or, Option.some.injEq] at isBuiltin
        exact clean.notBuiltin heading.name builtin (isBuiltin ▸ mem_of_lookup inner)
    | none =>
        obtain ⟨meaning, isMeaning, means⟩ := within.outer heading.name entry isEntry
        rw [inner, Option.none_or, isMeaning, Option.some.injEq] at isBuiltin
        subst isBuiltin
        obtain ⟨-, -, -, isBuiltinStorage⟩ := means
        rw [isStorage] at isBuiltinStorage
        cases isBuiltinStorage
  enclosing := ⟨id, heading, entry, isEnclosing, rfl, isEntry, isShape⟩
  bodies := bodies

/-! ### Entering a body -/

variable {state : Lowering} {stock : Stock} {id : IR.FunctionId} {heading : Heading}

theorem opening_entered {outer : Lowering} (entered : Entered outer heading id state) :
    state.Opening id 0 [] := by
  have notDefined := entered.notDefined
  obtain ⟨chosen, isChosen, rfl⟩ := entered.opened
  obtain ⟨function, isFunction, -, -, isDeclaration⟩ := isChosen.function
  have noBlocks : function.blocks = #[] := by
    simpa [IR.Function.isDeclaration] using isDeclaration notDefined
  have growing := isChosen.outer.2.functions id function isFunction
  have noRegisters : function.registers = 0 := by
    have perm := growing.registers
    simp only [IR.Function.definedRegisters, noBlocks] at perm
    have length := perm.length_eq
    simpa using length.symm
  refine ⟨⟨[], rfl, ?_⟩, ?_⟩
  · change ((chosen.builder.modifyFunction id (·.addBlock "body")).ir.code ⟨id, 0⟩) = _
    rw [IR.Builder.code_addBlock]
    simp [IR.Module.code, IR.Module.block?, isFunction, noBlocks, room, fillings]
  · change (chosen.builder.modifyFunction id (·.addBlock "body")).ir.registers id = 0
    rw [IR.Builder.registers_addBlock, IR.Module.registers_of_function isFunction, noRegisters]

theorem fits_entered {outer : Lowering} (isOuter : outer.Declares none)
    (entered : Entered outer heading id state) (fits : stock.Fits outer) (noSlots : stock.slots = []) :
    stock.Fits state := by
  have symbols := entered.symbols isOuter
  have globals (name : String) (has : outer.symbols.globals.has name = true) :
      state.symbols.globals.has name = true := by
    rw [symbols, Table.has_cons]
    exact .inr has
  refine ⟨fits.injective, fun id home isHome => ?_, fun id home isHome => ?_, fits.nodup,
    by simp [noSlots], fun enclosing isEnclosing => ?_⟩
  · obtain ⟨global, isGlobal, known⟩ := fits.global id home isHome
    exact ⟨global, IR.getElem?_of_prefix entered.around.globals isGlobal, known⟩
  · have taken := fits.taken id home isHome
    match home with
    | .scalar name | .array ⟨none, name⟩ => exact globals name taken
    | .array ⟨some callable, name⟩ =>
        refine ⟨globals callable taken.1, fun enclosing isEnclosing same => ?_⟩
        rw [symbols, Option.some.injEq] at isEnclosing
        subst isEnclosing
        obtain rfl : heading.name = callable := same
        have notDefined := entered.notDefined
        rw [taken.1] at notDefined
        cases notDefined
  · rw [symbols, Option.some.injEq] at isEnclosing
    subst isEnclosing
    rw [symbols, Table.has_cons]
    exact .inl rfl

/-! ### Bodies -/

/-- The declarations of a body leave the names of results alone. -/
theorem keepsResults_of_records {state₃ : Lowering} {stock₃ : Stock} {added : Names}
    {declarations actions : List Statement} (noNames : state.symbols.current = [])
    (isHere : state.symbols.enclosing.isSome = true) (same : state.SameOuter state₃)
    (records : Records state stock (added ++ heading.entryNames) state₃ stock₃)
    (addedNames : ∀ name ∈ added.map (·.1), ∃ declaration ∈ declarations,
      name ∈ declaration.storageNames)
    (clean : ∀ name ∈ (Statement.callable heading (declarations ++ actions)).declaredNames,
      ∀ callable, name ≠ resultName callable)
    (cleanOuter : ∀ callable, state.symbols.getOuter? (resultName callable) = none) :
    KeepsResults heading state₃.symbols added := by
  refine ⟨fun callable => by rw [same.getOuter?, cleanOuter], fun name isLocal => ?_,
    fun callable isIn => ?_, fun callable isIn => ?_, records.notBuiltin⟩
  · refine (records.has name ?_).resolve_right (by simp [noNames, Table.has])
    simpa [SymbolTable.current, same.enclosing, isHere] using isLocal
  · obtain ⟨declaration, isDeclaration, isName⟩ := addedNames _ isIn
    refine clean _ ?_ callable rfl
    simp only [Statement.declaredNames, List.mem_append, List.mem_flatMap]
    exact .inr ⟨declaration, .inl isDeclaration, isName⟩
  · refine clean _ ?_ callable rfl
    simp [Statement.declaredNames, isIn]

theorem getOuter?_entered {outer : Lowering} (isOuter : outer.Declares none)
    (entered : Entered outer heading id state) {callable : String}
    (isNone : outer.symbols.getOuter? (resultName callable) = none)
    (different : heading.name ≠ resultName callable) :
    state.symbols.getOuter? (resultName callable) = none := by
  simpa [SymbolTable.getOuter?, entered.symbols isOuter, List.lookup_cons,
    beq_false_of_ne different.symm] using isNone

structure Filled (state : Lowering) (stock : Stock) (id : IR.FunctionId) (heading : Heading)
    (body : List Statement) (state₃ : Lowering) (stock₃ : Stock) (last : Lowering) : Prop where
  owner : ∀ id home, stock.owner id = some home → stock₃.owner id = some home
  fits : stock₃.Fits state₃
  outer : state.SameOuter state₃
  globals : state₃.builder.ir.globals.toList <+: last.builder.ir.globals.toList
  performs : ∀ (plan : Plan) (outer : Names), plan.Fair → plan.Covers state₃.builder.ir stock₃ →
    plan.Knows outer state.symbols → state.support.Fair plan.ir →
      (∀ id heading body, plan.code id heading body →
        ∃ function, plan.ir.functions[id]? = some function ∧ function.isDeclaration = false) →
        last.builder.ir.Part id plan.ir → ∀ (limits : Limits) (fuel : Nat),
          plan.Calls limits fuel (Evaluation.invoke outer fuel) →
            plan.Performs limits (fuel + 1) (Evaluation.invoke outer (fuel + 1)) id heading body

theorem filled_fill {outer : Lowering} {body : List Statement} {next : Nat}
    (isOuter : outer.Declares none) (noLocals : outer.symbols.locals = [])
    (entered : Entered outer heading id state) (fits : stock.Fits outer) (noSlots : stock.slots = [])
    (isBody : IsBody next body)
    (clean : ∀ name ∈ (Statement.callable heading body).declaredNames, ∀ callable,
      name ≠ resultName callable)
    (cleanOuter : ∀ callable, state.symbols.getOuter? (resultName callable) = none) :
    Ensures (Lower.fill heading (Lower.statements body)) (fun _ last => ∃ state₃ stock₃,
      Filled state stock id heading body state₃ stock₃ last) state := by
  obtain ⟨declarations, actions, rfl, areStorage, areActions⟩ := isBody
  have symbols := entered.symbols isOuter
  have noNames : state.symbols.current = [] := by simp [SymbolTable.current, symbols, noLocals]
  have keeps : stock.Keeps (some id) [] state :=
    ⟨entered.ready, fits_entered isOuter entered fits noSlots,
      by rintro _ ⟨⟩; simpa [noSlots] using opening_entered entered, by simp⟩
  rw [Lower.fill, ensures_bind]
  refine ((records_prologue entered keeps noSlots).and (Lower.keeps_prologue entered)).mono ?_
  rintro _ state₂ ⟨⟨records₂, keeps₂⟩, kept₂⟩
  rw [ensures_bind]
  refine records_append areStorage keeps₂ ?_
  intro state₃ stock₃ added kept₃ records₃ keeps₃ addedNames declared
  have kept := kept₂.trans kept₃
  have records := records₂.trans records₃
  have ready₃ : state₃.Ready ⟨id, 0⟩ [] := keeps₃.declares
  have same₂ := kept₂.outer rfl
  have same := kept.outer rfl
  have performed : Ensures (do
      let _ ← Lower.statements actions
      Lower.implicitReturn heading) (fun _ last => ∃ state₃ stock₃,
        Filled state stock id heading (declarations ++ actions) state₃ stock₃ last) state₃ := by
    intro result last ok
    have part := part_body ready₃ areActions result last ok _ (.refl id last.builder.ir)
    refine ⟨state₃, stock₃, records.grows.owner, keeps₃.fits, same, part.globals, ?_⟩
    intro plan names planFair covers knows support bodies wholePart limits fuel calls
    have isHere : state.symbols.enclosing = some ⟨id, heading.name⟩ := entered.describes.enclosing
    -- at the entry of a call the scope has the parameters and the result alone
    have within₂ : plan.Within heading.slots state₂.symbols names heading.entryNames := by
      have isInside : state₂.symbols.enclosing.isSome := by simp [same₂.enclosing, isHere]
      refine ⟨fun name entry isEntry => knows name entry ?_, ?_, isInside⟩
      · rw [← isEntry, same₂.getOuter?]
      · have agrees := records₂.agrees plan (covers.before records₃) []
        rw [noNames] at agrees
        simp only [SymbolTable.current, isInside, if_true, List.append_nil] at agrees
        exact agrees (plan.agrees_nil _)
    obtain ⟨isScope, within₃⟩ := declared plan heading names heading.entryNames covers
      (by rw [same₂.enclosing, isHere]; rfl) within₂
    rw [← Scope.atEntry_eq] at isScope
    obtain ⟨⟨entry, isEntry, isStorage, isShape⟩, isEnclosing⟩ := entered.describes.sameOuter same
    have keepsResults := keepsResults_of_records noNames (by simp [isHere]) same records addedNames
      clean cleanOuter
    have fair := within₃.fair planFair support keeps₃.fits.nodup keepsResults isEnclosing isEntry
      isStorage isShape bodies
    obtain ⟨more, isSlots⟩ := records₃.grows.slots
    have parameters : heading.parameterNames.Nodup := by
      have nodup := keeps₂.fits.nodup
      exact ((List.nodup_append.1 nodup).2.1).of_map _
    exact performs_body fair ready₃ rfl kept.support rfl areStorage areActions isScope
      (keeps₃.opening id rfl) isSlots.symm parameters result last ok wholePart limits fuel calls
  rw [ensures_bind] at performed
  refine performed.mono fun _ state₄ filled => ?_
  rw [ensures_bind]
  refine filled.mono fun _ state₅ filled => ?_
  rw [Lower.modifySymbols, ensures_modify]
  obtain ⟨state₃, stock₃, filled⟩ := filled
  exact ⟨state₃, stock₃, filled.owner, filled.fits, filled.outer, filled.globals, filled.performs⟩

end MiniPascal
