import MiniPascal.Proofs.Simulation.Steps
import MiniPascal.Proofs.Simulation.Storage

/-!
# Starts of bodies

A body starts with room for its result, its parameters and its variables, and stores a zero and the
arguments there.  Behind that the stack is as the evaluation of a call assumes it.
-/

namespace MiniPascal

open Evaluation (Memory Place Names Scope Meaning)
open IR (BlockId Operand Instruction)
open Lowering (Ready)
open Machine (Config Frame Limits State Word)

/-! ### Translation -/

section

variable {state : Lowering} {stock : Stock} {id : IR.FunctionId}
  {stores : List (Operand × IR.Register)}

theorem Lowering.Opening.emits {slots : Nat} {value : Operand} {slot : IR.Register}
    {state' : Lowering} (opening : state.Opening id slots stores)
    (emits : state.Emits ⟨id, 0⟩ (.store value (.register slot)) 0 state') :
    state'.Opening id slots (stores ++ [(value, slot)]) := by
  obtain ⟨names, count, isCode⟩ := opening.code
  refine ⟨⟨names, count, ?_⟩, emits.registers.trans opening.registers⟩
  rw [emits.code, isCode, fillings, fillings, List.map_append, List.append_assoc]
  rfl

theorem Stock.Fits.straight {state' : Lowering} (fits : stock.Fits state)
    (straight : state.Straight state')
    (globals : state.builder.ir.globals.toList <+: state'.builder.ir.globals.toList) :
    stock.Fits state' where
  injective := fits.injective
  global id home isHome := by
    obtain ⟨global, isGlobal, known⟩ := fits.global id home isHome
    exact ⟨global, IR.getElem?_of_prefix globals isGlobal, known⟩
  taken := by
    rw [straight.symbols]
    exact fits.taken
  nodup := fits.nodup
  slot := by
    rw [straight.symbols]
    exact fits.slot
  enclosing := by
    rw [straight.symbols]
    exact fits.enclosing

theorem Records.straight {state' state'' : Lowering} {stock' : Stock} {added : Names}
    (records : Records state stock added state' stock') (straight : state'.Straight state'')
    (globals : state'.builder.ir.globals.toList <+: state''.builder.ir.globals.toList) :
    Records state stock added state'' stock' where
  grows := records.grows
  globals := records.globals.trans globals
  fits := records.fits.straight straight globals
  enclosing := by rw [straight.symbols, records.enclosing]
  has := by
    rw [straight.symbols]
    exact records.has
  notBuiltin := records.notBuiltin
  result := records.result
  agrees plan covers names agrees := by
    rw [straight.symbols]
    exact records.agrees plan ⟨globals.trans covers.globals, covers.owner⟩ names agrees

theorem records_initialized (keeps : stock.Keeps (some id) stores state) (position : Position)
    (name : String) {place : Place} (isPlace : place = .local name ∨ place = .result)
    (isNew : state.symbols.current.has name = false → place ∉ stock.slots) {value : Operand}
    (has : ∀ state', Lower.Keeps (some id) state state' → state'.Has ⟨id, 0⟩ value) :
    Ensures (do
      Lower.declareVariable .integer position name
      let pointer ← Lower.address name position
      Lower.build (IR.Build.store value pointer)) (fun _ state' =>
        Records state stock [(name, .scalar place)] state'
            { stock with slots := stock.slots ++ [place] } ∧
          Stock.Keeps { stock with slots := stock.slots ++ [place] } (some id)
            (stores ++ [(value, stock.slots.length)]) state') state := by
  have kept := Lower.keeps_initialized keeps.declares name position has
  suffices recorded : Ensures (do
      Lower.declareVariable .integer position name
      let pointer ← Lower.address name position
      Lower.build (IR.Build.store value pointer)) (fun _ state' =>
        Records state stock [(name, .scalar place)] state'
            { stock with slots := stock.slots ++ [place] } ∧
          state'.Opening id (stock.slots.length + 1)
            (stores ++ [(value, stock.slots.length)])) state by
    refine (kept.and recorded).mono ?_
    rintro _ state' ⟨kept', records, opening⟩
    exact ⟨records, kept'.declares, records.fits, by rintro _ ⟨⟩; simpa using opening, by simp⟩
  rw [ensures_bind]
  refine ((records_declareSlot keeps position name isPlace isNew).and
    (Lower.keeps_declareVariable keeps.declares .integer position name)).mono ?_
  rintro _ state₁ ⟨⟨records₁, opening₁, symbols₁⟩, kept₁⟩
  have ready₁ : state₁.Ready ⟨id, 0⟩ [] := kept₁.declares
  rw [ensures_bind]
  refine Lower.ensures_address fun entry pointer isEntry isStorage => ?_
  have isPointer : pointer = .register stock.slots.length := by
    obtain ⟨name', isEnclosing⟩ := Ready.enclosing keeps.declares
    rw [symbols₁] at isEntry
    simp only [SymbolTable.get?, SymbolTable.add, isEnclosing, Option.isSome_some, if_true,
      List.lookup_cons_self, Option.some_or, Option.some.injEq] at isEntry
    subst isEntry
    exact (Storage.address.inj isStorage).symm
  subst isPointer
  refine ((ready₁.emits _).and
    (Lower.isStraight_build (IR.Build.isStraight_emit _) state₁)).mono ?_
  rintro _ state₂ ⟨emits, straight⟩
  exact ⟨records₁.straight straight (straight.grows _ ready₁.insertPoint).globals,
    opening₁.emits emits⟩

def argumentStores : Nat → IR.Register → List String → List (Operand × IR.Register)
  | _, _, [] => []
  | first, slot, _ :: names => (.argument first, slot) :: argumentStores (first + 1) (slot + 1) names

theorem records_parameters {name : String} {count first : Nat} {returnsValue : Bool}
    (keeps : stock.Keeps (some id) stores state)
    (describes : state.Describes id name count returnsValue)
    (parameters : List (String × Position)) (enough : first + parameters.length ≤ count) :
    Ensures (Lower.declareParameters first parameters) (fun _ state' =>
      Records state stock (parameters.map fun (name, _) => (name, .scalar (.local name))).reverse
          state' { stock with slots := stock.slots ++ parameters.map fun (name, _) => .local name } ∧
        Stock.Keeps { stock with slots := stock.slots ++ parameters.map fun (name, _) => .local name }
          (some id) (stores ++ argumentStores first stock.slots.length (parameters.map (·.1)))
          state') state := by
  induction parameters generalizing state stock stores first with
  | nil =>
      refine ensures_pure.2 ?_
      simp only [List.map_nil, List.append_nil, List.reverse_nil, argumentStores]
      exact ⟨.refl keeps.fits, keeps⟩
  | cons parameter others ih =>
      obtain ⟨parameter, position⟩ := parameter
      rw [List.length_cons] at enough
      have has (state' : Lowering) (kept : Lower.Keeps (some id) state state') :
          state'.Has ⟨id, 0⟩ (.argument first) := by
        intro function block isFunction isBlock
        obtain ⟨same, isSame, isCount, -⟩ :=
          (describes.sameOuter (kept.outer rfl)).function (Ready.sound kept.declares)
        obtain rfl := Option.some.inj (isFunction.symm.trans isSame)
        simp only [Operand.Fits, isCount]
        omega
      have isNew (notTaken : state.symbols.current.has parameter = false) :
          Place.local parameter ∉ stock.slots := by
        intro isIn
        obtain ⟨name', isEnclosing⟩ := Ready.enclosing keeps.declares
        have has := keeps.fits.slot parameter isIn
        simp [SymbolTable.current, isEnclosing, has] at notTaken
      have parts : Lower.declareParameters first ((parameter, position) :: others) = (do
          Lower.declareVariable .integer position parameter
          let pointer ← Lower.address parameter position
          Lower.build (IR.Build.store (.argument first) pointer)) >>= fun _ =>
            Lower.declareParameters (first + 1) others := by
        simp only [Lower.declareParameters, bind_assoc]
      rw [parts, ensures_bind]
      refine ((records_initialized keeps position parameter (.inl rfl) isNew has).and
        (Lower.keeps_initialized keeps.declares parameter position has)).mono ?_
      rintro _ state₁ ⟨⟨records₁, keeps₁⟩, kept₁⟩
      refine (ih keeps₁ (describes.sameOuter (kept₁.outer rfl)) (by omega)).mono ?_
      rintro _ state₂ ⟨records₂, keeps₂⟩
      have records := records₁.trans records₂
      simp only [List.append_assoc, List.singleton_append, List.length_append,
        List.length_singleton] at records keeps₂
      exact ⟨by simpa using records, by simpa [argumentStores] using keeps₂⟩

/-! ### Prologues -/

def Heading.slots (heading : Heading) : List Place :=
  (if heading.returns.isSome then [.result] else []) ++ heading.parameterNames.map .local

def Heading.initialStores (heading : Heading) : List (Operand × IR.Register) :=
  if heading.returns.isSome then (.int 0, 0) :: argumentStores 0 1 heading.parameterNames
  else argumentStores 0 0 heading.parameterNames

def Heading.entryNames (heading : Heading) : Names :=
  (heading.parameterNames.map fun name => (name, .scalar (.local name))).reverse ++
    if heading.returns.isSome then [(resultName heading.name, .scalar .result)] else []

theorem Evaluation.Scope.atEntry_eq (globals : Names) (heading : Heading) :
    Scope.atEntry globals heading = ⟨heading.entryNames ++ globals, some heading⟩ := by
  unfold Scope.atEntry
  refine (foldl_add (fun _ name => .scalar (.local name)) (fun _ _ _ => rfl) _ _).trans ?_
  unfold Heading.entryNames
  cases heading.returns.isSome <;> simp [Scope.add]

theorem records_prologue {outer : Lowering} {heading : Heading}
    (entered : Lower.Entered outer heading id state) (keeps : stock.Keeps (some id) [] state)
    (noSlots : stock.slots = []) :
    Ensures (Lower.prologue heading) (fun _ state' =>
      Records state stock heading.entryNames state' { stock with slots := heading.slots } ∧
        Stock.Keeps { stock with slots := heading.slots } (some id) heading.initialStores state') state := by
  have sameNames : (heading.parameters.flatMap fun group =>
      group.names.map fun name => (name, group.position)).map (·.1) = heading.parameterNames := by
    simp [Heading.parameterNames, List.map_flatMap, Function.comp_def]
  have count : (heading.parameters.flatMap fun group =>
      group.names.map fun name => (name, group.position)).length = heading.parameterCount := by
    rw [Heading.parameterCount, ← sameNames, List.length_map]
  have places : (heading.parameters.flatMap fun group =>
      group.names.map fun name => (name, group.position)).map (fun (name, _) => Place.local name) =
        heading.parameterNames.map .local := by
    rw [← sameNames, List.map_map]
    rfl
  have meanings : (heading.parameters.flatMap fun group =>
      group.names.map fun name => (name, group.position)).map
        (fun (name, _) => (name, Meaning.scalar (.local name))) =
        heading.parameterNames.map fun name => (name, .scalar (.local name)) := by
    rw [← sameNames, List.map_map]
    rfl
  unfold Lower.prologue
  cases returns : heading.returns.isSome with
  | false =>
      simp only [Bool.false_eq_true, if_false]
      refine (records_parameters keeps entered.describes _ (by omega)).mono ?_
      rintro _ state' ⟨records', keeps'⟩
      simp only [noSlots, places, meanings, sameNames, List.nil_append, List.length_nil] at records' keeps'
      simpa [Heading.slots, Heading.initialStores, Heading.entryNames, returns] using ⟨records', keeps'⟩
  | true =>
      simp only [if_true]
      rw [ensures_bind]
      have has (state' : Lowering) (_ : Lower.Keeps (some id) state state') :
          state'.Has ⟨id, 0⟩ (.int 0) := Lower.has_int 0
      refine ((records_initialized keeps heading.position (resultName heading.name) (.inr rfl)
        (by simp [noSlots]) has).and (Lower.keeps_initialized keeps.declares
          (resultName heading.name) heading.position has)).mono ?_
      rintro _ state₁ ⟨⟨records₁, keeps₁⟩, kept₁⟩
      refine (records_parameters keeps₁ (entered.describes.sameOuter (kept₁.outer rfl)) _
        (by omega)).mono ?_
      rintro _ state₂ ⟨records₂, keeps₂⟩
      have records := records₁.trans records₂
      simp only [noSlots, places, meanings, sameNames, List.nil_append, List.length_nil,
        List.length_singleton] at records keeps₂
      simpa [Heading.slots, Heading.initialStores, Heading.entryNames, returns] using ⟨records, keeps₂⟩

/-! ### Declarations of a body -/

def Plan.Knows (plan : Plan) (outer : Names) (symbols : SymbolTable) : Prop :=
  ∀ name entry, symbols.getOuter? name = some entry →
    ∃ meaning, outer.lookup name = some meaning ∧ plan.Means [] name entry meaning

structure Plan.Within (plan : Plan) (slots : List Place) (symbols : SymbolTable)
    (outer inner : Names) : Prop where
  outer : plan.Knows outer symbols
  locals : plan.Agrees slots symbols.locals inner
  isInside : symbols.enclosing.isSome

theorem Plan.Within.find {plan : Plan} {slots : List Place} {symbols : SymbolTable}
    {outer inner : Names} (within : plan.Within slots symbols outer inner) {name : String}
    {entry : Entry} (isEntry : symbols.get? name = some entry) :
    ∃ meaning, (inner ++ outer).lookup name = some meaning ∧
      plan.Means slots name entry meaning := by
  simp only [SymbolTable.get?, within.isInside, if_true] at isEntry
  rw [List.lookup_append]
  cases isLocal : symbols.locals.lookup name with
  | some found =>
      obtain ⟨meaning, isMeaning, means⟩ := within.locals.exists_meaning isLocal
      obtain rfl : found = entry := by simpa [isLocal] using isEntry
      exact ⟨meaning, by rw [isMeaning, Option.some_or], means⟩
  | none =>
      rw [isLocal, Option.none_or] at isEntry
      obtain ⟨meaning, isMeaning, means⟩ := within.outer name entry isEntry
      rw [within.locals.eq_none isLocal, Option.none_or]
      exact ⟨meaning, isMeaning, means.mono List.nil_prefix⟩

theorem Plan.Means.constant {plan : Plan} {slots : List Place} {name : String} {entry : Entry}
    {meaning : Meaning} {value : Int32} (means : plan.Means slots name entry meaning)
    (isConstant : entry.constant = some value) : meaning = .constant value := by
  cases meaning with
  | constant number =>
      obtain ⟨-, isNumber, -⟩ := means
      rw [Option.some.inj (isNumber.symm.trans isConstant)]
  | scalar place | array array low high =>
      obtain ⟨-, notConstant, -⟩ := means
      rw [notConstant] at isConstant
      cases isConstant
  | callable heading body | builtin builtin =>
      obtain ⟨-, -, notConstant, -⟩ := means
      rw [notConstant] at isConstant
      cases isConstant

theorem Plan.Within.shares {plan : Plan} {slots : List Place} {outer inner : Names}
    (within : plan.Within slots state.symbols outer inner) {heading : Heading}
    (isHere : state.symbols.enclosing.map (·.name) = some heading.name) :
    state.Shares ⟨inner ++ outer, some heading⟩ where
  constants name value isConstant := by
    obtain ⟨entry, isEntry, isConstant⟩ := Option.bind_eq_some_iff.1 isConstant
    obtain ⟨meaning, isMeaning, means⟩ := within.find isEntry
    obtain rfl := means.constant isConstant
    simp only [Scope.constant?, Scope.find?, isMeaning]
  callable := isHere.symm

theorem Plan.Covers.before {plan : Plan} {state' : Lowering} {stock' : Stock} {added : Names}
    (covers : plan.Covers state'.builder.ir stock')
    (records : Records state stock added state' stock') :
    plan.Covers state.builder.ir stock :=
  ⟨records.globals.trans covers.globals,
    fun id home isHome => covers.owner id home (records.grows.owner id home isHome)⟩

/-- Declarations in front of a body's actions do to the scope of an evaluation what they do to the
symbol table. -/
theorem records_append {declarations others : List Statement}
    {post : Option Ending → Lowering → Prop}
    (areStorage : ∀ declaration ∈ declarations, declaration.IsStorage)
    (keeps : stock.Keeps (some id) stores state)
    (h : ∀ state' stock' added, Lower.Keeps (some id) state state' →
      Records state stock added state' stock' → stock'.Keeps (some id) stores state' →
        (∀ name ∈ added.map (·.1), ∃ declaration ∈ declarations,
          name ∈ declaration.storageNames) →
        (∀ (plan : Plan) (heading : Heading) (outer inner : Names),
          plan.Covers state'.builder.ir stock' →
            state.symbols.enclosing.map (·.name) = some heading.name →
              plan.Within stock.slots state.symbols outer inner →
                declarations.foldlM Scope.declare? ⟨inner ++ outer, some heading⟩ =
                    some ⟨(added ++ inner) ++ outer, some heading⟩ ∧
                  plan.Within stock'.slots state'.symbols outer (added ++ inner)) →
        Ensures (Lower.statements others) post state') :
    Ensures (Lower.statements (declarations ++ others)) post state := by
  induction declarations generalizing state stock with
  | nil =>
      refine h state stock [] (.refl keeps.declares) (.refl keeps.fits) keeps (by simp) ?_
      exact fun plan heading outer inner _ _ within => ⟨rfl, within⟩
  | cons first rest ih =>
      rw [List.cons_append, Lower.statements, ensures_bind]
      have isFirst := areStorage first (by simp)
      refine ((records_storage isFirst keeps).and
        (Lower.keeps_storage isFirst keeps.declares)).mono ?_
      rintro _ state₁ ⟨⟨rfl, stock₁, added₁, records₁, keeps₁, names₁, declares₁⟩, -, kept₁⟩
      refine ih (fun declaration isIn => areStorage declaration (by simp [isIn])) keeps₁ ?_
      intro state₂ stock₂ added₂ kept₂ records₂ keeps₂ names₂ declares₂
      refine h state₂ stock₂ (added₂ ++ added₁) (kept₁.trans kept₂) (records₁.trans records₂) keeps₂
        (fun name isIn => ?_) fun plan heading outer inner covers isHere within => ?_
      · rw [List.map_append, List.mem_append] at isIn
        rcases isIn with isIn | isIn
        · obtain ⟨declaration, isDeclaration, isName⟩ := names₂ name isIn
          exact ⟨declaration, List.mem_cons_of_mem _ isDeclaration, isName⟩
        · exact ⟨first, by simp, names₁ name isIn⟩
      · have within₁ : plan.Within stock₁.slots state₁.symbols outer (added₁ ++ inner) := by
          have isInside : state₁.symbols.enclosing.isSome := by
            rw [records₁.enclosing]
            exact within.isInside
          refine ⟨fun name entry isEntry => within.outer name entry ?_, ?_, isInside⟩
          · rw [← isEntry, (kept₁.outer rfl).getOuter?]
          · have agrees := records₁.agrees plan (covers.before records₂) inner
            simp only [SymbolTable.current, isInside, within.isInside, if_true] at agrees
            exact agrees within.locals
        obtain ⟨declared, within₂⟩ := declares₂ plan heading outer (added₁ ++ inner) covers
          (by rw [records₁.enclosing, isHere]) within₁
        rw [List.foldlM_cons, declares₁ _ (within.shares isHere)]
        rw [← List.append_assoc, List.append_assoc added₂]
        exact ⟨declared, within₂⟩

end

end MiniPascal
