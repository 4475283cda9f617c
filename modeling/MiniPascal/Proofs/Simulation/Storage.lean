import MiniPascal.Proofs.Lowering.Tables
import MiniPascal.Proofs.Simulation.Context

/-!
# Storage behind declarations

While declarations are translated a record is kept of what they make: which globals of the module
are the storage of which variables and arrays, and which variable each stack slot is for.  Any plan
that goes on from the record gives the names that have been declared the meaning they have in an
evaluation.
-/

namespace MiniPascal

open Evaluation (Place Names Scope Meaning ArrayName)
open IR (BlockId Builder Operand Instruction)
open Lowering (Ready)

/-! ### Names and entries -/

theorem IR.getElem?_of_prefix {few many : Array IR.Global} (isPrefix : few.toList <+: many.toList)
    {id : IR.GlobalId} {global : IR.Global} (isGlobal : few[id]? = some global) :
    many[id]? = some global := by
  obtain ⟨others, isWhole⟩ := isPrefix
  rw [← Array.getElem?_toList] at isGlobal ⊢
  rw [← isWhole, List.getElem?_append_left (List.getElem?_eq_some_iff.1 isGlobal).1, isGlobal]

def Plan.Agrees (plan : Plan) (slots : List Place) (table : Table) (names : Names) : Prop :=
  ∀ name, Option.Rel (plan.Means slots name) (table.lookup name) (names.lookup name)

section

variable {plan : Plan} {slots more : List Place} {table : Table} {names : Names}

theorem Plan.agrees_nil (plan : Plan) (slots : List Place) : plan.Agrees slots [] [] :=
  fun _ => .none

theorem Plan.Agrees.cons (agrees : plan.Agrees slots table names) {name : String} {entry : Entry}
    {meaning : Meaning} (means : plan.Means slots name entry meaning) :
    plan.Agrees slots ((name, entry) :: table) ((name, meaning) :: names) := by
  intro other
  simp only [List.lookup_cons]
  by_cases same : other = name
  · subst same
    simpa using Option.Rel.some means
  · simpa only [beq_false_of_ne same] using agrees other

theorem Plan.Addresses.mono {place : Place} {pointer : Operand} (isPrefix : slots <+: more)
    (addresses : plan.Addresses slots place pointer) : plan.Addresses more place pointer := by
  have kept {slot : Nat} {place : Place} (isSlot : slots[slot]? = some place) :
      more[slot]? = some place := by
    obtain ⟨others, rfl⟩ := isPrefix
    rw [List.getElem?_append_left (List.getElem?_eq_some_iff.1 isSlot).1, isSlot]
  cases place <;> cases pointer <;> first | exact addresses | exact kept addresses

theorem Plan.Means.mono {name : String} {entry : Entry} {meaning : Meaning}
    (isPrefix : slots <+: more) (means : plan.Means slots name entry meaning) :
    plan.Means more name entry meaning := by
  cases meaning with
  | scalar place =>
      obtain ⟨isShape, notConstant, pointer, isStorage, addresses⟩ := means
      exact ⟨isShape, notConstant, pointer, isStorage, addresses.mono isPrefix⟩
  | _ => exact means

theorem Plan.Agrees.mono (isPrefix : slots <+: more) (agrees : plan.Agrees slots table names) :
    plan.Agrees more table names := by
  intro name
  have agree := agrees name
  generalize table.lookup name = entry, names.lookup name = meaning at agree
  cases agree with
  | none => exact .none
  | some means => exact .some (means.mono isPrefix)

theorem Plan.Agrees.exists_meaning (agrees : plan.Agrees slots table names) {name : String}
    {entry : Entry} (isEntry : table.lookup name = some entry) :
    ∃ meaning, names.lookup name = some meaning ∧ plan.Means slots name entry meaning := by
  have agree := agrees name
  rw [isEntry] at agree
  generalize names.lookup name = found at agree
  cases agree with
  | some means => exact ⟨_, rfl, means⟩

theorem Plan.Agrees.eq_none (agrees : plan.Agrees slots table names) {name : String}
    (isNone : table.lookup name = none) : names.lookup name = none := by
  have agree := agrees name
  rw [isNone] at agree
  generalize names.lookup name = found at agree
  cases agree
  rfl

end

/-! ### The record -/

/-- What the globals and the stack slots that have been made are for. -/
structure Stock where
  owner : IR.GlobalId → Option Home
  slots : List Place

structure Stock.Grows (old new : Stock) : Prop where
  owner : ∀ id home, old.owner id = some home → new.owner id = some home
  slots : old.slots <+: new.slots

theorem Stock.Grows.refl (stock : Stock) : stock.Grows stock := ⟨fun _ _ => id, List.prefix_rfl⟩

theorem Stock.Grows.trans {first second third : Stock} (h₁ : first.Grows second)
    (h₂ : second.Grows third) : first.Grows third :=
  ⟨fun id home isHome => h₂.owner id home (h₁.owner id home isHome), h₁.slots.trans h₂.slots⟩

structure Plan.Covers (plan : Plan) (ir : IR.Module) (stock : Stock) : Prop where
  globals : ir.globals.toList <+: plan.ir.globals.toList
  owner : ∀ id home, stock.owner id = some home → plan.owner id = some home

def Home.Taken (symbols : SymbolTable) : Home → Prop
  | .scalar name | .array ⟨none, name⟩ => symbols.globals.has name = true
  | .array ⟨some callable, name⟩ => symbols.globals.has callable = true ∧
      ∀ enclosing, symbols.enclosing = some enclosing → enclosing.name = callable →
        symbols.locals.has name = true

structure Stock.Fits (stock : Stock) (state : Lowering) : Prop where
  injective : ∀ id other home, stock.owner id = some home → stock.owner other = some home →
    id = other
  global : ∀ id home, stock.owner id = some home → ∃ global : IR.Global,
    state.builder.ir.globals[id]? = some global ∧ global.constant = false ∧
      (∀ index, (Machine.Cells.ofContent global.content).get index = 0) ∧
      ∀ name, home = .scalar name → global.content = .int 0
  taken : ∀ id home, stock.owner id = some home → home.Taken state.symbols
  nodup : stock.slots.Nodup
  slot : ∀ name, Place.local name ∈ stock.slots → state.symbols.locals.has name = true
  enclosing : ∀ enclosing, state.symbols.enclosing = some enclosing →
    state.symbols.globals.has enclosing.name = true

structure Records (state : Lowering) (stock : Stock) (added : Names) (state' : Lowering)
    (stock' : Stock) : Prop where
  grows : stock.Grows stock'
  globals : state.builder.ir.globals.toList <+: state'.builder.ir.globals.toList
  fits : stock'.Fits state'
  enclosing : state'.symbols.enclosing = state.symbols.enclosing
  has : ∀ name, state'.symbols.current.has name = true →
    name ∈ added.map (·.1) ∨ state.symbols.current.has name = true
  notBuiltin : ∀ name builtin, (name, Meaning.builtin builtin) ∉ added
  result : ∀ name, (name, Meaning.scalar .result) ∈ added → .result ∉ stock.slots
  agrees : ∀ plan : Plan, plan.Covers state'.builder.ir stock' → ∀ names,
    plan.Agrees stock.slots state.symbols.current names →
      plan.Agrees stock'.slots state'.symbols.current (added ++ names)

namespace Records

variable {state state₁ state₂ : Lowering} {stock stock₁ stock₂ : Stock} {added more : Names}

theorem refl (fits : stock.Fits state) : Records state stock [] state stock :=
  ⟨.refl stock, List.prefix_rfl, fits, rfl, fun _ => .inr, by simp, by simp,
    fun _ _ _ agrees => agrees⟩

theorem trans (h₁ : Records state stock added state₁ stock₁)
    (h₂ : Records state₁ stock₁ more state₂ stock₂) :
    Records state stock (more ++ added) state₂ stock₂ where
  grows := h₁.grows.trans h₂.grows
  globals := h₁.globals.trans h₂.globals
  fits := h₂.fits
  enclosing := h₂.enclosing.trans h₁.enclosing
  has name isIn := by
    rw [List.map_append, List.mem_append, or_assoc]
    exact (h₂.has name isIn).imp_right (h₁.has name)
  notBuiltin name builtin isIn :=
    (List.mem_append.1 isIn).elim (h₂.notBuiltin name builtin) (h₁.notBuiltin name builtin)
  result name isIn :=
    (List.mem_append.1 isIn).elim
      (fun isIn isOld => h₂.result name isIn (h₁.grows.slots.subset isOld)) (h₁.result name)
  agrees plan covers names agrees := by
    rw [List.append_assoc]
    refine h₂.agrees plan covers _ (h₁.agrees plan ⟨?_, ?_⟩ names agrees)
    · exact h₂.globals.trans covers.globals
    · exact fun id home isHome => covers.owner id home (h₂.grows.owner id home isHome)

end Records

/-! ### Declaring a name -/

theorem SymbolTable.current_add (table : SymbolTable) (name : String) (entry : Entry) :
    (table.add name entry).current = (name, entry) :: table.current := by
  cases isEnclosing : table.enclosing <;> simp [add, current, isEnclosing]

theorem Home.Taken.add {symbols : SymbolTable} {home : Home} (taken : home.Taken symbols)
    (name : String) (entry : Entry) : home.Taken (symbols.add name entry) := by
  have globals (other : String) (has : symbols.globals.has other = true) :
      (symbols.add name entry).globals.has other = true := by
    unfold SymbolTable.add
    split
    · exact has
    · exact (Table.has_cons ..).2 (.inr has)
  have locals (other : String) (has : symbols.locals.has other = true) :
      (symbols.add name entry).locals.has other = true := by
    unfold SymbolTable.add
    split
    · exact (Table.has_cons ..).2 (.inr has)
    · exact has
  match home with
  | .scalar other | .array ⟨none, other⟩ => exact globals other taken
  | .array ⟨some callable, other⟩ =>
      refine ⟨globals callable taken.1, fun enclosing isEnclosing same => locals other ?_⟩
      rw [Lowering.enclosing_add] at isEnclosing
      exact taken.2 enclosing isEnclosing same

namespace Stock.Fits

variable {state : Lowering} {stock : Stock}

theorem add (fits : stock.Fits state) {builder : Builder}
    (isPrefix : state.builder.ir.globals.toList <+: builder.ir.globals.toList) (name : String)
    (entry : Entry) :
    stock.Fits { state with symbols := state.symbols.add name entry, builder := builder } where
  injective := fits.injective
  global id home isHome := by
    obtain ⟨global, isGlobal, known⟩ := fits.global id home isHome
    exact ⟨global, IR.getElem?_of_prefix isPrefix isGlobal, known⟩
  taken id home isHome := (fits.taken id home isHome).add name entry
  nodup := fits.nodup
  slot other isSlot := by
    have has := fits.slot other isSlot
    unfold SymbolTable.add
    dsimp only
    split
    · exact (Table.has_cons ..).2 (.inr has)
    · exact has
  enclosing enclosing isEnclosing := by
    rw [Lowering.enclosing_add] at isEnclosing
    have has := fits.enclosing enclosing isEnclosing
    unfold SymbolTable.add
    dsimp only
    split
    · exact has
    · exact (Table.has_cons ..).2 (.inr has)

theorem own (fits : stock.Fits state) {id : IR.GlobalId} {global : IR.Global} {home : Home}
    (isGlobal : state.builder.ir.globals[id]? = some global) (notConstant : global.constant = false)
    (isZero : ∀ index, (Machine.Cells.ofContent global.content).get index = 0)
    (isInt : ∀ name, home = .scalar name → global.content = .int 0)
    (taken : home.Taken state.symbols) (isNew : ∀ other, stock.owner other ≠ some home) :
    Stock.Fits { stock with owner := Evaluation.change stock.owner id (some home) } state where
  injective first second other isFirst isSecond := by
    simp only [Evaluation.change] at isFirst isSecond
    split at isFirst <;> split at isSecond
    · simp_all
    · obtain rfl := Option.some.inj isFirst
      exact absurd isSecond (isNew second)
    · obtain rfl := Option.some.inj isSecond
      exact absurd isFirst (isNew first)
    · exact fits.injective first second other isFirst isSecond
  global other found isFound := by
    simp only [Evaluation.change] at isFound
    split at isFound
    · obtain rfl := Option.some.inj isFound
      subst other
      exact ⟨global, isGlobal, notConstant, isZero, isInt⟩
    · exact fits.global other found isFound
  taken other found isFound := by
    simp only [Evaluation.change] at isFound
    split at isFound
    · obtain rfl := Option.some.inj isFound
      exact taken
    · exact fits.taken other found isFound
  nodup := fits.nodup
  slot := fits.slot
  enclosing := fits.enclosing

end Stock.Fits

/-! ### Kinds of storage -/

section

variable {state : Lowering} {stock : Stock}

theorem prefix_addGlobal (builder : Builder) (name : String) (content : IR.Content)
    (constant : Bool) (linkage : IR.Linkage) :
    builder.ir.globals.toList <+:
      (IR.Build.addGlobal name content constant linkage builder).2.ir.globals.toList := by
  change _ <+: (builder.ir.globals.push _).toList
  simp

theorem getElem?_addGlobal (builder : Builder) (name : String) (content : IR.Content)
    (constant : Bool) (linkage : IR.Linkage) :
    ∃ global : IR.Global, (IR.Build.addGlobal name content constant linkage builder).2.ir.globals[
      builder.ir.globals.size]? = some global ∧ global.content = content ∧
        global.constant = constant := by
  refine ⟨⟨IR.uniqueName (builder.ir.globals.toList.map (·.name)) name, content, constant, linkage⟩,
    ?_, rfl, rfl⟩
  change (builder.ir.globals.push _)[builder.ir.globals.size]? = _
  rw [Array.getElem?_push, if_pos rfl]

def SymbolTable.arrayName (symbols : SymbolTable) (name : String) : ArrayName :=
  ⟨symbols.enclosing.map (·.name), name⟩

theorem records_add {builder : Builder}
    (isPrefix : state.builder.ir.globals.toList <+: builder.ir.globals.toList) {name : String}
    {entry : Entry} {meaning : Meaning} {stock' : Stock} (grows : stock.Grows stock')
    (fits' : stock'.Fits { state with symbols := state.symbols.add name entry, builder := builder })
    (notBuiltin : ∀ builtin, meaning ≠ .builtin builtin)
    (isNew : meaning = .scalar .result → .result ∉ stock.slots)
    (means : ∀ plan : Plan, plan.Covers builder.ir stock' →
      plan.Means stock'.slots name entry meaning) :
    Records state stock [(name, meaning)]
      { state with symbols := state.symbols.add name entry, builder := builder } stock' where
  grows := grows
  globals := isPrefix
  fits := fits'
  enclosing := Lowering.enclosing_add _ _ _
  has other isIn := by
    rw [SymbolTable.current_add, Table.has_cons] at isIn
    simpa using isIn
  notBuiltin other builtin isIn := by
    obtain ⟨-, isBuiltin⟩ := Prod.mk.inj (List.mem_singleton.1 isIn)
    exact notBuiltin builtin isBuiltin.symm
  result other isIn := isNew (Prod.mk.inj (List.mem_singleton.1 isIn)).2.symm
  agrees plan covers names agrees := by
    rw [SymbolTable.current_add]
    exact (agrees.mono grows.slots).cons (means plan covers)

theorem records_constant (fits : stock.Fits state) (name : String) (value : Int32)
    (position : Position) :
    Records state stock [(name, .constant value)]
      { state with
        symbols := state.symbols.add name
          ⟨.integer, .address (.global state.builder.ir.globals.size), some value, position⟩
        builder := (IR.Build.addGlobal name (.int value) true .external state.builder).2 }
      stock := by
  have isPrefix := prefix_addGlobal state.builder name (.int value) true .external
  refine records_add isPrefix (.refl stock) (fits.add isPrefix _ _) (by simp) (by simp)
    fun plan covers => ?_
  obtain ⟨global, isGlobal, content, isConstant⟩ :=
    getElem?_addGlobal state.builder name (.int value) true .external
  exact ⟨rfl, rfl, _, global, rfl, IR.getElem?_of_prefix covers.globals isGlobal, content,
    isConstant⟩

theorem get_zero (index : Nat) : (Machine.Cells.ofContent (.int 0)).get index = 0 := by
  rw [Machine.Cells.ofContent, Machine.Cells.get_ofList]
  cases index <;> rfl

theorem get_array {length : Nat} (index : Nat) :
    (Machine.Cells.ofContent (.array length)).get index = 0 := by
  simp [Machine.Cells.ofContent, Machine.Cells.get]

theorem Stock.Fits.not_owned (fits : stock.Fits state) {home : Home}
    (notTaken : ¬ home.Taken state.symbols) (id : IR.GlobalId) : stock.owner id ≠ some home :=
  fun isHome => notTaken (fits.taken id home isHome)

theorem records_own (fits : stock.Fits state) (name : String) (home : Home)
    {content : IR.Content} {linkage : IR.Linkage} {entry : Entry} {meaning : Meaning}
    (isZero : ∀ index, (Machine.Cells.ofContent content).get index = 0)
    (isInt : ∀ name, home = .scalar name → content = .int 0)
    (taken : home.Taken (state.symbols.add name entry)) (notTaken : ¬ home.Taken state.symbols)
    (notBuiltin : ∀ builtin, meaning ≠ .builtin builtin) (notResult : meaning ≠ .scalar .result)
    (means : ∀ (plan : Plan) (global : IR.Global),
      plan.owner state.builder.ir.globals.size = some home →
        plan.ir.globals[state.builder.ir.globals.size]? = some global → global.content = content →
          plan.Means stock.slots name entry meaning) :
    Records state stock [(name, meaning)]
      { state with
        symbols := state.symbols.add name entry
        builder := (IR.Build.addGlobal name content false linkage state.builder).2 }
      { stock with
        owner := Evaluation.change stock.owner state.builder.ir.globals.size (some home) } := by
  have isPrefix := prefix_addGlobal state.builder name content false linkage
  obtain ⟨global, isGlobal, isContent, notConstant⟩ :=
    getElem?_addGlobal state.builder name content false linkage
  have isNew (id : IR.GlobalId) := fits.not_owned notTaken id
  refine records_add isPrefix ⟨fun id other isHome => ?_, List.prefix_rfl⟩
    ((fits.add isPrefix _ _).own isGlobal notConstant ?_ ?_ taken isNew) notBuiltin
    (fun isResult => absurd isResult notResult) fun plan covers => ?_
  · obtain ⟨old, isOld, -⟩ := fits.global id other isHome
    have bound : id ≠ state.builder.ir.globals.size :=
      Nat.ne_of_lt (Array.getElem?_eq_some_iff.1 isOld).1
    simp only [Evaluation.change, if_neg bound, isHome]
  · rw [isContent]
    exact isZero
  · rw [isContent]
    exact isInt
  · refine means plan global (covers.owner _ _ ?_) (IR.getElem?_of_prefix covers.globals isGlobal)
      isContent
    simp [Evaluation.change]

theorem records_array (fits : stock.Fits state) {name : String}
    (notTaken : state.symbols.current.has name = false) (low high : Int32) (position : Position) :
    ∃ stock', Records state stock [(name, .array (state.symbols.arrayName name) low high)]
      { state with
        symbols := state.symbols.add name
          ⟨.array low high, .address (.global state.builder.ir.globals.size), none, position⟩
        builder := (IR.Build.addGlobal name (.array (SymbolTable.arrayLength low high)) false .common
          state.builder).2 } stock' ∧ stock'.slots = stock.slots := by
  refine ⟨_, records_own fits name (.array (state.symbols.arrayName name)) get_array (by simp) ?_ ?_
    (by simp) (by simp) fun plan global isOwner isGlobal content => ?_, rfl⟩
  · cases isEnclosing : state.symbols.enclosing with
    | none => simp [SymbolTable.arrayName, isEnclosing, Home.Taken, SymbolTable.add, Table.has_cons]
    | some enclosing =>
        simp [SymbolTable.arrayName, isEnclosing, Home.Taken, SymbolTable.add, Table.has_cons,
          fits.enclosing enclosing isEnclosing]
  · cases isEnclosing : state.symbols.enclosing with
    | none => simpa [SymbolTable.arrayName, isEnclosing, Home.Taken, SymbolTable.current] using notTaken
    | some enclosing =>
        simpa [SymbolTable.arrayName, isEnclosing, Home.Taken, SymbolTable.current,
          fits.enclosing enclosing isEnclosing] using notTaken
  · exact ⟨rfl, rfl, _, global, rfl, isOwner, isGlobal, content⟩

theorem records_scalar (fits : stock.Fits state) (isNone : state.symbols.enclosing = none)
    {name : String} (notTaken : state.symbols.current.has name = false) (position : Position) :
    ∃ stock', Records state stock [(name, .scalar (.global name))]
      { state with
        symbols := state.symbols.add name
          ⟨.integer, .address (.global state.builder.ir.globals.size), none, position⟩
        builder := (IR.Build.addGlobal name (.int 0) false .external state.builder).2 } stock' ∧
      stock'.slots = stock.slots := by
  refine ⟨_, records_own fits name (.scalar name) get_zero (by simp) ?_ ?_ (by simp) (by simp)
    fun plan global isOwner isGlobal content => ?_, rfl⟩
  · simp [Home.Taken, SymbolTable.add, isNone, Table.has_cons]
  · simpa [Home.Taken, SymbolTable.current, isNone] using notTaken
  · exact ⟨rfl, rfl, _, rfl, isOwner⟩

/-! ### Slots of the stack -/

def room (names : List String) : List Instruction := names.mapIdx fun slot name => .alloca slot name

def fillings (stores : List (Operand × IR.Register)) : List Instruction :=
  stores.map fun (value, slot) => .store value (.register slot)

/-- The first block of a body so far: room for each slot, and then what is stored there. -/
structure Lowering.Opening (state : Lowering) (id : IR.FunctionId) (slots : Nat)
    (stores : List (Operand × IR.Register)) : Prop where
  code : ∃ names : List String, names.length = slots ∧
    state.builder.ir.code ⟨id, 0⟩ = room names ++ fillings stores
  registers : state.builder.ir.registers id = slots

theorem span_isAlloca (names : List String) (stores : List (Operand × IR.Register)) :
    (room names ++ fillings stores).span (·.isAlloca) = (room names, fillings stores) := by
  rw [List.span_eq_takeWhile_dropWhile, List.takeWhile_append_of_pos, List.dropWhile_append_of_pos]
  · cases stores <;> simp [fillings, Instruction.isAlloca]
  all_goals
    intro instruction isIn
    obtain ⟨slot, bound, rfl⟩ := List.mem_mapIdx.1 isIn
    rfl

theorem Lowering.Opening.addSlot {id : IR.FunctionId} {slots : Nat}
    {stores : List (Operand × IR.Register)} (opening : state.Opening id slots stores)
    {function : IR.Function} (isFunction : state.builder.ir.functions[id]? = some function)
    {block : IR.Block} (isBlock : function.blocks[0]? = some block) (name : String)
    (symbols : SymbolTable) :
    Lowering.Opening { state with
      symbols := symbols, builder := state.builder.modifyFunction id (·.addSlot name) } id
      (slots + 1) stores := by
  have isNew : (state.builder.modifyFunction id (·.addSlot name)).ir.functions[id]? =
      some (function.addSlot name) := by
    simp [Builder.functions_modifyFunction, isFunction]
  have registers := opening.registers
  rw [IR.Module.registers_of_function isFunction] at registers
  obtain ⟨names, count, isCode⟩ := opening.code
  rw [IR.Module.code_of_block ⟨id, 0⟩ isFunction isBlock] at isCode
  refine ⟨⟨names ++ [name], by simp [count], ?_⟩, ?_⟩
  · have isNewBlock : (function.addSlot name).blocks[0]? =
        some (block.insertAlloca (.alloca function.registers name)) := by
      simp [IR.Function.getElem?_addSlot, isBlock]
    rw [IR.Module.code_of_block ⟨id, 0⟩ isNew isNewBlock, IR.Block.toList_insertAlloca,
      IR.Block.leading, isCode, span_isAlloca, registers, room, room, List.mapIdx_concat, count,
      List.append_assoc]
    rfl
  · rw [IR.Module.registers_of_function isNew, IR.Function.addSlot, registers]

theorem records_slot (fits : stock.Fits state) {enclosing : Enclosing}
    (isEnclosing : state.symbols.enclosing = some enclosing) {id : IR.FunctionId} {slot : Nat}
    (isLast : slot = stock.slots.length) (name : String) (position : Position) {place : Place}
    (isPlace : place = .local name ∨ place = .result) (isNew : place ∉ stock.slots) :
    Records state stock [(name, .scalar place)]
      { state with
        symbols := state.symbols.add name ⟨.integer, .address (.register slot), none, position⟩
        builder := state.builder.modifyFunction id (·.addSlot name) }
      { stock with slots := stock.slots ++ [place] } := by
  have isPrefix : state.builder.ir.globals.toList <+:
      (state.builder.modifyFunction id (·.addSlot name)).ir.globals.toList := List.prefix_rfl
  have fits' := fits.add isPrefix name ⟨.integer, .address (.register slot), none, position⟩
  have grows : stock.Grows { stock with slots := stock.slots ++ [place] } :=
    ⟨fun _ _ isHome => isHome, List.prefix_append _ _⟩
  refine records_add isPrefix grows
    ⟨fits'.injective, fits'.global, fits'.taken, ?_, ?_, fits'.enclosing⟩ (by simp) ?_ fun plan _ => ?_
  · rw [List.nodup_append]
    refine ⟨fits.nodup, by simp, ?_⟩
    rintro other isOther _ isIn rfl
    exact isNew (List.mem_singleton.1 isIn ▸ isOther)
  · intro other isIn
    rcases List.mem_append.1 isIn with isIn | isIn
    · exact fits'.slot other isIn
    · rcases isPlace with rfl | rfl
      · obtain rfl : other = name := by simpa using isIn
        simp [SymbolTable.add, isEnclosing, Table.has_cons]
      · cases List.mem_singleton.1 isIn
  · rintro isResult
    obtain rfl : place = .result := by simpa using isResult
    exact isNew
  · refine ⟨rfl, rfl, _, rfl, ?_⟩
    rcases isPlace with rfl | rfl <;> simp [Plan.Addresses, isLast]

/-! ### Declarations of variables and constants -/

structure Stock.Keeps (stock : Stock) (id? : Option IR.FunctionId)
    (stores : List (Operand × IR.Register)) (state : Lowering) : Prop where
  declares : state.Declares id?
  fits : stock.Fits state
  opening : ∀ id, id? = some id → state.Opening id stock.slots.length stores
  outside : id? = none → stock.slots = []

def SymbolTable.variableMeaning (symbols : SymbolTable) (name : String) : Shape → Meaning
  | .array low high => .array (symbols.arrayName name) low high
  | _ => .scalar (if symbols.enclosing.isSome then .local name else .global name)

variable {id? : Option IR.FunctionId} {stores : List (Operand × IR.Register)}

theorem Lowering.Opening.around {id : IR.FunctionId} {slots : Nat}
    (opening : state.Opening id slots stores) {state' : Lowering}
    (same : state'.builder.ir.functions = state.builder.ir.functions) :
    state'.Opening id slots stores := by
  obtain ⟨names, count, isCode⟩ := opening.code
  refine ⟨⟨names, count, ?_⟩, ?_⟩
  · rw [← isCode, IR.Module.code, IR.Module.code, IR.Module.block?, IR.Module.block?, same]
  · rw [← opening.registers, IR.Module.registers, IR.Module.registers, same]

theorem records_declareSlot {id : IR.FunctionId} (keeps : stock.Keeps (some id) stores state)
    (position : Position) (name : String) {place : Place}
    (isPlace : place = .local name ∨ place = .result)
    (isNew : state.symbols.current.has name = false → place ∉ stock.slots) :
    Ensures (Lower.declareVariable .integer position name) (fun _ state' =>
      Records state stock [(name, .scalar place)] state'
          { stock with slots := stock.slots ++ [place] } ∧
        state'.Opening id (stock.slots.length + 1) stores ∧
        state'.symbols = state.symbols.add name
          ⟨.integer, .address (.register stock.slots.length), none, position⟩) state := by
  have declares : state.Ready ⟨id, 0⟩ [] := keeps.declares
  obtain ⟨name', isEnclosing⟩ := declares.enclosing
  obtain ⟨function, isFunction, -⟩ := declares.function
  obtain ⟨block, isBlock, -⟩ := declares.block isFunction
  have opening := keeps.opening id rfl
  have registers := opening.registers
  rw [IR.Module.registers_of_function isFunction] at registers
  refine Lower.ensures_declareVariable fun action notTaken room => ?_
  cases room with
  | word isOutside =>
      rw [isEnclosing] at isOutside
      cases isOutside
  | slot isInside =>
      rw [IR.Build.alloca_eq name declares.insertPoint isFunction, registers]
      exact ⟨records_slot keeps.fits isEnclosing rfl name position isPlace (isNew notTaken),
        opening.addSlot isFunction isBlock name _, rfl⟩

theorem records_declareVariable (keeps : stock.Keeps id? stores state) (shape : Shape)
    (position : Position) (name : String) :
    Ensures (Lower.declareVariable shape position name) (fun _ state' => ∃ stock',
      Records state stock [(name, state.symbols.variableMeaning name shape)] state' stock' ∧
        stock'.Keeps id? stores state') state := by
  have declared := Lower.keeps_declareVariable keeps.declares shape position name
  suffices recorded : Ensures (Lower.declareVariable shape position name) (fun _ state' =>
      ∃ stock', Records state stock [(name, state.symbols.variableMeaning name shape)] state' stock' ∧
        (∀ id, id? = some id → state'.Opening id stock'.slots.length stores) ∧
          (id? = none → stock'.slots = [])) state by
    refine (declared.and recorded).mono ?_
    rintro _ state' ⟨keeps', stock', records, opening, outside⟩
    exact ⟨stock', records, keeps'.declares, records.fits, opening, outside⟩
  cases shape with
  | callable parameters returnsValue =>
      refine Lower.ensures_declareVariable fun action _ room => ?_
      cases room
  | array low high =>
      refine Lower.ensures_declareVariable fun action notTaken room => ?_
      cases room with
      | array inOrder =>
          obtain ⟨stock', records, slots⟩ := records_array keeps.fits notTaken low high position
          exact ⟨stock', records, fun id isId => slots ▸ (keeps.opening id isId).around rfl,
            fun isNone => slots.trans (keeps.outside isNone)⟩
  | integer =>
      -- outside of callables an integer has a global, in a body it has a slot
      cases id? with
      | none =>
          have isNone : state.symbols.enclosing = none := keeps.declares.1
          have isMeaning : state.symbols.variableMeaning name .integer = .scalar (.global name) := by
            simp [SymbolTable.variableMeaning, isNone]
          rw [isMeaning]
          refine Lower.ensures_declareVariable fun action notTaken room => ?_
          cases room with
          | slot isInside =>
              rw [isNone] at isInside
              cases isInside
          | word isOutside =>
              obtain ⟨stock', records, slots⟩ := records_scalar keeps.fits isNone notTaken position
              exact ⟨stock', records, by simp, fun _ => slots.trans (keeps.outside rfl)⟩
      | some id =>
          obtain ⟨name', isEnclosing⟩ := Ready.enclosing keeps.declares
          have isMeaning : state.symbols.variableMeaning name .integer = .scalar (.local name) := by
            simp [SymbolTable.variableMeaning, isEnclosing]
          rw [isMeaning]
          refine (records_declareSlot keeps position name (.inl rfl) fun notTaken isIn => ?_).mono ?_
          · have has := keeps.fits.slot name isIn
            simp [SymbolTable.current, isEnclosing, has] at notTaken
          · rintro _ state' ⟨records, opening, -⟩
            refine ⟨_, records, ?_, by simp⟩
            rintro _ ⟨⟩
            simpa using opening

theorem records_variables (keeps : stock.Keeps id? stores state) (shape : Shape)
    (position : Position) (names : List String) :
    Ensures (names.forM (Lower.declareVariable shape position)) (fun _ state' => ∃ stock',
      Records state stock
        (names.map fun name => (name, state.symbols.variableMeaning name shape)).reverse state'
        stock' ∧ stock'.Keeps id? stores state') state := by
  induction names generalizing state stock with
  | nil => exact ensures_pure.2 ⟨stock, .refl keeps.fits, keeps⟩
  | cons name others ih =>
      change Ensures (Lower.declareVariable shape position name >>= fun _ => others.forM _) _ state
      rw [ensures_bind]
      refine (records_declareVariable keeps shape position name).mono ?_
      rintro _ state₁ ⟨stock₁, records₁, keeps₁⟩
      refine (ih keeps₁).mono ?_
      rintro _ state₂ ⟨stock₂, records₂, keeps₂⟩
      have same (other : String) : state₁.symbols.variableMeaning other shape =
          state.symbols.variableMeaning other shape := by
        cases shape <;>
          simp [SymbolTable.variableMeaning, SymbolTable.arrayName, records₁.enclosing]
      refine ⟨stock₂, ?_, keeps₂⟩
      simpa only [List.map_cons, List.reverse_cons, same] using records₁.trans records₂

/-! ### Constants of evaluations -/

theorem Expr.constant?_mono {few many : String → Option Int32}
    (le : ∀ name value, few name = some value → many name = some value) (expr : Expr)
    {value : Int32} (isValue : expr.constant? few = some value) :
    expr.constant? many = some value := by
  induction expr using Expr.rec (motive_2 := fun _ => True) generalizing value with
  | ident name position => exact le name value isValue
  | number number position => exact isValue
  | binary op left right position left_ih right_ih =>
      simp only [Expr.constant?, bind, Option.bind_eq_some_iff] at isValue ⊢
      obtain ⟨first, isFirst, second, isSecond, computed⟩ := isValue
      exact ⟨first, left_ih isFirst, second, right_ih isSecond, computed⟩
  | negate operand position ih | not operand position ih =>
      simp only [Expr.constant?, bind, Option.bind_eq_some_iff] at isValue ⊢
      obtain ⟨inner, isInner, computed⟩ := isValue
      exact ⟨inner, ih isInner, computed⟩
  | nil => trivial
  | cons first others first_ih others_ih => trivial
  | _ => cases isValue

structure Lowering.Shares (state : Lowering) (scope : Scope) : Prop where
  constants : ∀ name value, state.symbols.constant? name = some value →
    scope.constant? name = some value
  callable : scope.callable.map (·.name) = state.symbols.enclosing.map (·.name)

theorem foldl_add (meaning : Scope → String → Meaning)
    (stable : ∀ scope name added, meaning (scope.add name added) = meaning scope)
    (names : List String) (scope : Scope) :
    names.foldl (fun scope name => scope.add name (meaning scope name)) scope =
      { scope with
        names := (names.map fun name => (name, meaning scope name)).reverse ++ scope.names } := by
  induction names generalizing scope with
  | nil => rfl
  | cons name others ih =>
      rw [List.foldl_cons, ih, stable]
      simp [Scope.add]

/-- A declaration does to the names of an evaluation what it does to the symbol table. -/
theorem records_storage {declaration : Statement} (isStorage : declaration.IsStorage)
    (keeps : stock.Keeps id? stores state) :
    Ensures (Lower.statement declaration) (fun ending state' => ending = none ∧ ∃ stock' added,
      Records state stock added state' stock' ∧ stock'.Keeps id? stores state' ∧
        (∀ name ∈ added.map (·.1), name ∈ declaration.storageNames) ∧
        ∀ scope : Scope, state.Shares scope →
          scope.declare? declaration = some { scope with names := added ++ scope.names }) state := by
  cases declaration with
  | vars group =>
      obtain ⟨names, type, position⟩ := group
      simp only [Lower.statement, Lower.vars, ensures_bind, ensures_pure, true_and]
      refine (Lower.ensures_shape type isStorage.2.2).mono ?_
      rintro shape state ⟨rfl, isShape⟩
      refine (records_variables keeps shape position names).mono ?_
      rintro _ state' ⟨stock', records, keeps'⟩
      refine ⟨stock', _, records, keeps', fun name isIn => ?_, fun scope shares => ?_⟩
      · simpa [Statement.storageNames] using isIn
      · cases type with
        | integer =>
            obtain rfl := isShape
            have sameScope : scope.callable.isSome = state.symbols.enclosing.isSome := by
              simpa using congrArg Option.isSome shares.callable
            refine congrArg some ((foldl_add (fun scope name => .scalar (scope.place name))
              (fun _ _ _ => rfl) names scope).trans ?_)
            simp [SymbolTable.variableMeaning, Scope.place, sameScope]
        | array low high =>
            obtain ⟨first, last, rfl, isFirst, isLast⟩ := isShape
            simp only [Scope.declare?, Expr.constant?_mono shares.constants low isFirst,
              Expr.constant?_mono shares.constants high isLast, bind, Option.bind_some, pure]
            refine congrArg some ((foldl_add (fun scope name =>
              .array ⟨scope.callable.map (·.name), name⟩ first last) (fun _ _ _ => rfl) names
              scope).trans ?_)
            simp [SymbolTable.variableMeaning, SymbolTable.arrayName, shares.callable]
  | constant name value position =>
      suffices declared : Ensures (Lower.statement (.constant name value position))
          (fun ending state' => ∃ number, value.constant? state.symbols.constant? = some number ∧
            Records state stock [(name, .constant number)] state' stock ∧
            ∀ id, id? = some id → state'.Opening id stock.slots.length stores) state by
        refine ((Lower.keeps_storage isStorage keeps.declares).and declared).mono ?_
        rintro ending state' ⟨⟨isNone, keeps'⟩, number, isNumber, records, opening⟩
        refine ⟨isNone, stock, _, records, ⟨keeps'.declares, records.fits, opening, keeps.outside⟩,
          by simp [Statement.storageNames], fun scope shares => ?_⟩
        simp [Scope.declare?, Expr.constant?_mono shares.constants value isNumber, Scope.add]
      simp only [Lower.statement, Lower.constantDeclaration, ensures_bind, ensures_pure]
      refine (Lower.ensures_constantValue value isStorage.2 state).mono ?_
      rintro number _ ⟨rfl, isNumber⟩
      refine Lower.ensures_declareConstant fun _ => ⟨number, isNumber, ?_, fun id isId => ?_⟩
      · exact records_constant keeps.fits name number position
      · exact (keeps.opening id isId).around rfl
  | _ => exact isStorage.elim

end

end MiniPascal
