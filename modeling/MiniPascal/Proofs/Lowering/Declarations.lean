import MiniPascal.Proofs.Lowering.Constants
import MiniPascal.Proofs.Lowering.Control

/-!
# Translation of declarations

Declarations of variables and constants stand at the top or in the first block of a callable, and
make storage there.
-/

namespace MiniPascal

open IR (BlockId Builder Operand Instruction)
open Lowering (Ready)

namespace Lowering

variable {state : Lowering} {pending : List Nat}

def Declares (state : Lowering) : Option IR.FunctionId → Prop
  | none => state.symbols.enclosing = none ∧ state.Sound []
  | some id => state.Ready ⟨id, 0⟩ []

structure SameOuter (state state' : Lowering) : Prop where
  globals : state'.symbols.globals = state.symbols.globals
  forwards : state'.symbols.forwards = state.symbols.forwards
  enclosing : state'.symbols.enclosing = state.symbols.enclosing

theorem SameOuter.refl (state : Lowering) : state.SameOuter state := ⟨rfl, rfl, rfl⟩

theorem SameOuter.trans {first second third : Lowering} (h₁ : first.SameOuter second)
    (h₂ : second.SameOuter third) : first.SameOuter third :=
  ⟨h₂.globals.trans h₁.globals, h₂.forwards.trans h₁.forwards, h₂.enclosing.trans h₁.enclosing⟩

theorem SameOuter.getOuter? {state' : Lowering} (same : state.SameOuter state') (name : String) :
    state'.symbols.getOuter? name = state.symbols.getOuter? name := by
  simp [SymbolTable.getOuter?, same.globals, same.forwards]

/-! ### Entries -/

theorem enclosing_add (table : SymbolTable) (name : String) (entry : Entry) :
    (table.add name entry).enclosing = table.enclosing := by
  unfold SymbolTable.add
  split <;> rfl

theorem forwards_add (table : SymbolTable) (name : String) (entry : Entry) :
    (table.add name entry).forwards = table.forwards := by
  unfold SymbolTable.add
  split <;> rfl

theorem lookup_cons_of {table : Table} {name : String} {entry : Entry} {holds : Entry → Prop}
    (all : ∀ other found, table.lookup other = some found → holds found) (new : holds entry) :
    ∀ other found, ((name, entry) :: table : Table).lookup other = some found → holds found := by
  intro other found isFound
  rw [List.lookup_cons] at isFound
  split at isFound
  · obtain rfl := Option.some.inj isFound
    exact new
  · exact all other found isFound

theorem Sound.add (sound : state.Sound pending) (name : String) {entry : Entry}
    (entrySound : entry.Sound state.builder.ir state.slots) :
    { state with symbols := state.symbols.add name entry }.Sound pending := by
  cases isEnclosing : state.symbols.enclosing with
  | some enclosing =>
      have added : state.symbols.add name entry =
          { state.symbols with locals := (name, entry) :: state.symbols.locals } := by
        simp [SymbolTable.add, isEnclosing]
      rw [added]
      exact ⟨sound.functions, sound.support, sound.globals, sound.forwards,
        lookup_cons_of sound.locals entrySound, sound.enclosing, sound.undefined, sound.distinct⟩
  | none =>
      have added : state.symbols.add name entry =
          { state.symbols with globals := (name, entry) :: state.symbols.globals } := by
        simp [SymbolTable.add, isEnclosing]
      have noSlots : state.slots = [] := by simp [slots, current?, isEnclosing]
      rw [noSlots] at entrySound
      rw [added]
      refine ⟨sound.functions, sound.support, lookup_cons_of sound.globals entrySound,
        sound.forwards, sound.locals, ?_, ?_, sound.distinct⟩
      · intro enclosing isSome
        simp [isEnclosing] at isSome
      · intro other found isFound isUndefined
        refine sound.undefined other found isFound ?_
        simp only [Table.has, List.lookup_cons] at isUndefined ⊢
        split at isUndefined
        · simp at isUndefined
        · exact isUndefined

theorem Sound.addGlobal (sound : state.Sound pending) (name : String) (content : IR.Content)
    (constant : Bool) (linkage : IR.Linkage) :
    { state with
      builder := (IR.Build.addGlobal name content constant linkage state.builder).2 }.Sound
        pending := by
  have within : state.builder.ir.Within
      (IR.Build.addGlobal name content constant linkage state.builder).2.ir := by
    refine ⟨?_, fun id function isFunction => ⟨function, isFunction, rfl, rfl, rfl⟩⟩
    change state.builder.ir.globals.size ≤ (state.builder.ir.globals.push _).size
    simp
  exact ⟨fun id function isFunction => (sound.functions id function isFunction).within within,
    sound.support.within within,
    fun other entry isEntry => (sound.globals other entry isEntry).within within (by simp),
    fun other entry isEntry => (sound.forwards other entry isEntry).within within (by simp),
    fun other entry isEntry => (sound.locals other entry isEntry).within within fun _ isSlot => isSlot,
    sound.enclosing, sound.undefined, sound.distinct⟩

theorem Ready.addSlot {id : IR.FunctionId} (ready : state.Ready ⟨id, 0⟩ pending) (name : String)
    {function : IR.Function} (isFunction : state.builder.ir.functions[id]? = some function) :
    { state with builder := state.builder.modifyFunction id (·.addSlot name) }.Ready ⟨id, 0⟩
        pending ∧
      function.registers ∈
        { state with builder := state.builder.modifyFunction id (·.addSlot name) }.slots := by
  obtain ⟨same, isSame, growing⟩ := ready.function
  obtain rfl := Option.some.inj (isFunction.symm.trans isSame)
  obtain ⟨entry, isEntry, -⟩ := ready.block isFunction
  have sound : { state with builder := state.builder.modifyFunction id (·.addSlot name) }.Sound
      (0 :: pending) :=
    ready.sound.modified ready.isCurrent isFunction (IR.Function.within_addSlot isEntry) rfl
      (growing.addSlot (by simp) name)
  have ready' : { state with builder := state.builder.modifyFunction id (·.addSlot name) }.Ready
      ⟨id, 0⟩ pending := ⟨ready.insertPoint, ready.enclosing, sound⟩
  have isNew : (state.builder.modifyFunction id (·.addSlot name)).ir.functions[id]? =
      some (function.addSlot name) := by
    simp [Builder.functions_modifyFunction, isFunction]
  refine ⟨ready', ?_⟩
  rw [ready'.slots isNew]
  exact (IR.Function.slots_addSlot isEntry).mem_iff.2 (by simp)

end Lowering

namespace Lower

variable {state : Lowering}

structure Keeps (id? : Option IR.FunctionId) (state state' : Lowering) : Prop where
  declares : state'.Declares id?
  outer : id?.isSome → state.SameOuter state'
  support : state'.support = state.support
  around : state.builder.Around id? state'.builder

theorem Keeps.refl {id? : Option IR.FunctionId} (declares : state.Declares id?) :
    Keeps id? state state :=
  ⟨declares, fun _ => .refl state, rfl, .refl _ _⟩

theorem Keeps.trans {id? : Option IR.FunctionId} {first second third : Lowering}
    (h₁ : Keeps id? first second) (h₂ : Keeps id? second third) : Keeps id? first third :=
  ⟨h₂.declares, fun isSome => (h₁.outer isSome).trans (h₂.outer isSome),
    h₂.support.trans h₁.support, h₁.around.trans h₂.around⟩

theorem keeps_add {id? : Option IR.FunctionId} (declares : state.Declares id?) (name : String)
    {entry : Entry} (sound : entry.Sound state.builder.ir state.slots) :
    Keeps id? state { state with symbols := state.symbols.add name entry } := by
  cases id? with
  | none =>
      obtain ⟨isNone, states⟩ := declares
      exact ⟨⟨by rw [Lowering.enclosing_add, isNone], states.add name sound⟩, by simp, rfl,
        .refl _ _⟩
  | some id =>
      obtain ⟨name', isEnclosing⟩ := declares.enclosing
      refine ⟨⟨declares.insertPoint, ⟨name', ?_⟩, declares.sound.add name sound⟩, fun _ => ?_, rfl,
        .refl _ _⟩
      · rw [Lowering.enclosing_add, isEnclosing]
      · refine ⟨?_, Lowering.forwards_add _ _ _, Lowering.enclosing_add _ _ _⟩
        simp [SymbolTable.add, isEnclosing]

theorem keeps_addGlobal {id? : Option IR.FunctionId} (declares : state.Declares id?) (name : String)
    (content : IR.Content) (constant : Bool) (linkage : IR.Linkage) :
    Keeps id? state { state with
      builder := (IR.Build.addGlobal name content constant linkage state.builder).2 } := by
  have around : state.builder.Around id? _ :=
    (IR.Builder.around_addGlobal state.builder name content constant linkage).forget
  cases id? with
  | none => exact ⟨⟨declares.1, declares.2.addGlobal _ _ _ _⟩, by simp, rfl, around⟩
  | some id =>
      exact ⟨⟨declares.insertPoint, declares.enclosing, declares.sound.addGlobal _ _ _ _⟩,
        fun _ => ⟨rfl, rfl, rfl⟩, rfl, around⟩

theorem keeps_declareGlobal {id? : Option IR.FunctionId} (declares : state.Declares id?)
    (name : String) (content : IR.Content) (isConstant : Bool) (linkage : IR.Linkage)
    (shape : Shape) (constant : Option Int32) (position : Position) :
    Keeps id? state { state with
      symbols := state.symbols.add name
        ⟨shape, .address (.global state.builder.ir.globals.size), constant, position⟩
      builder := (IR.Build.addGlobal name content isConstant linkage state.builder).2 } := by
  have added := keeps_addGlobal declares name content isConstant linkage
  refine added.trans (keeps_add added.1 name ?_)
  change state.builder.ir.globals.size < (state.builder.ir.globals.push _).size
  simp

theorem keeps_declareVariable {id? : Option IR.FunctionId} (declares : state.Declares id?)
    (shape : Shape) (position : Position) (name : String) :
    Ensures (declareVariable shape position name) (fun _ => Keeps id? state) state := by
  refine ensures_declareVariable fun action notTaken room => ?_
  cases room with
  | array inOrder => exact keeps_declareGlobal declares name _ _ _ _ _ _
  | word isOutside => exact keeps_declareGlobal declares name _ _ _ _ _ _
  | slot isInside =>
      cases id? with
      | none =>
          rw [declares.1] at isInside
          cases isInside
      | some id =>
          obtain ⟨function, isFunction, -⟩ := declares.function
          rw [IR.Build.alloca_eq name declares.insertPoint isFunction]
          obtain ⟨ready, isSlot⟩ := declares.addSlot name isFunction
          have added : Keeps (some id) state
              { state with builder := state.builder.modifyFunction id (·.addSlot name) } :=
            ⟨ready, fun _ => ⟨rfl, rfl, rfl⟩, rfl, state.builder.around_modifyFunction id
              (fun _ => rfl) fun function => by simp [IR.Function.addSlot]⟩
          exact added.trans (keeps_add added.1 name isSlot)

theorem keeps_forM {id? : Option IR.FunctionId} {α : Type} {items : List α} {action : α → Lower Unit}
    (h : ∀ item state, state.Declares id? → Ensures (action item) (fun _ => Keeps id? state) state)
    (declares : state.Declares id?) :
    Ensures (items.forM action) (fun _ => Keeps id? state) state := by
  induction items generalizing state with
  | nil => exact ensures_pure.2 (.refl declares)
  | cons first others ih =>
      change Ensures (action first >>= fun _ => others.forM action) _ state
      rw [ensures_bind]
      refine (h first state declares).mono fun _ state₁ keeps₁ => ?_
      exact (ih keeps₁.1).mono fun _ state₂ keeps₂ => keeps₁.trans keeps₂

theorem ensures_shape (type : DataType) (fits : type.Fits) :
    Ensures (shape type) (fun shape state' => state' = state ∧
      match type with
      | .integer => shape = .integer
      | .array low high => ∃ first last, shape = .array first last ∧
          low.constant? state.symbols.constant? = some first ∧
          high.constant? state.symbols.constant? = some last) state := by
  cases type with
  | integer => simp [shape]
  | array low high =>
      rw [shape, ensures_bind]
      refine (ensures_constantValue low fits.1 state).mono ?_
      rintro first _ ⟨rfl, isFirst⟩
      rw [ensures_bind]
      refine (ensures_constantValue high fits.2 _).mono ?_
      rintro last _ ⟨rfl, isLast⟩
      exact ensures_pure.2 ⟨rfl, first, last, rfl, isFirst, isLast⟩

theorem keeps_storage {id? : Option IR.FunctionId} {declaration : Statement}
    (isStorage : declaration.IsStorage) (declares : state.Declares id?) :
    Ensures (statement declaration) (fun ending state' => ending = none ∧ Keeps id? state state')
      state := by
  cases declaration with
  | vars group =>
      simp only [statement, vars, ensures_bind, ensures_pure, true_and]
      refine (ensures_shape group.type isStorage.2.2).mono ?_
      rintro shape _ ⟨rfl, -⟩
      exact keeps_forM (fun name state declares => keeps_declareVariable declares shape _ name) declares
  | constant name value position =>
      simp only [statement, constantDeclaration, ensures_bind, ensures_pure, true_and]
      refine (ensures_constantValue value isStorage.2 state).mono ?_
      rintro value _ ⟨rfl, -⟩
      exact ensures_declareConstant fun _ => keeps_declareGlobal declares name _ _ _ _ _ _
  | _ => exact isStorage.elim

theorem ensures_statements_append {declarations others : List Statement}
    {post : Option Ending → Lowering → Prop} {id? : Option IR.FunctionId}
    (areStorage : ∀ declaration ∈ declarations, declaration.IsStorage)
    (declares : state.Declares id?)
    (h : ∀ state', Keeps id? state state' → Ensures (statements others) post state') :
    Ensures (statements (declarations ++ others)) post state := by
  induction declarations generalizing state with
  | nil => exact h state (.refl declares)
  | cons first rest ih =>
      rw [List.cons_append, statements, ensures_bind]
      refine (keeps_storage (areStorage first (by simp)) declares).mono ?_
      rintro _ state₁ ⟨rfl, keeps₁⟩
      exact ih (fun declaration isIn => areStorage declaration (by simp [isIn])) keeps₁.1
        fun state₂ keeps₂ => h state₂ (keeps₁.trans keeps₂)

end Lower

end MiniPascal
