import MiniPascal.Lowering.Statement
import MiniPascal.Proofs.Ensures
import MiniPascal.Proofs.IR.Emission

/-!
# Straight-line translation

Expressions are translated by steps that stay in one block: they look names up and append code, and
change nothing else.
-/

namespace MiniPascal

open IR (BlockId Builder Build Operand Instruction)

variable {α β : Type}

namespace SymbolTable

variable {table : SymbolTable} {name : String} {position : Position} {entry : Entry}

@[simp] theorem declared_eq_ok :
    table.declared name position = .ok entry ↔ table.get? name = some entry := by
  unfold declared
  cases table.get? name <;> simp

@[simp] theorem constant_eq_ok : table.constant name position = .ok entry ↔
    table.get? name = some entry ∧ entry.constant.isSome := by
  unfold constant declared
  cases table.get? name with
  | none => simp
  | some other =>
      cases isConstant : other.constant <;> simp [isConstant]
      all_goals
        rintro rfl
        simp [isConstant]

@[simp] theorem notConstant_eq_ok : table.notConstant name position = .ok entry ↔
    table.get? name = some entry ∧ entry.constant = none := by
  unfold notConstant declared
  cases table.get? name with
  | none => simp
  | some other =>
      cases isConstant : other.constant <;> simp [isConstant]
      all_goals
        rintro rfl
        simp [isConstant]

end SymbolTable

namespace IR.Build

/-- A building step that stays at the insert point. -/
def IsStraight (action : Build α) : Prop :=
  ∀ builder : Builder, (action builder).2.insertPoint = builder.insertPoint ∧
    ∀ here, builder.insertPoint = some here → builder.Grows here (action builder).2

theorem isStraight_pure (a : α) : IsStraight (pure a) := fun builder =>
  ⟨rfl, fun here _ => .refl here builder⟩

theorem IsStraight.bind {action : Build α} {next : α → Build β} (h₁ : action.IsStraight)
    (h₂ : ∀ a, (next a).IsStraight) : IsStraight (action >>= next) := by
  intro builder
  obtain ⟨same₁, grows₁⟩ := h₁ builder
  obtain ⟨same₂, grows₂⟩ := h₂ (action builder).1 (action builder).2
  refine ⟨same₂.trans same₁, fun here isHere => ?_⟩
  exact (grows₁ here isHere).trans (grows₂ here (same₁.trans isHere))

theorem isStraight_get : IsStraight (get : Build Builder) := fun builder =>
  ⟨rfl, fun here _ => .refl here builder⟩

theorem isStraight_freshRegister : IsStraight freshRegister := by
  intro builder
  cases isHere : builder.insertPoint with
  | none =>
      have same : freshRegister builder = (none, builder) := by
        simp [freshRegister, isHere]
      simp [same, isHere]
  | some here =>
      simp only [freshRegister, bind_apply, get_apply, pure_apply, set_apply, isHere,
        Option.some.injEq]
      refine ⟨isHere, ?_⟩
      rintro _ rfl
      refine builder.grows_modifyFunction fun function => ?_
      exact ⟨rfl, rfl, rfl, rfl, Nat.le_succ _, Nat.le_refl _,
        fun _ block isBlock => ⟨block, isBlock, rfl, List.prefix_rfl, fun _ => rfl⟩⟩

theorem isStraight_emit (instruction : Instruction) : IsStraight (emit instruction) := by
  intro builder
  cases isHere : builder.insertPoint with
  | none => simp [emit, isHere]
  | some here =>
      rw [emit_eq instruction isHere]
      refine ⟨isHere, ?_⟩
      rintro _ ⟨⟩
      exact builder.grows_modifyFunction fun function => function.grows_push _ _ _

theorem isStraight_emitValue (instruction : IR.Register → Instruction) :
    IsStraight (emitValue instruction) := by
  refine isStraight_freshRegister.bind fun register? => ?_
  cases register? with
  | none => exact isStraight_pure _
  | some register => exact (isStraight_emit _).bind fun _ => isStraight_pure _

theorem isStraight_arith (op : IR.ArithOp) (left right : Operand) :
    IsStraight (arith op left right) := by
  unfold arith
  split
  · exact isStraight_pure _
  · exact isStraight_emitValue _

theorem isStraight_compare (predicate : IR.Predicate) (left right : Operand) :
    IsStraight (compare predicate left right) := by
  unfold compare
  split
  · exact isStraight_pure _
  · exact isStraight_emitValue _

theorem isStraight_call (callee : IR.FunctionId) (arguments : List Operand) :
    IsStraight (call callee arguments) := by
  refine isStraight_get.bind fun builder => ?_
  split
  · exact (isStraight_emitValue _).bind fun _ => isStraight_pure _
  · exact (isStraight_emit _).bind fun _ => isStraight_pure _

theorem isStraight_addGlobal (name : String) (content : IR.Content) (constant : Bool)
    (linkage : IR.Linkage) : IsStraight (addGlobal name content constant linkage) := by
  intro builder
  refine ⟨rfl, fun here _ => ⟨?_, fun _ _ => rfl, fun function isFunction => ?_⟩⟩
  · change _ <+: (builder.ir.globals.push _).toList
    simp
  · exact ⟨function, isFunction, .refl _ _⟩

theorem isStraight_binary (op : BinaryOp) (left right : Operand) :
    IsStraight (op.emit left right) := by
  cases op <;> first | exact isStraight_arith _ _ _ | exact isStraight_compare _ _ _

end IR.Build

/-! ### Steps of the translation -/

structure Lowering.Straight (old new : Lowering) : Prop where
  symbols : new.symbols = old.symbols
  exits : new.exits = old.exits
  support : new.support = old.support
  insertPoint : new.builder.insertPoint = old.builder.insertPoint
  grows : ∀ here, old.builder.insertPoint = some here → old.builder.Grows here new.builder

theorem Lowering.Straight.refl (state : Lowering) : state.Straight state :=
  ⟨rfl, rfl, rfl, rfl, fun here _ => .refl here _⟩

theorem Lowering.Straight.trans {first second third : Lowering} (h₁ : first.Straight second)
    (h₂ : second.Straight third) : first.Straight third :=
  ⟨h₂.symbols.trans h₁.symbols, h₂.exits.trans h₁.exits, h₂.support.trans h₁.support,
    h₂.insertPoint.trans h₁.insertPoint, fun here isHere =>
      (h₁.grows here isHere).trans (h₂.grows here (h₁.insertPoint.trans isHere))⟩

namespace Lower

@[simp] theorem ensures_build {action : Build α} {post : α → Lowering → Prop} {state : Lowering} :
    Ensures (build action) post state ↔
      post (action state.builder).1 { state with builder := (action state.builder).2 } := by
  constructor
  · intro h
    exact h _ _ rfl
  · rintro h _ _ ⟨⟩
    exact h

theorem build_eq (action : Build α) (state : Lowering) : build action state =
    .ok (action state.builder).1 { state with builder := (action state.builder).2 } := rfl

theorem ask_of_ok {question : SymbolTable → Except SemanticError α} {state : Lowering} {answer : α}
    (isOk : question state.symbols = .ok answer) : ask question state = .ok answer state := by
  rw [ask, isOk]

theorem ask_of_error {question : SymbolTable → Except SemanticError α} {state : Lowering}
    {error : SemanticError} (isError : question state.symbols = .error error) :
    ask question state = .error error state := by
  rw [ask, isError]

theorem ensures_ask {question : SymbolTable → Except SemanticError α}
    {post : α → Lowering → Prop} {state : Lowering}
    (h : ∀ a, question state.symbols = .ok a → post a state) : Ensures (ask question) post state := by
  intro a state' ok
  unfold ask at ok
  split at ok
  · rename_i isAnswer
    cases ok
    exact h _ isAnswer
  · cases ok

def IsStraight (action : Lower α) : Prop :=
  ∀ state, Ensures action (fun _ state' => state.Straight state') state

theorem isStraight_pure (a : α) : IsStraight (pure a) := fun state => by
  simpa using Lowering.Straight.refl state

theorem isStraight_throw (error : SemanticError) : IsStraight (throw error : Lower α) :=
  fun state => by simp

theorem isStraight_get : IsStraight (get : Lower Lowering) := fun state => by
  simpa using Lowering.Straight.refl state

theorem IsStraight.bind {action : Lower α} {next : α → Lower β} (h₁ : action.IsStraight)
    (h₂ : ∀ a, (next a).IsStraight) : IsStraight (action >>= next) := by
  intro state
  rw [ensures_bind]
  refine (h₁ state).mono fun a state₁ straight₁ => ?_
  exact (h₂ a state₁).mono fun b state₂ straight₂ => straight₁.trans straight₂

theorem isStraight_ask (question : SymbolTable → Except SemanticError α) :
    IsStraight (ask question) :=
  fun state => ensures_ask fun _ _ => .refl state

theorem isStraight_build {action : Build α} (h : action.IsStraight) : IsStraight (build action) := by
  intro state
  rw [ensures_build]
  obtain ⟨same, grows⟩ := h state.builder
  exact ⟨rfl, rfl, rfl, same, grows⟩

/-! ### Declarations -/

theorem ensures_notDeclared {name : String} {position : Position} {post : Unit → Lowering → Prop}
    {state : Lowering} (h : state.symbols.current.has name = false → post () state) :
    Ensures (ask (·.notDeclared name position)) post state := by
  refine ensures_ask fun _ isFree => ?_
  unfold SymbolTable.notDeclared at isFree
  split at isFree
  · cases isFree
  · rename_i notTaken
    exact h (Bool.eq_false_iff.2 notTaken)

theorem ensures_notDeclaredForward {name : String} {position : Position}
    {post : Unit → Lowering → Prop} {state : Lowering}
    (h : state.symbols.forwards.has name = false → post () state) :
    Ensures (ask (·.notDeclaredForward name position)) post state := by
  refine ensures_ask fun _ isFree => ?_
  unfold SymbolTable.notDeclaredForward at isFree
  split at isFree
  · cases isFree
  · rename_i notTaken
    exact h (Bool.eq_false_iff.2 notTaken)

inductive Room (isLocal : Bool) (name : String) : Shape → Build Operand → Prop where
  | slot (isInside : isLocal = true) : Room isLocal name .integer (IR.Build.alloca name)
  | word (isOutside : isLocal = false) :
      Room isLocal name .integer (IR.Build.addGlobal name (.int 0) false .external)
  | array {low high : Int32} (inOrder : low < high) : Room isLocal name (.array low high)
      (IR.Build.addGlobal name (.array (SymbolTable.arrayLength low high)) false .common)

/-- Either there is room for a variable, or nothing is built. -/
theorem allocate_cases (name : String) (shape : Shape) (position : Position) (state : Lowering) :
    (∃ action, Room state.symbols.enclosing.isSome name shape action ∧
      allocate name shape position state = build action state) ∨
    (∀ action, ¬ Room state.symbols.enclosing.isSome name shape action) ∧
      ∃ error, allocate name shape position state = .error error state := by
  cases shape with
  | integer =>
      refine .inl ?_
      rw [allocate, get_bind]
      cases isLocal : state.symbols.enclosing.isSome with
      | true => exact ⟨_, .slot rfl, rfl⟩
      | false => exact ⟨_, .word rfl, rfl⟩
  | array low high =>
      rw [allocate]
      split
      · rename_i inOrder
        exact .inl ⟨_, .array inOrder, rfl⟩
      · rename_i notInOrder
        refine .inr ⟨fun action room => ?_, _, rfl⟩
        cases room with
        | array inOrder => exact notInOrder inOrder
  | callable parameters returnsValue => exact .inr ⟨nofun, _, rfl⟩

/-! What declarations do if they succeed. -/

theorem ensures_declareVariable {shape : Shape} {position : Position} {name : String}
    {post : Unit → Lowering → Prop} {state : Lowering}
    (h : ∀ action, state.symbols.current.has name = false →
      Room state.symbols.enclosing.isSome name shape action →
      post () { state with
        symbols := state.symbols.add name ⟨shape, .address (action state.builder).1, none, position⟩
        builder := (action state.builder).2 }) :
    Ensures (declareVariable shape position name) post state := by
  rw [declareVariable, ensures_bind]
  refine ensures_notDeclared fun notTaken => ?_
  rw [ensures_bind]
  intro pointer state₁ ok
  rcases allocate_cases name shape position state with ⟨action, room, isBuild⟩ | ⟨-, error, isError⟩
  · rw [isBuild] at ok
    cases ok
    rw [modifySymbols, ensures_modify]
    exact h action notTaken room
  · rw [isError] at ok
    cases ok

theorem ensures_declareConstant {name : String} {value : Int32} {position : Position}
    {post : Unit → Lowering → Prop} {state : Lowering}
    (h : state.symbols.current.has name = false →
      post () { state with
        symbols := state.symbols.add name
          ⟨.integer, .address (.global state.builder.ir.globals.size), some value, position⟩
        builder :=
          (IR.Build.addGlobal name (.int value) true .external state.builder).2 }) :
    Ensures (declareConstant name value position) post state := by
  rw [declareConstant, ensures_bind]
  refine ensures_notDeclared fun notTaken => ?_
  rw [ensures_bind, ensures_build, modifySymbols, ensures_modify]
  exact h notTaken

theorem ensures_declareCallable {name : String} {shape : Shape} {storage : Storage}
    {position : Position} {post : Unit → Lowering → Prop} {state : Lowering}
    (h : state.symbols.current.has name = false →
      post () { state with symbols := state.symbols.add name ⟨shape, storage, none, position⟩ }) :
    Ensures (declareCallable name shape storage position) post state := by
  rw [declareCallable, ensures_bind]
  refine ensures_notDeclared fun notTaken => ?_
  rw [modifySymbols, ensures_modify]
  exact h notTaken

theorem ensures_declareForward {name : String} {shape : Shape} {storage : Storage}
    {position : Position} {post : Unit → Lowering → Prop} {state : Lowering}
    (h : state.symbols.forwards.has name = false →
      post () { state with
        symbols := state.symbols.addForward name ⟨shape, storage, none, position⟩ }) :
    Ensures (declareForward name shape storage position) post state := by
  rw [declareForward, ensures_bind]
  refine ensures_notDeclaredForward fun notTaken => ?_
  rw [modifySymbols, ensures_modify]
  exact h notTaken

/-! ### Looking names up -/

theorem declared_of_get? {state : Lowering} {name : String} {entry : Entry}
    (isEntry : state.symbols.get? name = some entry) (position : Position) :
    ask (·.declared name position) state = .ok entry state :=
  ask_of_ok (SymbolTable.declared_eq_ok.2 isEntry)

theorem ensures_declared {name : String} {position : Position} {post : Entry → Lowering → Prop}
    {state : Lowering} (h : ∀ entry, state.symbols.get? name = some entry → post entry state) :
    Ensures (ask (·.declared name position)) post state :=
  ensures_ask fun entry isEntry => h entry (SymbolTable.declared_eq_ok.1 isEntry)

theorem ensures_notConstant {name : String} {position : Position} {post : Entry → Lowering → Prop}
    {state : Lowering} (h : ∀ entry, state.symbols.get? name = some entry → entry.constant = none →
      post entry state) : Ensures (ask (·.notConstant name position)) post state :=
  ensures_ask fun entry isEntry =>
    have ⟨found, notConstant⟩ := SymbolTable.notConstant_eq_ok.1 isEntry
    h entry found notConstant

/-! ### Callables -/

structure Callable (symbols : SymbolTable) (name : String) (arguments : Nat) (used : Bool)
    (storage : Storage) : Prop where
  entry : ∃ entry returnsValue, symbols.get? name = some entry ∧
    entry.shape = .callable arguments returnsValue ∧ entry.storage = storage ∧
    ∀ id, storage = .function id → used → returnsValue
  builtin : ∀ builtin, storage = .builtin builtin → used → builtin.returnsValue
  notAddress : ∀ pointer, storage ≠ .address pointer

theorem ensures_callee (name : String) (arguments : Nat) (position : Position) (used : Bool)
    (state : Lowering) :
    Ensures (callee name arguments position used) (fun storage state' => state' = state ∧
      Callable state.symbols name arguments used storage) state := by
  unfold callee
  rw [ensures_bind]
  refine ensures_declared fun entry isEntry => ?_
  split
  · rename_i parameters returnsValue isShape
    by_cases arity : arguments = parameters
    · subst arity
      simp only [ne_eq, not_true, if_false]
      split
      · rename_i builtin isStorage
        cases used <;> cases builtin <;>
          simp [Builtin.returnsValue] <;>
          exact ⟨⟨entry, returnsValue, isEntry, isShape, isStorage, by simp⟩, by
            rintro _ ⟨⟩; simp [Builtin.returnsValue], by simp⟩
      · rename_i id isStorage
        cases used <;> cases returnsValue <;> simp <;>
          exact ⟨⟨entry, _, isEntry, isShape, isStorage, by simp⟩, by simp, by simp⟩
      · simp
    · simp [arity]
  · simp

end Lower

end MiniPascal
