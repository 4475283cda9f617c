import MiniPascal.Proofs.Lowering.Tables

/-!
# Histories of a symbol table

What a symbol table holds after any operations in any order, failed ones among them, and whatever is
built in between.  Scopes may be entered twice, and left without having been entered.
-/

namespace MiniPascal

namespace SymbolTable

/-! ### Operations -/

inductive Operation where
  | enter (function : IR.FunctionId) (name : String)
  | leave
  | var (name : String) (shape : Shape) (position : Position)
  | const (name : String) (value : Int32) (position : Position)
  | callable (name : String) (shape : Shape) (storage : Storage) (position : Position)
  | forward (name : String) (shape : Shape) (storage : Storage) (position : Position)
  | build (action : IR.Build Unit)

inductive Scope where
  | locals
  | forwards
  | globals
  deriving Repr, DecidableEq

def entries (table : SymbolTable) : Scope → Table
  | .locals => table.locals
  | .forwards => table.forwards
  | .globals => table.globals

def currentScope (isLocal : Bool) : Scope := if isLocal then .locals else .globals

def visible (isLocal : Bool) : List Scope :=
  if isLocal then [.locals, .forwards, .globals] else [.forwards, .globals]

namespace Operation

def run : Operation → Lower Unit
  | enter function name => Lower.modifySymbols (·.enter function name)
  | leave => Lower.modifySymbols (·.leave)
  | var name shape position => Lower.declareVariable shape position name
  | const name value position => Lower.declareConstant name value position
  | callable name shape storage position => Lower.declareCallable name shape storage position
  | forward name shape storage position => Lower.declareForward name shape storage position
  | build action => Lower.build action

def Succeeds (operation : Operation) (state : Lowering) : Prop :=
  ∃ state', operation.run state = .ok () state'

/-- The state that is left behind, also by an operation that fails. -/
def after (operation : Operation) (state : Lowering) : Lowering :=
  match operation.run state with
  | .ok _ state' | .error _ state' => state'

def target? (isLocal : Bool) : Operation → Option (Scope × String)
  | var name _ _ | const name _ _ | callable name _ _ _ => some (currentScope isLocal, name)
  | forward name _ _ _ => some (.forwards, name)
  | enter _ _ | leave | build _ => none

/-- A variable is an integer, or an array whose bounds are in order. -/
def Fits : Operation → Prop
  | var _ .integer _ => True
  | var _ (.array low high) _ => low < high
  | var _ (.callable _ _) _ => False
  | _ => True

/-- The entries that a declaration may make. -/
def Makes : Operation → Entry → Prop
  | var _ shape position, entry => ∃ pointer, entry = ⟨shape, .address pointer, none, position⟩
  | const _ value position, entry =>
      ∃ pointer, entry = ⟨.integer, .address pointer, some value, position⟩
  | callable _ shape storage position, entry | forward _ shape storage position, entry =>
      entry = ⟨shape, storage, none, position⟩
  | enter _ _, _ | leave, _ | build _, _ => False

def scopeAfter (isLocal : Bool) : Operation → Bool
  | enter _ _ => true
  | leave => false
  | _ => isLocal

end Operation

def afterAll (history : List Operation) (state : Lowering) : Lowering :=
  history.foldl (fun state operation => operation.after state) state

def endsLocal (history : List Operation) : Bool := history.foldl Operation.scopeAfter false

/-! ### Declarations -/

def insert (table : SymbolTable) (scope : Scope) (name : String) (entry : Entry) : SymbolTable :=
  match scope with
  | .locals => { table with locals := (name, entry) :: table.locals }
  | .forwards => { table with forwards := (name, entry) :: table.forwards }
  | .globals => { table with globals := (name, entry) :: table.globals }

variable {table : SymbolTable} {scope : Scope} {name : String} {entry : Entry}

theorem enclosing_insert : (table.insert scope name entry).enclosing = table.enclosing := by
  cases scope <;> rfl

theorem entries_insert : (table.insert scope name entry).entries scope =
    (name, entry) :: table.entries scope := by
  cases scope <;> rfl

theorem entries_insert_of_ne {other : Scope} (different : other ≠ scope) :
    (table.insert scope name entry).entries other = table.entries other := by
  cases scope <;> cases other <;> first | rfl | exact absurd rfl different

theorem lookup_insert_of_ne {other : Scope} {otherName : String}
    (different : (other, otherName) ≠ (scope, name)) :
    ((table.insert scope name entry).entries other).lookup otherName =
      (table.entries other).lookup otherName := by
  by_cases isScope : other = scope
  · subst isScope
    have notName : otherName ≠ name := fun isName => different (by rw [isName])
    rw [entries_insert, List.lookup_cons, beq_false_of_ne notName]
  · rw [entries_insert_of_ne isScope]

theorem current_eq (table : SymbolTable) :
    table.current = table.entries (currentScope table.enclosing.isSome) := by
  rw [current, currentScope]
  split <;> rfl

theorem add_eq (table : SymbolTable) (name : String) (entry : Entry) :
    table.add name entry = table.insert (currentScope table.enclosing.isSome) name entry := by
  rw [add, currentScope]
  split <;> rfl

theorem get?_eq (table : SymbolTable) (name : String) : table.get? name =
    (visible table.enclosing.isSome).findSome? fun scope => (table.entries scope).lookup name := by
  rw [get?, getOuter?, visible]
  split
  · cases isLocal : table.locals.lookup name <;> cases isForward : table.forwards.lookup name <;>
      simp [entries, isLocal, isForward]
  · cases isForward : table.forwards.lookup name <;> simp [entries, isForward]

theorem exists_room_iff (isLocal : Bool) (name : String) (shape : Shape) (position : Position) :
    (∃ action, Lower.Room isLocal name shape action) ↔ (Operation.var name shape position).Fits := by
  constructor
  · rintro ⟨action, room⟩
    cases room with
    | slot _ | word _ => exact trivial
    | array inOrder => exact inOrder
  · intro fits
    cases shape with
    | integer =>
        cases isLocal with
        | true => exact ⟨_, .slot rfl⟩
        | false => exact ⟨_, .word rfl⟩
    | array low high => exact ⟨_, .array fits⟩
    | callable parameters returnsValue => exact fits.elim

namespace Operation

open Lower (allocate ask modifySymbols build_eq ask_of_ok ask_of_error)

variable {state : Lowering} {operation : Operation} {scope : Scope} {name : String}

def Adds (state : Lowering) (scope : Scope) (name : String) (makes : Entry → Prop) (holds : Prop)
    (action : Lower Unit) : Prop :=
  (holds ∧ ∃ entry builder, makes entry ∧ action state =
    .ok () { state with symbols := state.symbols.insert scope name entry, builder := builder }) ∨
  (¬ holds ∧ ∃ error, action state = .error error state)

theorem Adds.behind_check {check : SymbolTable → Except SemanticError Unit} {next : Unit → Lower Unit}
    {makes : Entry → Prop} {holds : Prop} {taken : Bool} {error : SemanticError}
    (isCheck : check state.symbols = if taken then .error error else .ok ())
    (adds : Adds state scope name makes holds (next ())) :
    Adds state scope name makes (taken = false ∧ holds) (ask check >>= next) := by
  cases taken with
  | false =>
      rw [Adds, bind_of_ok _ (ask_of_ok isCheck)]
      exact adds.imp (fun found => ⟨⟨rfl, found.1⟩, found.2⟩)
        fun refused => ⟨fun both => refused.1 both.2, refused.2⟩
  | true =>
      exact .inr ⟨fun both => Bool.noConfusion both.1, error, bind_of_error _ (ask_of_error isCheck)⟩

theorem Adds.behind_notDeclared {next : Unit → Lower Unit} {makes : Entry → Prop} {holds : Prop}
    (position : Position)
    (adds : Adds state (currentScope state.symbols.enclosing.isSome) name makes holds (next ())) :
    Adds state (currentScope state.symbols.enclosing.isSome) name makes
      ((state.symbols.entries (currentScope state.symbols.enclosing.isSome)).has name = false ∧ holds)
      (ask (·.notDeclared name position) >>= next) := by
  rw [← current_eq]
  exact behind_check rfl adds

theorem adds_add {makes : Entry → Prop} {entry : Entry} (isMade : makes entry) :
    Adds state (currentScope state.symbols.enclosing.isSome) name makes True
      (modifySymbols (·.add name entry)) := by
  refine .inl ⟨trivial, entry, state.builder, isMade, ?_⟩
  rw [← add_eq]
  rfl

theorem build_then_add (name : String) (action : IR.Build IR.Operand) (entry : IR.Operand → Entry) :
    (do
      let pointer ← Lower.build action
      modifySymbols (·.add name (entry pointer))) state =
    .ok () { state with
      symbols := state.symbols.insert (currentScope state.symbols.enclosing.isSome) name
        (entry (action state.builder).1)
      builder := (action state.builder).2 } := by
  rw [bind_of_ok _ (build_eq action state), ← add_eq]
  rfl

theorem adds_build {makes : Entry → Prop} {action : IR.Build IR.Operand}
    {entry : IR.Operand → Entry} (isMade : ∀ pointer, makes (entry pointer)) :
    Adds state (currentScope state.symbols.enclosing.isSome) name makes True (do
      let pointer ← Lower.build action
      modifySymbols (·.add name (entry pointer))) :=
  .inl ⟨trivial, _, _, isMade _, build_then_add name action entry⟩

theorem adds_allocate (shape : Shape) (position : Position) :
    Adds state (currentScope state.symbols.enclosing.isSome) name
      (var name shape position).Makes (var name shape position).Fits (do
        let pointer ← allocate name shape position
        modifySymbols (·.add name ⟨shape, .address pointer, none, position⟩)) := by
  have room := exists_room_iff state.symbols.enclosing.isSome name shape position
  rcases Lower.allocate_cases name shape position state with
    ⟨action, isRoom, isBuild⟩ | ⟨noRoom, error, isError⟩
  · have isRun := (bind_congr_left isBuild).trans
      (build_then_add name action fun pointer => ⟨shape, .address pointer, none, position⟩)
    exact .inl ⟨room.1 ⟨action, isRoom⟩, _, _, ⟨_, rfl⟩, isRun⟩
  · refine .inr ⟨fun fits => ?_, error, bind_of_error _ isError⟩
    obtain ⟨action, isRoom⟩ := room.2 fits
    exact noRoom action isRoom

/-- A declaration that finds its name free and fits adds one entry.  Any other changes nothing: it
looks before it makes room, and makes room before it adds its entry. -/
theorem adds_run (isTarget : operation.target? state.symbols.enclosing.isSome = some (scope, name)) :
    Adds state scope name operation.Makes
      ((state.symbols.entries scope).has name = false ∧ operation.Fits) operation.run := by
  cases operation with
  | enter _ _ | leave | build _ => cases isTarget
  | var name shape position =>
      obtain ⟨rfl, rfl⟩ := Prod.mk.inj (Option.some.inj isTarget)
      exact Adds.behind_notDeclared position (adds_allocate shape position)
  | const name value position =>
      obtain ⟨rfl, rfl⟩ := Prod.mk.inj (Option.some.inj isTarget)
      exact Adds.behind_notDeclared position (adds_build fun pointer => ⟨pointer, rfl⟩)
  | callable name shape storage position =>
      obtain ⟨rfl, rfl⟩ := Prod.mk.inj (Option.some.inj isTarget)
      exact Adds.behind_notDeclared position (adds_add rfl)
  | forward name shape storage position =>
      obtain ⟨rfl, rfl⟩ := Prod.mk.inj (Option.some.inj isTarget)
      exact Adds.behind_check rfl (.inl ⟨trivial, _, state.builder, rfl, rfl⟩)

theorem succeeds_iff
    (isTarget : operation.target? state.symbols.enclosing.isSome = some (scope, name)) :
    operation.Succeeds state ↔ (state.symbols.entries scope).has name = false ∧ operation.Fits := by
  rcases adds_run isTarget with ⟨both, entry, builder, -, isOk⟩ | ⟨notBoth, error, isError⟩
  · exact ⟨fun _ => both, fun _ => ⟨_, isOk⟩⟩
  · refine ⟨fun ⟨_, isOk⟩ => ?_, fun both => absurd both notBoth⟩
    rw [isError] at isOk
    cases isOk

theorem exists_of_succeeds
    (isTarget : operation.target? state.symbols.enclosing.isSome = some (scope, name))
    (succeeds : operation.Succeeds state) : ∃ entry builder, operation.Makes entry ∧
      operation.after state =
        { state with symbols := state.symbols.insert scope name entry, builder := builder } := by
  have both := (succeeds_iff isTarget).1 succeeds
  rcases adds_run isTarget with ⟨-, entry, builder, isMade, isOk⟩ | ⟨notBoth, -⟩
  · exact ⟨entry, builder, isMade, by rw [after, isOk]⟩
  · exact absurd both notBoth

theorem succeeds_of_target?_eq_none {isLocal : Bool} (noTarget : operation.target? isLocal = none) :
    operation.Succeeds state := by
  cases operation with
  | enter _ _ | leave | build _ => exact ⟨_, rfl⟩
  | _ => cases noTarget

theorem after_of_not_succeeds (fails : ¬ operation.Succeeds state) : operation.after state = state := by
  cases isTarget : operation.target? state.symbols.enclosing.isSome with
  | none => exact absurd (succeeds_of_target?_eq_none isTarget) fails
  | some target =>
      rcases adds_run isTarget with ⟨both, -⟩ | ⟨-, error, isError⟩
      · exact absurd ((succeeds_iff isTarget).2 both) fails
      · rw [after, isError]

/-! ### Steps -/

inductive Step (before : SymbolTable) : Operation → SymbolTable → Prop where
  | enter (function : IR.FunctionId) (name : String) :
      Step before (.enter function name) (before.enter function name)
  | leave : Step before .leave before.leave
  | same {operation : Operation} :
      operation.scopeAfter before.enclosing.isSome = before.enclosing.isSome →
        Step before operation before
  | adds {operation : Operation} {scope : Scope} {name : String} (entry : Entry) :
      operation.target? before.enclosing.isSome = some (scope, name) →
        (before.entries scope).has name = false → Step before operation (before.insert scope name entry)

theorem step_after (operation : Operation) (state : Lowering) :
    Step state.symbols operation (operation.after state).symbols := by
  by_cases succeeds : operation.Succeeds state
  · cases isTarget : operation.target? state.symbols.enclosing.isSome with
    | some target =>
        obtain ⟨entry, builder, -, isAfter⟩ := exists_of_succeeds isTarget succeeds
        rw [isAfter]
        exact .adds entry isTarget ((succeeds_iff isTarget).1 succeeds).1
    | none =>
        cases operation with
        | enter function name => exact .enter function name
        | leave => exact .leave
        | build action => exact .same rfl
        | _ => cases isTarget
  · rw [after_of_not_succeeds succeeds]
    refine .same ?_
    cases operation with
    | enter _ _ | leave => exact absurd ⟨_, rfl⟩ succeeds
    | _ => rfl

end Operation

variable {before after : SymbolTable} {operation : Operation}

namespace Operation.Step

theorem enclosing (step : Step before operation after) :
    after.enclosing.isSome = operation.scopeAfter before.enclosing.isSome := by
  cases step with
  | enter _ _ | leave => rfl
  | same isSame => exact isSame.symm
  | adds entry isTarget =>
      rw [enclosing_insert]
      cases operation with
      | enter _ _ | leave => cases isTarget
      | _ => rfl

theorem locals (step : Step before operation after)
    (noLocals : before.enclosing = none → before.locals = []) :
    after.enclosing = none → after.locals = [] := by
  cases step with
  | enter _ _ => nofun
  | leave => exact fun _ => rfl
  | same _ => exact noLocals
  | @adds _ scope name entry isTarget =>
      intro isGlobal
      rw [enclosing_insert] at isGlobal
      rw [isGlobal] at isTarget
      have notLocals : Scope.locals ≠ scope := by
        rintro rfl
        cases operation <;> cases isTarget
      exact (entries_insert_of_ne notLocals).trans (noLocals isGlobal)

/-- Only leaving a scope takes an entry away, and none is replaced. -/
theorem lookup (step : Step before operation after) {scope : Scope} {name : String} {entry : Entry}
    (stays : scope = .locals → operation ≠ .leave)
    (isEntry : (before.entries scope).lookup name = some entry) :
    (after.entries scope).lookup name = some entry := by
  cases step with
  | enter _ _ => cases scope <;> exact isEntry
  | leave =>
      cases scope with
      | locals => exact absurd rfl (stays rfl)
      | forwards | globals => exact isEntry
  | same _ => exact isEntry
  | @adds _ other otherName new _ isFree =>
      by_cases isSame : scope = other
      · subst isSame
        rw [entries_insert]
        exact Table.lookup_cons_of_has isFree isEntry
      · rw [entries_insert_of_ne isSame]
        exact isEntry

end Operation.Step

/-! ### Runs -/

theorem enclosing_afterAll (history : List Operation) (state : Lowering) :
    (afterAll history state).symbols.enclosing.isSome =
      history.foldl Operation.scopeAfter state.symbols.enclosing.isSome := by
  induction history generalizing state with
  | nil => rfl
  | cons first others ih =>
      rw [List.foldl_cons, ← (first.step_after state).enclosing]
      exact ih (first.after state)

theorem locals_afterAll (history : List Operation) {state : Lowering}
    (noLocals : state.symbols.enclosing = none → state.symbols.locals = []) :
    (afterAll history state).symbols.enclosing = none →
      (afterAll history state).symbols.locals = [] := by
  induction history generalizing state with
  | nil => exact noLocals
  | cons first others ih => exact ih ((first.step_after state).locals noLocals)

theorem lookup_afterAll (history : List Operation) {state : Lowering} {scope : Scope} {name : String}
    {entry : Entry} (stays : scope = .locals → .leave ∉ history)
    (isEntry : (state.symbols.entries scope).lookup name = some entry) :
    ((afterAll history state).symbols.entries scope).lookup name = some entry := by
  induction history generalizing state with
  | nil => exact isEntry
  | cons first others ih =>
      refine ih (fun isLocal => fun isIn => stays isLocal (List.mem_cons_of_mem _ isIn)) ?_
      refine (first.step_after state).lookup (fun isLocal => ?_) isEntry
      rintro rfl
      exact stays isLocal List.mem_cons_self

/-- The rules of scoping, for an operation behind a history. -/
structure Scoping (history : List Operation) (operation : Operation) (before after : Lowering) :
    Prop where
  /-- A declaration succeeds exactly if its name is new to the table it goes to, and it fits. -/
  succeeds : ∀ scope name, operation.target? (endsLocal history) = some (scope, name) →
    (operation.Succeeds before ↔
      (before.symbols.entries scope).has name = false ∧ operation.Fits)
  /-- What fails changes nothing, neither in the tables nor in the builder. -/
  fails : ¬ operation.Succeeds before → after = before
  /-- What succeeds adds the entry of its name, and leaves all others as they were. -/
  adds : ∀ scope name, operation.target? (endsLocal history) = some (scope, name) →
    operation.Succeeds before →
      (∃ entry, operation.Makes entry ∧ (after.symbols.entries scope).lookup name = some entry) ∧
      ∀ other otherName, (other, otherName) ≠ (scope, name) →
        (after.symbols.entries other).lookup otherName =
          (before.symbols.entries other).lookup otherName
  /-- Entering a scope keeps all entries, and leaving it drops the locals. -/
  enters : ∀ function name, operation = .enter function name → operation.Succeeds before ∧
    ∀ scope, after.symbols.entries scope = before.symbols.entries scope
  leaves : operation = .leave → operation.Succeeds before ∧
    ∀ scope, after.symbols.entries scope =
      if scope = .locals then [] else before.symbols.entries scope
  /-- A name is looked up in one table after the other, among the locals only in local scope. -/
  looksUp : ∀ name, before.symbols.get? name =
    (visible (endsLocal history)).findSome? fun scope => (before.symbols.entries scope).lookup name
  noLocals : endsLocal history = false → before.symbols.entries .locals = []
  /-- No entry is ever replaced, and none disappears but the locals when their scope is left. -/
  keeps : ∀ later scope name entry, (scope = .locals → .leave ∉ later) →
    (before.symbols.entries scope).lookup name = some entry →
      ((afterAll later before).symbols.entries scope).lookup name = some entry

/-- Behind any history, any operation keeps to the rules. -/
theorem scoping_afterAll (history : List Operation) (operation : Operation) (state : Lowering) :
    let before := afterAll history { state with symbols := .empty }
    Scoping history operation before (operation.after before) := by
  intro before
  have isScope : before.symbols.enclosing.isSome = endsLocal history := enclosing_afterAll history _
  constructor
  case succeeds =>
    intro scope name isTarget
    rw [← isScope] at isTarget
    exact Operation.succeeds_iff isTarget
  case fails => exact Operation.after_of_not_succeeds
  case adds =>
    intro scope name isTarget succeeds
    rw [← isScope] at isTarget
    obtain ⟨entry, builder, isMade, isAfter⟩ := Operation.exists_of_succeeds isTarget succeeds
    rw [isAfter]
    refine ⟨⟨entry, isMade, ?_⟩, fun other otherName different => lookup_insert_of_ne different⟩
    rw [entries_insert]
    exact List.lookup_cons_self
  case enters =>
    rintro function name rfl
    exact ⟨⟨_, rfl⟩, fun scope => by cases scope <;> rfl⟩
  case leaves =>
    rintro rfl
    exact ⟨⟨_, rfl⟩, fun scope => by cases scope <;> rfl⟩
  case looksUp =>
    intro name
    rw [← isScope]
    exact get?_eq _ _
  case noLocals =>
    intro isGlobal
    rw [← isScope] at isGlobal
    exact locals_afterAll history (fun _ => rfl)
      (Option.isNone_iff_eq_none.1 (Option.isSome_eq_false_iff.1 isGlobal))
  case keeps =>
    intro later scope name entry
    exact lookup_afterAll later

/-- A local name hides a global one, and the same name is refused a second time. -/
example : ((afterAll [.const "x" 1 .nowhere, .enter 0 "f", .const "x" 2 .nowhere,
    .const "x" 3 .nowhere] ⟨.new "m", .empty, [], default⟩).symbols.get? "x").bind (·.constant) =
      some 2 := by
  decide +kernel

end SymbolTable

end MiniPascal
