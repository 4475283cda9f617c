import MiniPascal.Lowering.Statement
import MiniPascal.Tree.Printer
import MiniPascal.Proofs.Ensures
import MiniPascal.Proofs.Tree.Bare

/-!
# Translating trees that differ in positions

Positions go into entries of symbol tables and into errors, and into nothing else that a translation
makes.  `Lower.Same` says that two steps give the same, up to positions, in states that are the same
up to positions; a tree and its bare tree are translated by such steps.
-/

namespace MiniPascal

/-! ### States without positions -/

def Entry.bare (entry : Entry) : Entry := { entry with position := .nowhere }

def Table.bare (table : Table) : Table := table.map (Prod.map id Entry.bare)

def SemanticError.bare : SemanticError → SemanticError
  | undeclared name _ => undeclared name .nowhere
  | redeclared name _ => redeclared name .nowhere
  | assignToConst name _ => assignToConst name .nowhere
  | notConstant what _ => notConstant what .nowhere
  | notCallable name _ => notCallable name .nowhere
  | wrongArity name expected found _ => wrongArity name expected found .nowhere
  | notAnArray name _ => notAnArray name .nowhere
  | arrayAsScalar name _ => arrayAsScalar name .nowhere
  | invalidArrayBounds name low high _ => invalidArrayBounds name low high .nowhere
  | procedureAsValue name _ => procedureAsValue name .nowhere
  | exitAsValue _ => exitAsValue .nowhere
  | outsideCallable what _ => outsideCallable what .nowhere
  | forwardMismatch name _ => forwardMismatch name .nowhere
  | forwardNeverDefined name _ => forwardNeverDefined name .nowhere
  | notAssignable name _ => notAssignable name .nowhere
  | notDecrementable name _ => notDecrementable name .nowhere
  | breakOutsideLoop _ => breakOutsideLoop .nowhere

def Entry.Alike (first second : Entry) : Prop :=
  ∃ position, second = { first with position := position }

theorem Entry.alike_of_bare {first second : Entry} (same : first.bare = second.bare) :
    first.Alike second := by
  obtain ⟨shape, storage, constant, position⟩ := second
  simp only [bare, mk.injEq] at same
  obtain ⟨rfl, rfl, rfl, -⟩ := same
  exact ⟨position, rfl⟩

theorem Entry.Alike.bare {first second : Entry} (alike : first.Alike second) :
    first.bare = second.bare := by
  obtain ⟨position, rfl⟩ := alike
  rfl

namespace Table

theorem lookup_bare (table : Table) (name : String) :
    (Table.bare table).lookup name = (table.lookup name).map Entry.bare := by
  induction table with
  | nil => rfl
  | cons first others ih =>
      obtain ⟨other, entry⟩ := first
      change List.lookup name ((other, entry.bare) :: Table.bare others) = _
      rw [List.lookup_cons, List.lookup_cons, ih]
      cases name == other <;> rfl

variable {first second : Table} (same : Table.bare first = Table.bare second)

include same

theorem lookup_congr (name : String) :
    (first.lookup name).map Entry.bare = (second.lookup name).map Entry.bare := by
  rw [← lookup_bare, ← lookup_bare, same]

theorem has_congr (name : String) : first.has name = second.has name := by
  have lookup := congrArg Option.isSome (lookup_congr same name)
  simpa [Table.has] using lookup

theorem length_congr : first.length = second.length := by
  simpa [Table.bare] using congrArg List.length same

omit same in
theorem bare_cons {first second : Table} (same : Table.bare first = Table.bare second)
    (name : String) {entry entry' : Entry} (alike : entry.Alike entry') :
    Table.bare ((name, entry) :: first) = Table.bare ((name, entry') :: second) := by
  simp only [Table.bare, List.map_cons, Prod.map_apply, id] at same ⊢
  rw [same, alike.bare]

end Table

namespace SymbolTable

structure Alike (first second : SymbolTable) : Prop where
  globals : Table.bare first.globals = Table.bare second.globals
  locals : Table.bare first.locals = Table.bare second.locals
  forwards : Table.bare first.forwards = Table.bare second.forwards
  enclosing : first.enclosing = second.enclosing

variable {first second : SymbolTable} (alike : first.Alike second) (name : String)

include alike

theorem getOuter?_congr :
    (first.getOuter? name).map Entry.bare = (second.getOuter? name).map Entry.bare := by
  rw [getOuter?, getOuter?, Option.map_or, Option.map_or, Table.lookup_congr alike.forwards,
    Table.lookup_congr alike.globals]

theorem get?_congr : (first.get? name).map Entry.bare = (second.get? name).map Entry.bare := by
  rw [get?, get?, alike.enclosing]
  split
  · rw [Option.map_or, Option.map_or, Table.lookup_congr alike.locals, getOuter?_congr alike]
  · exact getOuter?_congr alike name

theorem current_congr : Table.bare first.current = Table.bare second.current := by
  rw [current, current, alike.enclosing]
  split
  · exact alike.locals
  · exact alike.globals

theorem size_congr : first.size = second.size := by
  rw [size, size, Table.length_congr alike.globals, Table.length_congr alike.locals,
    Table.length_congr alike.forwards]

theorem valueName_congr (bound : Nat) : first.valueName bound name = second.valueName bound name := by
  induction bound generalizing name with
  | zero => rfl
  | succ bound ih =>
      have found := get?_congr alike name
      rw [valueName, valueName]
      cases isFirst : first.get? name with
      | none =>
          rw [isFirst, Option.map_none, eq_comm, Option.map_eq_none_iff] at found
          rw [found]
      | some entry =>
          rw [isFirst, Option.map_some, eq_comm, Option.map_eq_some_iff] at found
          obtain ⟨entry', isSecond, same⟩ := found
          obtain ⟨position, rfl⟩ := Entry.alike_of_bare same.symm
          rw [isSecond]
          obtain ⟨shape, storage, constant, _⟩ := entry
          cases shape with
          | callable parameters returnsValue =>
              cases parameters with
              | zero => rfl
              | succ parameters => exact ih (resultName name)
          | _ => rfl

end SymbolTable

structure Lowering.Alike (first second : Lowering) : Prop where
  builder : first.builder = second.builder
  symbols : first.symbols.Alike second.symbols
  exits : first.exits = second.exits
  support : first.support = second.support

theorem Lowering.Alike.symm {first second : Lowering} (alike : first.Alike second) :
    second.Alike first :=
  ⟨alike.builder.symm, ⟨alike.symbols.globals.symm, alike.symbols.locals.symm,
    alike.symbols.forwards.symm, alike.symbols.enclosing.symm⟩, alike.exits.symm,
    alike.support.symm⟩

theorem Lowering.Alike.trans {first second third : Lowering} (h₁ : first.Alike second)
    (h₂ : second.Alike third) : first.Alike third :=
  ⟨h₁.builder.trans h₂.builder, ⟨h₁.symbols.globals.trans h₂.symbols.globals,
    h₁.symbols.locals.trans h₂.symbols.locals, h₁.symbols.forwards.trans h₂.symbols.forwards,
    h₁.symbols.enclosing.trans h₂.symbols.enclosing⟩, h₁.exits.trans h₂.exits,
    h₁.support.trans h₂.support⟩

theorem Lowering.Alike.refl (state : Lowering) : state.Alike state :=
  ⟨rfl, ⟨rfl, rfl, rfl, rfl⟩, rfl, rfl⟩

/-! ### Steps that give the same -/

namespace Lower

variable {α β : Type} {Related : α → α → Prop} {Related' : β → β → Prop}

inductive Matches (Related : α → α → Prop) :
    EStateM.Result SemanticError Lowering α → EStateM.Result SemanticError Lowering α → Prop where
  | ok {a b : α} {state state' : Lowering} (related : Related a b) (alike : state.Alike state') :
      Matches Related (.ok a state) (.ok b state')
  | error {error error' : SemanticError} {state state' : Lowering} (same : error.bare = error'.bare) :
      Matches Related (.error error state) (.error error' state')

def Same (Related : α → α → Prop) (action action' : Lower α) : Prop :=
  ∀ state state' : Lowering, state.Alike state' → Matches Related (action state) (action' state')

variable {action action' : Lower α} {next next' : α → Lower β}

theorem same_pure {a b : α} (related : Related a b) : Same Related (pure a) (pure b) :=
  fun _ _ alike => .ok related alike

theorem same_throw {error error' : SemanticError} (same : error.bare = error'.bare) :
    Same Related (throw error) (throw error') :=
  fun _ _ _ => .error same

theorem Same.bind (first : Same Related action action')
    (second : ∀ a b, Related a b → Same Related' (next a) (next' b)) :
    Same Related' (action >>= next) (action' >>= next') := by
  intro state state' alike
  have result := first state state' alike
  rw [bind_run, bind_run]
  generalize action state = one at result
  generalize action' state' = other at result
  cases result with
  | ok related alike => exact second _ _ related _ _ alike
  | error same => exact .error same

theorem Same.then (first : Same Eq action action')
    (second : ∀ a, Same Related' (next a) (next' a)) :
    Same Related' (action >>= next) (action' >>= next') :=
  first.bind fun a _ same => same ▸ second a

theorem same_get {next next' : Lowering → Lower α}
    (each : ∀ state state' : Lowering, state.Alike state' →
      Same Related (next state) (next' state')) :
    Same Related (get >>= next) (get >>= next') :=
  fun state state' alike => each state state' alike state state' alike

theorem same_build (build : IR.Build α) : Same Eq (Lower.build build) (Lower.build build) := by
  rintro ⟨builder, symbols, exits, support⟩ ⟨_, symbols', _, _⟩ ⟨rfl, alike, rfl, rfl⟩
  exact .ok rfl ⟨rfl, alike, rfl, rfl⟩

theorem same_modify {change change' : Lowering → Lowering}
    (each : ∀ state state' : Lowering, state.Alike state' → (change state).Alike (change' state')) :
    Same Eq (modify change : Lower PUnit) (modify change') :=
  fun state state' alike => .ok rfl (each state state' alike)

inductive Replies (Related : α → α → Prop) :
    Except SemanticError α → Except SemanticError α → Prop where
  | ok {a b : α} (related : Related a b) : Replies Related (.ok a) (.ok b)
  | error {error error' : SemanticError} (same : error.bare = error'.bare) :
      Replies Related (.error error) (.error error')

theorem Replies.bind {answer answer' : Except SemanticError α}
    {next next' : α → Except SemanticError β} (first : Replies Related answer answer')
    (second : ∀ a b, Related a b → Replies Related' (next a) (next' b)) :
    Replies Related' (answer >>= next) (answer' >>= next') := by
  cases first with
  | ok related => exact second _ _ related
  | error same => exact .error same

theorem same_ask {question question' : SymbolTable → Except SemanticError α}
    (each : ∀ symbols symbols' : SymbolTable, symbols.Alike symbols' →
      Replies Related (question symbols) (question' symbols')) :
    Same Related (ask question) (ask question') := by
  intro state state' alike
  have replies := each _ _ alike.symbols
  unfold ask
  generalize question state.symbols = one at replies
  generalize question' state'.symbols = other at replies
  cases replies with
  | ok related => exact .ok related alike
  | error same => exact .error same

theorem same_modifySymbols {change change' : SymbolTable → SymbolTable}
    (each : ∀ symbols symbols' : SymbolTable, symbols.Alike symbols' →
      (change symbols).Alike (change' symbols')) :
    Same Eq (modifySymbols change) (modifySymbols change') :=
  same_modify fun _ _ alike => ⟨alike.builder, each _ _ alike.symbols, alike.exits, alike.support⟩

/-! ### Tables -/

section

variable {symbols symbols' : SymbolTable} (alike : symbols.Alike symbols') (name : String)
  (position position' : Position)

include alike

theorem replies_declared : Replies Entry.Alike (symbols.declared name position)
    (symbols'.declared name position') := by
  have found := SymbolTable.get?_congr alike name
  unfold SymbolTable.declared
  cases isFirst : symbols.get? name with
  | none =>
      rw [isFirst, Option.map_none, eq_comm, Option.map_eq_none_iff] at found
      rw [found]
      exact .error rfl
  | some entry =>
      rw [isFirst, Option.map_some, eq_comm, Option.map_eq_some_iff] at found
      obtain ⟨entry', isSecond, same⟩ := found
      rw [isSecond]
      exact .ok (Entry.alike_of_bare same.symm)

theorem replies_notDeclared : Replies Eq (symbols.notDeclared name position)
    (symbols'.notDeclared name position') := by
  unfold SymbolTable.notDeclared
  rw [Table.has_congr (SymbolTable.current_congr alike)]
  split
  · exact .error rfl
  · exact .ok rfl

theorem replies_notDeclaredForward : Replies Eq (symbols.notDeclaredForward name position)
    (symbols'.notDeclaredForward name position') := by
  unfold SymbolTable.notDeclaredForward
  rw [Table.has_congr alike.forwards]
  split
  · exact .error rfl
  · exact .ok rfl

theorem replies_constant : Replies Entry.Alike (symbols.constant name position)
    (symbols'.constant name position') := by
  refine (replies_declared alike name position position').bind ?_
  rintro entry _ ⟨place, rfl⟩
  dsimp only
  split
  · exact .ok ⟨place, rfl⟩
  · exact .error rfl

theorem replies_notConstant : Replies Entry.Alike (symbols.notConstant name position)
    (symbols'.notConstant name position') := by
  refine (replies_declared alike name position position').bind ?_
  rintro entry _ ⟨place, rfl⟩
  dsimp only
  split
  · exact .error rfl
  · exact .ok ⟨place, rfl⟩

theorem alike_add {entry entry' : Entry} (same : entry.Alike entry') :
    (symbols.add name entry).Alike (symbols'.add name entry') := by
  unfold SymbolTable.add
  rw [alike.enclosing]
  split
  · exact ⟨alike.globals, Table.bare_cons alike.locals name same, alike.forwards, rfl⟩
  · exact ⟨Table.bare_cons alike.globals name same, alike.locals, alike.forwards, rfl⟩

end

variable (name : String) (position position' : Position)

theorem same_declared : Same Entry.Alike (ask (·.declared name position))
    (ask (·.declared name position')) :=
  same_ask fun _ _ alike => replies_declared alike name position position'

theorem same_notConstant : Same Entry.Alike (ask (·.notConstant name position))
    (ask (·.notConstant name position')) :=
  same_ask fun _ _ alike => replies_notConstant alike name position position'

/-! ### Expressions -/

theorem same_requireRunning (stage : Stage) (what : NonConstant) :
    Same Eq (requireRunning stage what position) (requireRunning stage what position') := by
  cases stage with
  | running => exact same_pure rfl
  | constant => exact same_throw rfl

theorem same_address : Same Eq (address name position) (address name position') := by
  refine same_ask fun _ _ alike => (replies_declared alike name position position').bind ?_
  rintro entry _ ⟨place, rfl⟩
  dsimp only [Entry.address?]
  split
  · exact .ok rfl
  · exact .error rfl

theorem same_namePointer : Same Eq (namePointer name position) (namePointer name position') := by
  refine (same_declared name position position').bind ?_
  rintro entry _ ⟨place, rfl⟩
  dsimp only
  split
  · exact same_address name position position'
  · exact same_address (resultName name) position position'
  · exact same_throw rfl

theorem same_elementPointer {index index' : Lower IR.Operand} (same : Same Eq index index') :
    Same Eq (elementPointer name position index) (elementPointer name position' index') := by
  refine (same_declared name position position').bind ?_
  rintro entry _ ⟨place, rfl⟩
  dsimp only
  split
  · exact (same_address name position position').then fun base => same.then fun value =>
      (same_build _).then fun offset => same_build _
  · exact same_throw rfl

theorem same_asValue (result : CallResult) :
    Same Eq (asValue name position result) (asValue name position' result) := by
  cases result with
  | value value => exact same_pure rfl
  | nothing | exited => exact same_throw rfl

theorem same_emitCall (callee : IR.FunctionId) (arguments : List IR.Operand) :
    Same Eq (emitCall callee arguments) (emitCall callee arguments) := by
  refine (same_build _).then fun value? => ?_
  cases value? with
  | some value => exact same_pure rfl
  | none => exact same_pure rfl

theorem same_unless {α : Type} {Related : α → α → Prop} {condition : Prop} [Decidable condition]
    {error error' : SemanticError} {action action' : Lower α} (isSame : error.bare = error'.bare)
    (same : Same Related action action') :
    Same Related (if condition then (throw error : Lower PUnit) >>= fun _ => action else action)
      (if condition then (throw error' : Lower PUnit) >>= fun _ => action' else action') := by
  split
  · exact Same.then (same_throw isSame) fun _ => same
  · exact same

theorem same_callee (arguments : Nat) (used : Bool) :
    Same Eq (callee name arguments position used) (callee name arguments position' used) := by
  refine (same_declared name position position').bind ?_
  rintro entry _ ⟨place, rfl⟩
  dsimp only
  split
  · refine same_unless rfl ?_
    split
    · exact same_unless rfl (same_unless rfl (same_pure rfl))
    · exact same_unless rfl (same_pure rfl)
    · exact same_throw rfl
  · exact same_throw rfl

theorem same_plainValue : Same Eq (plainValue name position) (plainValue name position') := by
  refine (same_declared name position position').bind ?_
  rintro entry _ ⟨place, rfl⟩
  dsimp only
  split
  · exact (same_address name position position').then fun pointer => same_build _
  · exact same_throw rfl
  · refine (same_callee name position position' 0 true).then fun storage => ?_
    split
    · exact (same_emitCall _ []).then fun result => same_asValue name position position' result
    · exact same_throw rfl

theorem same_nameValue (stage : Stage) :
    Same Eq (nameValue stage name position) (nameValue stage name position') := by
  cases stage with
  | constant =>
      refine (same_ask fun _ _ alike => replies_constant alike name position position').bind ?_
      rintro entry _ ⟨place, rfl⟩
      dsimp only
      split
      · exact same_pure rfl
      · exact same_throw rfl
  | running =>
      refine same_get fun state state' alike => ?_
      dsimp only
      rw [SymbolTable.size_congr alike.symbols, SymbolTable.valueName_congr alike.symbols]
      exact same_plainValue _ position position'

mutual

theorem render_bare (expr : Expr) : expr.bare.render = expr.render := by
  cases expr with
  | ident name position => rfl
  | number value position => rfl
  | literal text position => rfl
  | binary op left right position =>
      rw [Expr.bare, Expr.render, Expr.render, render_bare left, render_bare right]
  | negate operand position | not operand position =>
      rw [Expr.bare, Expr.render, Expr.render, render_bare operand]
  | element array index position => rw [Expr.bare, Expr.render, Expr.render, render_bare index]
  | call callee arguments position =>
      rw [Expr.bare, Expr.render, Expr.render, renderAll_bare arguments]

theorem renderAll_bare (arguments : List Expr) :
    Expr.renderAll (Expr.bareAll arguments) = Expr.renderAll arguments := by
  cases arguments with
  | nil => rfl
  | cons first others =>
      rw [Expr.bareAll, Expr.renderAll, Expr.renderAll, render_bare first, renderAll_bare others]

end

theorem same_requireReadable (target : Expr) :
    Same Eq (requireReadable target) (requireReadable target.bare) := by
  have other (position' : Position) : Same Eq
      (throw (.notAssignable target.render target.position) : Lower Unit)
      (throw (.notAssignable target.bare.render position')) := by
    rw [render_bare]
    exact same_throw rfl
  cases target with
  | ident name position =>
      refine (same_notConstant name position .nowhere).bind ?_
      rintro entry _ ⟨place, rfl⟩
      dsimp only
      split
      · exact same_throw rfl
      · exact same_pure rfl
  | element array index position =>
      exact (same_notConstant array position .nowhere).bind fun _ _ _ => same_pure rfl
  | _ => exact other _

theorem same_decrement (target : Expr) : Same Eq (decrement target) (decrement target.bare) := by
  have other (position' : Position) : Same Eq
      (throw (.notDecrementable target.render target.position) : Lower Unit)
      (throw (.notDecrementable target.bare.render position')) := by
    rw [render_bare]
    exact same_throw rfl
  cases target with
  | ident name position =>
      refine (same_notConstant name position .nowhere).bind ?_
      rintro entry _ ⟨place, rfl⟩
      refine same_unless rfl ?_
      exact (same_namePointer name position .nowhere).then fun pointer =>
        (same_build _).then fun value => (same_build _).then fun next => same_build _
  | _ => exact other _

theorem same_forM {α β : Type} {action : α → Lower Unit} {action' : β → Lower Unit} (change : α → β)
    (each : ∀ item, Same Eq (action item) (action' (change item))) (items : List α) :
    Same Eq (items.forM action) ((items.map change).forM action') := by
  induction items with
  | nil => exact same_pure rfl
  | cons first others ih => exact (each first).then fun _ => ih

theorem same_exitCallable : Same Eq (exitCallable position) (exitCallable position') := by
  refine same_get fun state state' alike => ?_
  have found : state.symbols.enclosingCallable?.map Entry.bare =
      state'.symbols.enclosingCallable?.map Entry.bare := by
    unfold SymbolTable.enclosingCallable?
    rw [alike.symbols.enclosing]
    cases state'.symbols.enclosing with
    | none => rfl
    | some enclosing => exact SymbolTable.getOuter?_congr alike.symbols enclosing.name
  dsimp only
  rw [alike.symbols.enclosing]
  cases state'.symbols.enclosing with
  | none => exact same_throw rfl
  | some enclosing =>
      cases isFirst : state.symbols.enclosingCallable? with
      | none =>
          rw [isFirst, Option.map_none, eq_comm, Option.map_eq_none_iff] at found
          rw [found]
          exact same_throw rfl
      | some entry =>
          rw [isFirst, Option.map_some, eq_comm, Option.map_eq_some_iff] at found
          obtain ⟨entry', isSecond, same⟩ := found
          obtain ⟨place, rfl⟩ := Entry.alike_of_bare same.symm
          rw [isSecond]
          dsimp only
          split
          · exact (same_nameValue _ position position' .running).then fun value => same_build _
          · exact same_build _

theorem same_call (arguments : List Expr) (used : Bool) {values values' : Lower (List IR.Operand)}
    {target target' : Lower IR.Operand} (sameValues : Same Eq values values')
    (sameTarget : Same Eq target target') :
    Same Eq (call name arguments position used values target)
      (call name (Expr.bareAll arguments) position' used values' target') := by
  unfold call
  rw [Expr.bareAll_eq, show (Placed.bare arguments : List Expr) = arguments.map Expr.bare from rfl,
    List.length_map]
  refine (same_callee name position position' arguments.length used).then fun storage => ?_
  cases storage with
  | function id => exact sameValues.then fun values => same_emitCall id values
  | address pointer => exact same_throw rfl
  | builtin builtin =>
      cases builtin with
      | writeln =>
          refine sameValues.then fun values => same_get fun state state' alike => ?_
          dsimp only
          rw [alike.support]
          exact same_emitCall _ _
      | readln =>
          refine (same_forM Expr.bare same_requireReadable arguments).then fun _ =>
            sameTarget.then fun pointer => same_get fun state state' alike => ?_
          dsimp only
          rw [alike.support]
          exact same_emitCall _ _
      | write =>
          refine sameValues.then fun values => same_get fun state state' alike => ?_
          dsimp only
          rw [alike.support]
          exact (same_emitCall _ _).then fun _ => same_pure rfl
      | dec => exact (same_forM Expr.bare same_decrement arguments).then fun _ => same_pure rfl
      | exit => exact (same_exitCallable position position').then fun _ => same_pure rfl

mutual

theorem same_expression (stage : Stage) (expr : Expr) :
    Same Eq (expression stage expr) (expression stage expr.bare) := by
  cases expr with
  | ident name position => exact same_nameValue name position .nowhere stage
  | number value position => exact same_pure rfl
  | literal text position =>
      exact (same_requireRunning position .nowhere stage .literal).then fun _ => same_build _
  | binary op left right position =>
      refine (same_expression stage left).then fun first =>
        (same_expression stage right).then fun second => ?_
      exact same_unless rfl (same_build _)
  | negate operand position => exact (same_expression stage operand).then fun _ => same_build _
  | not operand position => exact (same_expression stage operand).then fun _ => same_build _
  | element array index position =>
      exact (same_requireRunning position .nowhere stage .element).then fun _ =>
        (same_elementPointer array position .nowhere (same_expression .running index)).then
          fun pointer => same_build _
  | call callee arguments position =>
      exact (same_requireRunning position .nowhere stage .call).then fun _ =>
        (same_call callee position .nowhere arguments true (same_expressions arguments)
          (same_firstPointer arguments)).then fun result => same_asValue callee position .nowhere result

theorem same_expressions (exprs : List Expr) :
    Same Eq (expressions exprs) (expressions (Expr.bareAll exprs)) := by
  cases exprs with
  | nil => exact same_pure rfl
  | cons first others =>
      exact (same_expression .running first).then fun _ =>
        (same_expressions others).then fun _ => same_pure rfl

theorem same_firstPointer (exprs : List Expr) :
    Same Eq (firstPointer exprs) (firstPointer (Expr.bareAll exprs)) := by
  cases exprs with
  | nil => exact same_pure rfl
  | cons first others => exact same_pointer first

theorem same_pointer (expr : Expr) : Same Eq (pointer expr) (pointer expr.bare) := by
  have other (position' : Position) : Same Eq
      (throw (.notAssignable expr.render expr.position) : Lower IR.Operand)
      (throw (.notAssignable expr.bare.render position')) := by
    rw [render_bare]
    exact same_throw rfl
  cases expr with
  | ident name position => exact same_namePointer name position .nowhere
  | element array index position =>
      exact same_elementPointer array position .nowhere (same_expression .running index)
  | _ => exact other _

end

theorem same_constantValue (expr : Expr) :
    Same Eq (constantValue expr) (constantValue expr.bare) := by
  refine (same_expression .constant expr).then fun value => ?_
  rw [render_bare]
  split
  · exact same_pure rfl
  · exact same_throw rfl

/-! ### Statements -/

theorem same_assign (assignment : Assignment) :
    Same Eq (assign assignment) (assign assignment.bare) := by
  obtain ⟨target, value, position⟩ := assignment
  have target? : target.bare.target? = target.target? := by cases target <;> rfl
  unfold assign
  dsimp only [Assignment.bare]
  rw [target?, render_bare]
  split
  · exact same_throw rfl
  · exact (same_notConstant _ _ _).bind fun _ _ _ => (same_pointer target).then fun pointer =>
      (same_expression .running value).then fun value => same_build _

theorem same_currentFunction (what : Construct) :
    Same Eq (currentFunction what position) (currentFunction what position') := by
  refine same_ask fun symbols symbols' alike => ?_
  rw [alike.enclosing]
  cases symbols'.enclosing with
  | some enclosing => exact .ok rfl
  | none => exact .error rfl

theorem same_condition (test : Expr) : Same Eq (condition test) (condition test.bare) :=
  (same_expression .running test).then fun _ => same_build _

theorem same_intoBlock (block next : IR.BlockId) {body body' : Lower (Option Ending)}
    (same : Same Eq body body') : Same Eq (intoBlock block next body) (intoBlock block next body') := by
  refine (same_build _).then fun _ => same.then fun ending => ?_
  split
  · exact same_build _
  · exact same_pure rfl

theorem same_conditional (test : Expr) {holds holds' fails fails' : Lower (Option Ending)}
    (sameHolds : Same Eq holds holds') (sameFails : Same Eq fails fails') :
    Same Eq (conditional test position holds fails)
      (conditional test.bare position' holds' fails') :=
  (same_currentFunction position position' .conditional).then fun _ =>
    (same_condition test).then fun _ => (same_build _).then fun _ => (same_build _).then fun _ =>
      (same_build _).then fun _ => (same_build _).then fun _ =>
        (same_intoBlock _ _ sameHolds).then fun _ => (same_intoBlock _ _ sameFails).then fun _ =>
          same_build _

theorem same_loop (function : IR.FunctionId) (id : LoopId) {test test' : Lower IR.Operand}
    {body body' : Lower (Option Ending)} (sameTest : Same Eq test test') (sameBody : Same Eq body body') :
    Same Eq (loop function id test body) (loop function id test' body') := by
  refine (same_build _).then fun _ => (same_build _).then fun _ => (same_build _).then fun after =>
    (same_build _).then fun _ => (same_build _).then fun _ => sameTest.then fun _ =>
      (same_build _).then fun _ => Same.then (same_modify fun state state' alike => ?_) fun _ =>
        (same_intoBlock _ _ sameBody).then fun _ => same_build _
  exact ⟨alike.builder, alike.symbols, congrArg ((id, after) :: ·) alike.exits, alike.support⟩

theorem same_withinLimit (counter : Expr) (direction : Direction) (limit : Expr) :
    Same Eq (withinLimit counter direction limit)
      (withinLimit counter.bare direction limit.bare) := by
  refine (same_expression .running limit).then fun _ =>
    (same_expression .running counter).then fun _ => ?_
  cases direction <;> exact same_build _

theorem same_advanceCounter (counter : Expr) (direction : Direction) :
    Same Eq (advanceCounter counter direction) (advanceCounter counter.bare direction) := by
  refine (same_pointer counter).then fun _ => (same_expression .running counter).then fun _ => ?_
  cases direction <;> exact (same_build _).then fun _ => same_build _

theorem same_whileLoop (id : LoopId) (test : Expr) {body body' : Lower (Option Ending)}
    (same : Same Eq body body') :
    Same Eq (whileLoop id test position body) (whileLoop id test.bare position' body') :=
  (same_currentFunction position position' .whileLoop).then fun _ =>
    same_loop _ id (same_condition test) same

theorem same_forLoop (id : LoopId) (initial : Assignment) (direction : Direction) (limit : Expr)
    {body body' : Lower (Option Ending)} (same : Same Eq body body') :
    Same Eq (forLoop id initial direction limit position body)
      (forLoop id initial.bare direction limit.bare position' body') := by
  refine (same_currentFunction position position' .forLoop).then fun _ =>
    (same_assign initial).then fun _ =>
      same_loop _ id (same_withinLimit initial.target direction limit) (same.then fun ending => ?_)
  split
  · exact (same_advanceCounter initial.target direction).then fun _ => same_pure rfl
  · exact same_pure rfl

theorem same_leaveLoop (id : LoopId) :
    Same Eq (leaveLoop id position) (leaveLoop id position') := by
  refine same_get fun state state' alike => ?_
  rw [alike.exits]
  split
  · exact same_build _
  · exact same_throw rfl

/-! ### Declarations -/

theorem same_shape (type : DataType) : Same Eq (shape type) (shape type.bare) := by
  cases type with
  | integer => exact same_pure rfl
  | array low high =>
      exact (same_constantValue low).then fun _ => (same_constantValue high).then fun _ =>
        same_pure rfl

theorem same_notDeclared :
    Same Eq (ask (·.notDeclared name position)) (ask (·.notDeclared name position')) :=
  same_ask fun _ _ alike => replies_notDeclared alike name position position'

theorem same_notDeclaredForward :
    Same Eq (ask (·.notDeclaredForward name position)) (ask (·.notDeclaredForward name position')) :=
  same_ask fun _ _ alike => replies_notDeclaredForward alike name position position'

theorem same_add {entry entry' : Entry} (same : entry.Alike entry') :
    Same Eq (modifySymbols (·.add name entry)) (modifySymbols (·.add name entry')) :=
  same_modifySymbols fun _ _ alike => alike_add alike name same

theorem same_allocate (shape : Shape) :
    Same Eq (allocate name shape position) (allocate name shape position') := by
  unfold allocate
  cases shape with
  | integer =>
      refine same_get fun state state' alike => ?_
      rw [alike.symbols.enclosing]
      split <;> exact same_build _
  | array low high =>
      dsimp only
      split
      · exact same_build _
      · exact same_throw rfl
  | callable parameters returnsValue => exact same_throw rfl

theorem same_declareVariable (shape : Shape) :
    Same Eq (declareVariable shape position name) (declareVariable shape position' name) :=
  (same_notDeclared name position position').then fun _ =>
    (same_allocate name position position' shape).then fun _ => same_add name ⟨position', rfl⟩

theorem same_vars (group : VarGroup) : Same Eq (vars group) (vars group.bare) := by
  refine (same_shape group.type).then fun shape => ?_
  have same := same_forM id
    (fun name => same_declareVariable name group.position .nowhere shape) group.names
  rwa [List.map_id] at same

theorem same_constantDeclaration (value : Expr) :
    Same Eq (constantDeclaration name value position)
      (constantDeclaration name value.bare position') :=
  (same_constantValue value).then fun _ =>
    (same_notDeclared name position position').then fun _ =>
      (same_build _).then fun _ => same_add name ⟨position', rfl⟩

section

variable (heading : Heading)

theorem parameterNames_bare : heading.bare.parameterNames = heading.parameterNames := by
  rw [Heading.parameterNames, Heading.bare, List.flatMap_map]
  rfl

theorem parameterCount_bare : heading.bare.parameterCount = heading.parameterCount :=
  congrArg List.length (parameterNames_bare heading)

theorem returns_bare : heading.bare.returns.isSome = heading.returns.isSome :=
  Option.isSome_map

theorem shape_bare : heading.bare.shape = heading.shape := by
  rw [Heading.shape, Heading.shape, parameterCount_bare, returns_bare]

theorem same_newFunction : Same Eq (newFunction heading) (newFunction heading.bare) := by
  unfold newFunction
  rw [parameterCount_bare, returns_bare]
  exact same_build _

theorem same_declareCallable (shape : Shape) (storage : Storage) :
    Same Eq (declareCallable name shape storage position)
      (declareCallable name shape storage position') :=
  (same_notDeclared name position position').then fun _ => same_add name ⟨position', rfl⟩

theorem same_forwardDeclaration :
    Same Eq (forwardDeclaration heading) (forwardDeclaration heading.bare) := by
  refine (same_notDeclaredForward heading.name heading.position .nowhere).then fun _ => ?_
  refine same_get fun state state' alike => ?_
  dsimp only
  rw [Table.has_congr alike.symbols.globals]
  refine same_unless rfl ((same_newFunction heading).then fun function => ?_)
  rw [shape_bare]
  refine (same_notDeclaredForward heading.name heading.position .nowhere).then fun _ =>
    same_modifySymbols fun symbols symbols' alike => ?_
  exact ⟨alike.globals, alike.locals,
    Table.bare_cons alike.forwards heading.name ⟨.nowhere, rfl⟩, alike.enclosing⟩

theorem same_definedFunction :
    Same Eq (definedFunction heading) (definedFunction heading.bare) := by
  refine same_get fun state state' alike => ?_
  have found := Table.lookup_congr alike.symbols.forwards heading.name
  dsimp only
  cases isFirst : state.symbols.forwards.lookup heading.name with
  | none =>
      rw [isFirst, Option.map_none, eq_comm, Option.map_eq_none_iff] at found
      rw [show heading.bare.name = heading.name from rfl, found]
      exact (same_notDeclared heading.name heading.position .nowhere).then fun _ =>
        same_newFunction heading
  | some entry =>
      rw [isFirst, Option.map_some, eq_comm, Option.map_eq_some_iff] at found
      obtain ⟨entry', isSecond, same⟩ := found
      obtain ⟨place, rfl⟩ := Entry.alike_of_bare same.symm
      rw [show heading.bare.name = heading.name from rfl, isSecond, shape_bare]
      refine same_unless rfl ?_
      dsimp only
      split
      · exact same_pure rfl
      · exact same_throw rfl

end

theorem same_declareResult :
    Same Eq (declareResult name position) (declareResult name position') :=
  (same_declareVariable (resultName name) position position' .integer).then fun _ =>
    (same_address (resultName name) position position').then fun _ => same_build _

theorem same_declareParameters (change : Position → Position) (first : Nat)
    (parameters : List (String × Position)) :
    Same Eq (declareParameters first parameters)
      (declareParameters first (parameters.map (Prod.map id change))) := by
  induction parameters generalizing first with
  | nil => exact same_pure rfl
  | cons parameter others ih =>
      obtain ⟨name, position⟩ := parameter
      exact (same_declareVariable name position (change position) .integer).then fun _ =>
        (same_address name position (change position)).then fun _ =>
          (same_build _).then fun _ => ih (first + 1)

theorem same_implicitReturn (heading : Heading) :
    Same Eq (implicitReturn heading) (implicitReturn heading.bare) := by
  refine (same_build _).then fun terminated => ?_
  rw [returns_bare]
  split
  · split
    · exact (same_nameValue (resultName heading.name) heading.position .nowhere .running).then
        fun _ => same_build _
    · exact same_build _
  · exact same_pure rfl

theorem same_definition (heading : Heading) {body body' : Lower (Option Ending)}
    (same : Same Eq body body') :
    Same Eq (definition heading body) (definition heading.bare body') := by
  refine (same_definedFunction heading).then fun function => ?_
  rw [shape_bare, returns_bare]
  refine (same_declareCallable heading.name heading.position .nowhere _ _).then fun _ =>
    (same_build _).then fun _ => (same_build _).then fun _ =>
      (same_modifySymbols fun symbols symbols' alike => ?entered).then fun _ => ?opened
  case entered => exact ⟨alike.globals, alike.locals, alike.forwards, rfl⟩
  case opened =>
    have parameters : (heading.bare.parameters.flatMap fun group =>
        group.names.map fun name => (name, group.position)) =
        (heading.parameters.flatMap fun group =>
          group.names.map fun name => (name, group.position)).map
            (Prod.map id fun _ => Position.nowhere) := by
      simp only [Heading.bare, VarGroup.bare, List.flatMap_map, List.map_flatMap, List.map_map,
        Function.comp_def, Prod.map_apply, id]
    have rest : Same Eq
        (declareParameters 0 (heading.parameters.flatMap fun group =>
          group.names.map fun name => (name, group.position)) >>= fun _ => body >>= fun _ =>
            implicitReturn heading >>= fun _ => modifySymbols (·.leave))
        (declareParameters 0 (heading.bare.parameters.flatMap fun group =>
          group.names.map fun name => (name, group.position)) >>= fun _ => body' >>= fun _ =>
            implicitReturn heading.bare >>= fun _ => modifySymbols (·.leave)) := by
      rw [parameters]
      exact (same_declareParameters _ 0 _).then fun _ => same.then fun _ =>
        (same_implicitReturn heading).then fun _ => same_modifySymbols fun symbols symbols' alike =>
          ⟨alike.globals, rfl, alike.forwards, rfl⟩
    split
    · exact (same_declareResult heading.name heading.position .nowhere).then fun _ => rest
    · exact rest

/-! ### Lists of statements -/

theorem same_callStatement (arguments : List Expr) :
    Same Eq (callStatement name arguments position)
      (callStatement name (Expr.bareAll arguments) position') :=
  same_call name position position' arguments false (same_expressions arguments)
    (same_firstPointer arguments)

mutual

theorem same_statement (tree : Statement) :
    Same Eq (statement tree) (statement tree.bare) := by
  cases tree with
  | program name => exact same_pure rfl
  | vars group => exact (same_vars group).then fun _ => same_pure rfl
  | constant name value position =>
      exact (same_constantDeclaration name position .nowhere value).then fun _ => same_pure rfl
  | forward heading => exact (same_forwardDeclaration heading).then fun _ => same_pure rfl
  | callable heading body =>
      exact (same_definition heading (same_statements body)).then fun _ => same_pure rfl
  | call name arguments position =>
      refine (same_callStatement name position .nowhere arguments).then fun result => ?_
      cases result <;> exact same_pure rfl
  | assign assignment => exact (same_assign assignment).then fun _ => same_pure rfl
  | block body => exact same_statements body
  | ifThen test holds position =>
      exact (same_conditional position .nowhere test (same_statement holds) (same_pure rfl)).then
        fun _ => same_pure rfl
  | ifThenElse test holds fails position =>
      exact (same_conditional position .nowhere test (same_statement holds)
        (same_statement fails)).then fun _ => same_pure rfl
  | whileLoop id test body position =>
      exact (same_whileLoop position .nowhere id test (same_statement body)).then fun _ =>
        same_pure rfl
  | forLoop id initial direction limit body position =>
      exact (same_forLoop position .nowhere id initial direction limit (same_statement body)).then
        fun _ => same_pure rfl
  | leave id position => exact (same_leaveLoop position .nowhere id).then fun _ => same_pure rfl

theorem same_statements (trees : List Statement) :
    Same Eq (statements trees) (statements (Statement.bareAll trees)) := by
  cases trees with
  | nil => exact same_pure rfl
  | cons first others =>
      refine (same_statement first).then fun ending => ?_
      cases ending with
      | some ending => exact same_pure rfl
      | none => exact same_statements others

end

end Lower

end MiniPascal
