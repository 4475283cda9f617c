import MiniPascal.Proofs.Lowering.Programs
import MiniPascal.Proofs.Tree.Literals

/-!
# Translations that do not fail

Building code never fails, so whether a translation succeeds is up to the symbol table.  The translation
of a program that only sets variables, prints and branches always does.
-/

namespace MiniPascal

open IR (Build Operand)

variable {α β : Type} {symbols : SymbolTable} {settings : Settings}

namespace Lower

/-! ### Steps -/

/-- From every state with the symbol table the step succeeds, and with such a table behind it. -/
def Attains (action : Lower α) (post : α → SymbolTable → Prop) (symbols : SymbolTable) : Prop :=
  ∀ state, state.symbols = symbols → ∃ a state', action state = .ok a state' ∧ post a state'.symbols

def Passes (action : Lower α) (symbols : SymbolTable) : Prop :=
  Attains action (fun _ after => after = symbols) symbols

theorem attains_pure {post : α → SymbolTable → Prop} {a : α} (h : post a symbols) :
    Attains (pure a) post symbols := by
  rintro state rfl
  exact ⟨a, state, rfl, h⟩

theorem Attains.bind {action : Lower α} {next : α → Lower β} {between : α → SymbolTable → Prop}
    {post : β → SymbolTable → Prop} (h₁ : Attains action between symbols)
    (h₂ : ∀ a after, between a after → Attains (next a) post after) :
    Attains (action >>= next) post symbols := by
  intro state isTable
  obtain ⟨a, state₁, first, isBetween⟩ := h₁ state isTable
  obtain ⟨b, state₂, second, isPost⟩ := h₂ a _ isBetween state₁ rfl
  exact ⟨b, state₂, (bind_of_ok _ first).trans second, isPost⟩

theorem Passes.bind {action : Lower α} {next : α → Lower β} {post : β → SymbolTable → Prop}
    (h₁ : Passes action symbols) (h₂ : ∀ a, Attains (next a) post symbols) :
    Attains (action >>= next) post symbols :=
  Attains.bind h₁ fun a _ same => same ▸ h₂ a

theorem attains_ask {question : SymbolTable → Except SemanticError α}
    {post : α → SymbolTable → Prop} {a : α} (isOk : question symbols = .ok a)
    (h : post a symbols) : Attains (ask question) post symbols := by
  rintro state rfl
  exact ⟨a, state, ask_of_ok isOk, h⟩

theorem Attains.ask {question : SymbolTable → Except SemanticError α} {next : α → Lower β}
    {post : β → SymbolTable → Prop} {a : α} (isOk : question symbols = .ok a)
    (h : Attains (next a) post symbols) : Attains (ask question >>= next) post symbols := by
  rintro state rfl
  rw [bind_of_ok _ (ask_of_ok isOk)]
  exact h state rfl

theorem Attains.get {next : Lowering → Lower β} {post : β → SymbolTable → Prop}
    (h : ∀ state, state.symbols = symbols → Attains (next state) post symbols) :
    Attains (get >>= next) post symbols := fun state isTable => h state isTable state isTable

theorem attains_modifySymbols {change : SymbolTable → SymbolTable}
    {post : Unit → SymbolTable → Prop} (h : post () (change symbols)) :
    Attains (modifySymbols change) post symbols := by
  rintro state rfl
  exact ⟨(), _, rfl, h⟩

theorem passes_pure (a : α) : Passes (pure a) symbols := attains_pure rfl

theorem passes_build (action : Build α) : Passes (build action) symbols := by
  rintro state rfl
  exact ⟨_, _, build_eq action state, rfl⟩

end Lower

/-! ### Symbol tables -/

structure Entry.IsVariable (entry : Entry) : Prop where
  shape : entry.shape = .integer
  storage : ∃ pointer, entry.storage = .address pointer
  constant : entry.constant = none

def SymbolTable.HasVariable (symbols : SymbolTable) (name : String) : Prop :=
  ∃ entry, symbols.get? name = some entry ∧ entry.IsVariable

structure SymbolTable.Reads (symbols : SymbolTable) (settings : Settings) : Prop where
  enclosing : ∃ enclosing, symbols.enclosing = some enclosing
  writeln : symbols.get? Builtin.writeln.name = some (Lowering.builtinEntry .writeln)
  settings : ∀ setting ∈ settings, symbols.HasVariable setting.1

namespace Lower

/-! ### Variables -/

theorem passes_address {name : String} (isVariable : symbols.HasVariable name)
    (position : Position) : Passes (address name position) symbols := by
  obtain ⟨entry, isEntry, holds⟩ := isVariable
  obtain ⟨pointer, isStorage⟩ := holds.storage
  refine attains_ask (a := pointer) ?_ rfl
  simp [SymbolTable.declared, isEntry, Entry.address?, isStorage]

theorem passes_nameValue {name : String} (isVariable : symbols.HasVariable name)
    (position : Position) : Passes (nameValue .running name position) symbols := by
  obtain ⟨entry, isEntry, holds⟩ := isVariable
  refine Attains.get fun state isTable => ?_
  have isName : state.symbols.valueName (state.symbols.size + 1) name = name := by
    obtain ⟨shape, storage, constant, position⟩ := entry
    obtain rfl : shape = .integer := holds.shape
    simp only [SymbolTable.valueName, isTable, isEntry]
  dsimp only
  rw [isName]
  refine Attains.ask (SymbolTable.declared_eq_ok.2 isEntry) ?_
  rw [holds.shape]
  exact (passes_address ⟨entry, isEntry, holds⟩ position).bind fun pointer => passes_build _

theorem passes_namePointer {name : String} (isVariable : symbols.HasVariable name)
    (position : Position) : Passes (namePointer name position) symbols := by
  obtain ⟨entry, isEntry, holds⟩ := isVariable
  refine Attains.ask (SymbolTable.declared_eq_ok.2 isEntry) ?_
  rw [holds.shape]
  exact passes_address ⟨entry, isEntry, holds⟩ position

/-! ### Expressions -/

theorem passes_expression {expr expr' : Expr} (abstracts : expr.Abstracts settings expr')
    (isTable : ∀ setting ∈ settings, symbols.HasVariable setting.1) :
    Passes (expression .running expr') symbols := by
  induction abstracts with
  | number => exact passes_pure _
  | held isSet => exact passes_nameValue (isTable _ isSet) _
  | binary op _ _ _ _ left_ih right_ih =>
      rw [expression]
      refine left_ih.bind fun left => right_ih.bind fun right => ?_
      -- A division by zero is refused only where a constant is required.
      simp only [reduceCtorEq, false_and, if_false]
      exact passes_build _
  | negate _ _ _ ih =>
      rw [expression]
      exact ih.bind fun value => passes_build _
  | not _ _ _ ih =>
      rw [expression]
      exact ih.bind fun value => passes_build _

/-! ### Statements -/

theorem passes_emitCall (callee : IR.FunctionId) (arguments : List Operand) :
    Passes (emitCall callee arguments) symbols := by
  refine (passes_build _).bind fun value? => ?_
  split <;> exact passes_pure _

theorem passes_writeln {expr : Expr} (reads : symbols.Reads settings)
    (passes : Passes (expression .running expr) symbols) (position : Position) :
    Passes (callStatement Builtin.writeln.name [expr] position) symbols := by
  have isCallee : Attains (callee Builtin.writeln.name 1 position false)
      (fun storage after => storage = .builtin .writeln ∧ after = symbols) symbols := by
    refine Attains.ask (SymbolTable.declared_eq_ok.2 reads.writeln) ?_
    exact attains_pure ⟨rfl, rfl⟩
  have values : Passes (expressions [expr]) symbols := by
    rw [expressions, expressions]
    exact passes.bind fun _ => passes_pure _
  refine isCallee.bind ?_
  rintro _ _ ⟨rfl, rfl⟩
  -- The state is asked for the external function and its format, which are always there.
  exact values.bind fun _ => Attains.get fun _ _ => passes_emitCall _ _

theorem passes_condition {expr : Expr} (passes : Passes (expression .running expr) symbols) :
    Passes (condition expr) symbols := passes.bind fun _ => passes_build _

theorem passes_intoBlock (block next : IR.BlockId) {body : Lower (Option Ending)}
    (passes : Passes body symbols) : Passes (intoBlock block next body) symbols := by
  refine (passes_build _).bind fun _ => passes.bind fun ending => ?_
  split
  · exact passes_build _
  · exact passes_pure _

theorem passes_conditional {test : Expr} (reads : symbols.Reads settings)
    (passes : Passes (expression .running test) symbols) (position : Position)
    {holds fails : Lower (Option Ending)} (onHolds : Passes holds symbols)
    (onFails : Passes fails symbols) : Passes (conditional test position holds fails) symbols := by
  obtain ⟨enclosing, isEnclosing⟩ := reads.enclosing
  refine Attains.ask (a := enclosing.function) (by rw [isEnclosing]) ?_
  refine (passes_condition passes).bind fun truth => ?_
  refine (passes_build _).bind fun thenBlock => (passes_build _).bind fun elseBlock => ?_
  refine (passes_build _).bind fun merge => (passes_build _).bind fun _ => ?_
  refine (passes_intoBlock _ _ onHolds).bind fun _ => (passes_intoBlock _ _ onFails).bind fun _ => ?_
  exact passes_build _

mutual

theorem passes_statement {tree tree' : Statement} (abstracts : tree.Abstracts settings tree')
    (reads : symbols.Reads settings) : Passes (statement tree') symbols := by
  cases abstracts with
  | writeln onExpr position position' =>
      rw [statement]
      refine (passes_writeln reads (passes_expression onExpr reads.settings) _).bind fun result => ?_
      split <;> exact passes_pure _
  | block onBody =>
      rw [statement]
      exact passes_statements onBody reads
  | ifThen onTest onHolds position position' =>
      rw [statement]
      exact (passes_conditional reads (passes_expression onTest reads.settings) _
        (passes_statement onHolds reads) (passes_pure _)).bind fun _ => passes_pure _
  | ifThenElse onTest onHolds onFails position position' =>
      rw [statement]
      exact (passes_conditional reads (passes_expression onTest reads.settings) _
        (passes_statement onHolds reads) (passes_statement onFails reads)).bind fun _ => passes_pure _

theorem passes_statements {body body' : List Statement}
    (abstracts : Statement.AbstractsAll settings body body') (reads : symbols.Reads settings) :
    Passes (statements body') symbols := by
  cases abstracts with
  | nil => exact passes_pure _
  | cons onFirst onOthers =>
      rw [statements]
      refine (passes_statement onFirst reads).bind fun ending => ?_
      split
      · exact passes_pure _
      · exact passes_statements onOthers reads

end

theorem passes_assign {name : String} {value : Int32} {initial : Expr}
    (isValue : initial.constant? (fun _ => none) = some value) (place position : Position)
    (isVariable : symbols.HasVariable name) :
    Passes (assign ⟨.ident name place, initial, position⟩) symbols := by
  have ⟨entry, isEntry, holds⟩ := isVariable
  have notConstant : symbols.notConstant name place = .ok entry :=
    SymbolTable.notConstant_eq_ok.2 ⟨isEntry, holds.constant⟩
  refine Attains.ask notConstant ?_
  simp only [pointer]
  refine (passes_namePointer isVariable place).bind fun target => ?_
  exact (passes_expression (Expr.closed_of_constant? isValue) (by simp)).bind fun value => passes_build _

theorem passes_assignments {others : Settings} {assignments body : List Statement}
    (areAssigned : AreAssigned others assignments)
    (isTable : ∀ setting ∈ others, symbols.HasVariable setting.1)
    (passes : Passes (statements body) symbols) :
    Passes (statements (assignments ++ body)) symbols := by
  induction areAssigned with
  | nil => exact passes
  | cons isValue place position onOthers ih =>
      rw [List.cons_append, statements, statement, bind_assoc]
      refine (passes_assign isValue place position (isTable _ List.mem_cons_self)).bind fun _ => ?_
      rw [pure_bind]
      exact ih fun setting isIn => isTable setting (List.mem_cons_of_mem _ isIn)

/-! ### Declarations -/

theorem attains_declareVariable {name : String} (isNew : symbols.current.has name = false)
    (position : Position) {post : Unit → SymbolTable → Prop}
    (h : ∀ entry : Entry, entry.IsVariable → post () (symbols.add name entry)) :
    Attains (declareVariable .integer position name) post symbols := by
  have isFree : symbols.notDeclared name position = .ok () := by
    simp [SymbolTable.notDeclared, isNew]
  refine Attains.ask isFree ?_
  rintro state rfl
  obtain ⟨action, isBuild⟩ : ∃ action, allocate name .integer position state = build action state := by
    rw [allocate, get_bind]
    split <;> exact ⟨_, rfl⟩
  rw [bind_of_ok _ (isBuild.trans (build_eq action state))]
  exact ⟨(), _, rfl, h _ ⟨rfl, ⟨_, rfl⟩, rfl⟩⟩

end Lower

structure SymbolTable.HasDeclared (symbols : SymbolTable) (names : List String) : Prop where
  enclosing : symbols.enclosing = none
  locals : symbols.locals = []
  forwards : symbols.forwards = []
  writeln : symbols.globals.lookup Builtin.writeln.name = some (Lowering.builtinEntry .writeln)
  entries : ∀ name ∈ names, ∃ entry, symbols.globals.lookup name = some entry ∧ entry.IsVariable
  others : ∀ name, Builtin.ofName? name = none → name ∉ names → symbols.globals.lookup name = none

theorem Lowering.hasDeclared_initial (moduleName : String) :
    (initial moduleName).symbols.HasDeclared [] := by
  refine ⟨rfl, rfl, rfl, rfl, by simp, fun name notBuiltin _ => ?_⟩
  refine Option.eq_none_iff_forall_ne_some.2 fun entry isEntry => ?_
  obtain ⟨builtin, isIn, isName, -⟩ := builtin_of_lookup isEntry
  rw [List.mem_reverse] at isIn
  exact List.find?_eq_none.1 notBuiltin builtin isIn (beq_iff_eq.2 isName)

theorem AreFree.left {names others : List String} (free : AreFree (names ++ others)) :
    AreFree names where
  distinct := (List.nodup_append.1 free.distinct).1
  notBuiltin name isIn := free.notBuiltin name (List.mem_append_left _ isIn)
  notMain isIn := free.notMain (List.mem_append_left _ isIn)
  notResult name isIn := free.notResult name (List.mem_append_left _ isIn)

namespace Lower

variable {names : List String}

theorem attains_variable {name : String} (declared : symbols.HasDeclared names)
    (free : AreFree (names ++ [name])) (position : Position) :
    Attains (declareVariable .integer position name)
      (fun _ after => after.HasDeclared (names ++ [name])) symbols := by
  have notBuiltin := free.notBuiltin name (by simp)
  have isNew : name ∉ names := fun isIn => by
    have distinct := List.nodup_append.1 free.distinct
    exact distinct.2.2 name isIn name (by simp) rfl
  refine attains_declareVariable ?_ position fun entry isVariable => ?_
  · simp [SymbolTable.current, declared.enclosing, Table.has, declared.others name notBuiltin isNew]
  · have kept {other : String} (different : other ≠ name) :
        (symbols.add name entry).globals.lookup other = symbols.globals.lookup other := by
      simp [SymbolTable.add, declared.enclosing, List.lookup_cons, beq_false_of_ne different]
    refine ⟨by simp [SymbolTable.add, declared.enclosing],
      by simp [SymbolTable.add, declared.enclosing, declared.locals],
      by simp [SymbolTable.add, declared.enclosing, declared.forwards], ?_, ?_, ?_⟩
    · have different : Builtin.writeln.name ≠ name := fun same => by
        rw [← same] at notBuiltin
        cases notBuiltin
      exact (kept different).trans declared.writeln
    · intro other isIn
      by_cases same : other = name
      · refine ⟨entry, ?_, isVariable⟩
        simp [SymbolTable.add, declared.enclosing, same]
      · rw [kept same]
        exact declared.entries other (by simpa [same] using isIn)
    · intro other otherNotBuiltin notIn
      rw [List.mem_append, List.mem_singleton, not_or] at notIn
      exact (kept notIn.2).trans (declared.others other otherNotBuiltin notIn.1)

theorem attains_names {more : List String} (declared : symbols.HasDeclared names)
    (free : AreFree (names ++ more)) (position : Position) :
    Attains (more.forM (declareVariable .integer position))
      (fun _ after => after.HasDeclared (names ++ more)) symbols := by
  induction more generalizing names symbols with
  | nil => exact attains_pure (by rwa [List.append_nil])
  | cons name others ih =>
      have split : names ++ name :: others = (names ++ [name]) ++ others := by simp
      rw [split] at free ⊢
      refine (attains_variable declared free.left position).bind fun _ after declared => ?_
      exact ih declared free

theorem attains_declarations {more : List String} {declarations others : List Statement}
    (areVariables : AreVariables more declarations) (declared : symbols.HasDeclared names)
    (free : AreFree (names ++ more)) {post : Option Ending → SymbolTable → Prop}
    (h : ∀ after, after.HasDeclared (names ++ more) → Attains (statements others) post after) :
    Attains (statements (declarations ++ others)) post symbols := by
  induction areVariables generalizing names symbols with
  | nil => exact h symbols (by rwa [List.append_nil])
  | cons group position onOthers ih =>
      rw [← List.append_assoc] at free h
      rw [List.cons_append, statements, statement, bind_assoc]
      have isGroup : vars ⟨group, .integer, position⟩ =
        group.forM (declareVariable .integer position) := rfl
      rw [isGroup]
      refine (attains_names declared free.left position).bind fun _ after declared => ?_
      rw [pure_bind]
      exact ih declared free h

/-! ### The program's own body -/

def withMain (symbols : SymbolTable) (function : IR.FunctionId) (position : Position) : SymbolTable :=
  symbols.add mainName ⟨.callable 0 true, .function function, none, position⟩

def bodySymbols (symbols : SymbolTable) (function : IR.FunctionId) (position : Position)
    (result : Entry) : SymbolTable :=
  ((withMain symbols function position).enter function mainName).add (resultName mainName) result

theorem reads_bodySymbols (declared : symbols.HasDeclared (settings.map Prod.fst))
    (free : AreFree (settings.map Prod.fst)) (function : IR.FunctionId) (position : Position)
    (result : Entry) : (bodySymbols symbols function position result).Reads settings := by
  have kept {name : String} (notMain : name ≠ mainName) (notResult : name ≠ resultName mainName) :
      (bodySymbols symbols function position result).get? name = symbols.globals.lookup name := by
    simp [bodySymbols, withMain, SymbolTable.get?, SymbolTable.getOuter?, SymbolTable.add,
      SymbolTable.enter, declared.enclosing, declared.locals, declared.forwards, List.lookup_cons,
      beq_false_of_ne notMain, beq_false_of_ne notResult]
  have isInside : (bodySymbols symbols function position result).enclosing =
      some ⟨function, mainName⟩ := by
    simp [bodySymbols, withMain, SymbolTable.add, SymbolTable.enter]
  refine ⟨⟨_, isInside⟩, ?_, ?_⟩
  · exact (kept (by decide) (by decide)).trans declared.writeln
  · intro setting isIn
    have isName : setting.1 ∈ settings.map Prod.fst := List.mem_map_of_mem isIn
    obtain ⟨entry, isEntry, isVariable⟩ := declared.entries _ isName
    refine ⟨entry, ?_, isVariable⟩
    rw [kept (fun same => free.notMain (same ▸ isName)) (free.notResult _ isName mainName), isEntry]

theorem hasVariable_result {result : Entry} (isVariable : result.IsVariable)
    (function : IR.FunctionId) (position : Position) :
    (bodySymbols symbols function position result).HasVariable (resultName mainName) :=
  ⟨result, by simp [bodySymbols, SymbolTable.get?, SymbolTable.add, SymbolTable.enter], isVariable⟩

theorem attains_result (declared : symbols.HasDeclared names) (function : IR.FunctionId)
    (position : Position) : Attains (declareResult mainName position)
      (fun _ after => ∃ result : Entry, result.IsVariable ∧
        after = bodySymbols symbols function position result)
      ((withMain symbols function position).enter function mainName) := by
  have isNew : ((withMain symbols function position).enter function mainName).current.has
      (resultName mainName) = false := by
    simp [withMain, SymbolTable.current, SymbolTable.enter, SymbolTable.add, declared.enclosing,
      declared.locals, Table.has]
  have declares : Attains (declareVariable .integer position (resultName mainName))
      (fun _ after => ∃ result : Entry, result.IsVariable ∧
        after = bodySymbols symbols function position result)
      ((withMain symbols function position).enter function mainName) :=
    attains_declareVariable isNew position fun result isVariable => ⟨result, isVariable, rfl⟩
  refine declares.bind ?_
  rintro _ _ ⟨result, isVariable, rfl⟩
  refine (passes_address (hasVariable_result isVariable function position) position).bind fun _ => ?_
  rintro state isTable
  exact ⟨_, _, build_eq _ state, result, isVariable, isTable⟩

theorem passes_implicitReturn {heading : Heading}
    (isVariable : symbols.HasVariable (resultName heading.name)) :
    Passes (implicitReturn heading) symbols := by
  refine (passes_build _).bind fun isTerminated => ?_
  split
  · split
    · exact (passes_nameValue isVariable _).bind fun value => passes_build _
    · exact passes_build _
  · exact passes_pure _

theorem attains_main (declared : symbols.HasDeclared (settings.map Prod.fst))
    (free : AreFree (settings.map Prod.fst)) (position : Position) {body : Lower (Option Ending)}
    (passes : ∀ inner : SymbolTable, inner.Reads settings → Passes body inner) :
    Attains (definition ⟨mainName, [], some .integer, position⟩ body)
      (fun _ after => after.forwards = []) symbols := by
  have isNew : symbols.notDeclared mainName position = .ok () := by
    have notThere := declared.others mainName (by decide) free.notMain
    simp [SymbolTable.notDeclared, SymbolTable.current, declared.enclosing, Table.has, notThere]
  have defined : Passes (definedFunction ⟨mainName, [], some .integer, position⟩) symbols := by
    refine Attains.get fun state isTable => ?_
    have notForward : state.symbols.forwards.lookup mainName = none := by
      rw [isTable, declared.forwards]
      rfl
    dsimp only
    rw [notForward]
    exact Attains.ask isNew (passes_build _)
  refine defined.bind fun function => ?_
  -- The name goes into the globals; the result, the first local, may hide it.
  have callable : Attains (declareCallable mainName (.callable 0 true) (.function function) position)
      (fun _ after => after = withMain symbols function position) symbols :=
    Attains.ask isNew (attains_modifySymbols rfl)
  refine callable.bind ?_
  rintro _ _ rfl
  refine (passes_build _).bind fun entry => (passes_build _).bind fun _ => ?_
  have enters : Attains (modifySymbols (·.enter function mainName)) (fun _ after =>
      after = (withMain symbols function position).enter function mainName)
      (withMain symbols function position) := attains_modifySymbols rfl
  refine enters.bind ?_
  rintro _ _ rfl
  refine (attains_result declared function position).bind ?_
  rintro _ _ ⟨result, isVariable, rfl⟩
  have reads := reads_bodySymbols declared free function position result
  refine (passes_pure ()).bind fun _ => (passes _ reads).bind fun _ => ?_
  refine (passes_implicitReturn (hasVariable_result isVariable function position)).bind fun _ => ?_
  refine attains_modifySymbols ?_
  simp [bodySymbols, withMain, SymbolTable.leave, SymbolTable.add, SymbolTable.enter,
    declared.enclosing, declared.forwards]

end Lower

/-! ### Main result -/

theorem Program.Sets.exists_lower {program : Program} {body body' : List Statement}
    (sets : program.Sets settings body') (abstracts : Statement.AbstractsAll settings body body')
    (free : AreFree (settings.map Prod.fst)) (moduleName : String) :
    ∃ ir, program.lower moduleName = .ok ir := by
  obtain ⟨header, declarations, assignments, position, isProgram, isHeader, areVariables, areAssigned⟩ :=
    sets
  have body (inner : SymbolTable) (reads : inner.Reads settings) :
      Lower.Passes (Lower.statements (assignments ++ body')) inner :=
    Lower.passes_assignments areAssigned reads.settings (Lower.passes_statements abstracts reads)
  have main (after : SymbolTable) (declared : after.HasDeclared (settings.map Prod.fst)) :
      Lower.Attains (Lower.statements [Parse.mainCallable position (assignments ++ body')])
        (fun _ last => last.forwards = []) after := by
    rw [Lower.statements, Parse.mainCallable, Lower.statement, bind_assoc]
    refine (Lower.attains_main declared free position body).bind fun _ last isNil => ?_
    exact Lower.attains_pure isNil
  have items : Lower.Attains (Lower.statements program.statements) (fun _ last => last.forwards = [])
      (Lowering.initial moduleName).symbols := by
    have behind := Lower.attains_declarations areVariables (Lowering.hasDeclared_initial moduleName)
      free main
    rw [isProgram, List.append_assoc]
    rcases isHeader with rfl | ⟨name, rfl⟩
    · exact behind
    · rw [List.singleton_append, Lower.statements, Lower.statement, pure_bind]
      exact behind
  obtain ⟨ending, state, translated, isNil⟩ := items _ rfl
  have undefined : state.symbols.undefinedForwards = [] := by
    rw [SymbolTable.undefinedForwards, isNil]
    rfl
  refine ⟨state.builder.ir, ?_⟩
  rw [lower_eq, bind_of_ok _ translated, Lower.finish_of_nil undefined]
  rfl

end MiniPascal
