import MiniPascal.Proofs.Layout.Programs
import MiniPascal.Proofs.Printing.Programs

/-!
# Printed programs are compiled to the same module

A program that is translated and its normal form are translated by the same steps of building.  Where
a program is refused its normal form may be none the worse, since a variable can stand where a call
cannot.  So `Lower.Repeats` compares two steps where the first one succeeds.
-/

namespace MiniPascal

open IR (Operand)

/-! ### Tables with the built-in callables -/

/-- What is said of a built-in callable is true. -/
def Entry.Genuine (entry : Entry) : Prop :=
  ∀ builtin, entry.storage = .builtin builtin →
    entry.shape = .callable builtin.parameterCount builtin.returnsValue

namespace SymbolTable

structure Genuine (symbols : SymbolTable) : Prop where
  globals : ∀ item ∈ symbols.globals, item.2.Genuine
  locals : ∀ item ∈ symbols.locals, item.2.Genuine
  forwards : ∀ item ∈ symbols.forwards, item.2.Genuine

variable {symbols : SymbolTable} (genuine : symbols.Genuine)

include genuine

theorem Genuine.get? {name : String} {entry : Entry} (isEntry : symbols.get? name = some entry) :
    entry.Genuine := by
  have outer (isEntry : symbols.getOuter? name = some entry) : entry.Genuine := by
    rcases Option.or_eq_some_iff.1 isEntry with isForward | ⟨-, isGlobal⟩
    · exact genuine.forwards _ (Table.mem_of_lookup isForward)
    · exact genuine.globals _ (Table.mem_of_lookup isGlobal)
  unfold SymbolTable.get? at isEntry
  split at isEntry
  · rcases Option.or_eq_some_iff.1 isEntry with isLocal | ⟨-, isOuter⟩
    · exact genuine.locals _ (Table.mem_of_lookup isLocal)
    · exact outer isOuter
  · exact outer isEntry

theorem Genuine.add (name : String) {entry : Entry} (isGenuine : entry.Genuine) :
    (symbols.add name entry).Genuine := by
  unfold SymbolTable.add
  split
  · exact ⟨genuine.globals, List.forall_mem_cons.2 ⟨isGenuine, genuine.locals⟩, genuine.forwards⟩
  · exact ⟨List.forall_mem_cons.2 ⟨isGenuine, genuine.globals⟩, genuine.locals, genuine.forwards⟩

theorem Genuine.addForward (name : String) {entry : Entry} (isGenuine : entry.Genuine) :
    (symbols.addForward name entry).Genuine :=
  ⟨genuine.globals, genuine.locals, List.forall_mem_cons.2 ⟨isGenuine, genuine.forwards⟩⟩

theorem Genuine.leave : symbols.leave.Genuine := ⟨genuine.globals, nofun, genuine.forwards⟩

end SymbolTable

theorem Lowering.genuine_initial (moduleName : String) :
    (Lowering.initial moduleName).symbols.Genuine := by
  refine ⟨fun item isIn => ?_, nofun, nofun⟩
  obtain ⟨builtin, -, rfl⟩ := List.mem_map.1 isIn
  rintro _ ⟨⟩
  rfl

/-! ### Steps that repeat others -/

namespace Lower

variable {α β : Type} {action action' : Lower α} {next next' : α → Lower β}

/-- Where the first step succeeds, the second one does the same, and the tables remain genuine. -/
def Repeats (action action' : Lower α) : Prop :=
  ∀ state a state', state.symbols.Genuine → action state = .ok a state' →
    action' state = .ok a state' ∧ state'.symbols.Genuine

theorem repeats_of_ensures (ensured : ∀ state : Lowering, state.symbols.Genuine →
    Ensures action (fun _ state' => state'.symbols.Genuine) state) : Repeats action action :=
  fun state a state' genuine isOk => ⟨isOk, ensured state genuine a state' isOk⟩

theorem IsStraight.repeats (straight : action.IsStraight) : Repeats action action :=
  repeats_of_ensures fun state genuine =>
    (straight state).mono fun _ _ straight => straight.symbols ▸ genuine

theorem repeats_pure (a : α) : Repeats (pure a) (pure a) := (isStraight_pure a).repeats

theorem repeats_build (build : IR.Build α) : Repeats (Lower.build build) (Lower.build build) :=
  repeats_of_ensures fun _ genuine => ensures_build.2 genuine

theorem repeats_throw (error : SemanticError) : Repeats (throw error) action :=
  fun _ _ _ _ isOk => absurd isOk throw_eq_ok

theorem Repeats.bind (first : Repeats action action') (second : ∀ a, Repeats (next a) (next' a)) :
    Repeats (action >>= next) (action' >>= next') := by
  intro state b state' genuine isOk
  obtain ⟨a, middle, isFirst, isSecond⟩ := bind_eq_ok.1 isOk
  obtain ⟨isFirst', genuine⟩ := first state a middle genuine isFirst
  obtain ⟨isSecond', genuine⟩ := second a middle b state' genuine isSecond
  exact ⟨bind_eq_ok.2 ⟨a, middle, isFirst', isSecond'⟩, genuine⟩

theorem IsStraight.then (straight : action.IsStraight) (second : ∀ a, Repeats (next a) (next' a)) :
    Repeats (action >>= next) (action >>= next') :=
  straight.repeats.bind second

theorem repeats_forM {ι : Type} {each each' : ι → Lower Unit} (change : ι → ι)
    (repeats : ∀ item, Repeats (each item) (each' (change item))) (items : List ι) :
    Repeats (items.forM each) ((items.map change).forM each') := by
  induction items with
  | nil => exact repeats_pure _
  | cons first others ih => exact (repeats first).bind fun _ => ih

/-! ### Expressions -/

theorem expression_number (stage : Stage) (value : Int32) (position : Position) :
    expression stage (Expr.number value position).norm = pure (Operand.int value) := by
  rw [Expr.norm]
  split
  · have isValue : (0 : Int32) - -value = value := by simp
    rw [expression, expression, pure_bind]
    change build (pure (Operand.int (0 - -value))) = _
    rw [isValue]
    rfl
  · rw [expression]

theorem nameValue_of_callee {state : Lowering} {name : String} {position : Position}
    {id : IR.FunctionId} (isCallee : callee name 0 position true state = .ok (.function id) state) :
    nameValue .running name position state = (emitCall id [] >>= asValue name position) state := by
  obtain ⟨-, callable⟩ := ensures_callee name 0 position true state _ _ isCallee
  obtain ⟨entry, returnsValue, isEntry, isShape, -⟩ := callable.entry
  have isName : state.symbols.valueName (state.symbols.size + 1) name = name := by
    obtain ⟨shape, storage, constant, place⟩ := entry
    obtain rfl : shape = _ := isShape
    rw [SymbolTable.valueName, isEntry]
  rw [nameValue, get_bind, isName, plainValue, bind_of_ok _ (declared_of_get? isEntry position)]
  simp only [isShape]
  rw [bind_of_ok _ isCallee]

theorem repeats_call_nil (name : String) (position : Position) :
    Repeats (call name [] position true (expressions []) (firstPointer []) >>= asValue name position)
      (nameValue .running name position) := by
  intro state a state' genuine isOk
  have straight := (isStraight_call name [] position true).bind fun result =>
    isStraight_asValue name position result
  refine ⟨?_, (straight.repeats state a state' genuine isOk).2⟩
  rw [call, bind_assoc, List.length_nil] at isOk
  obtain ⟨storage, _, isCallee, isOk⟩ := bind_eq_ok.1 isOk
  obtain ⟨rfl, callable⟩ := ensures_callee name 0 position true state _ _ isCallee
  cases storage with
  | address pointer => exact absurd rfl (callable.notAddress pointer)
  | function id =>
      rw [nameValue_of_callee isCallee]
      simpa [expressions] using isOk
  | builtin builtin =>
      obtain ⟨entry, returnsValue, isEntry, isShape, isStorage, -⟩ := callable.entry
      have isShape' := genuine.get? isEntry builtin isStorage
      have isUsed := callable.builtin builtin rfl rfl
      rw [isShape, Shape.callable.injEq] at isShape'
      cases builtin <;> first | exact absurd isShape'.1 (by decide) | exact absurd isUsed (by decide)

theorem repeats_elementPointer (array : String) (position : Position) {index index' : Lower Operand}
    (repeats : Repeats index index') :
    Repeats (elementPointer array position index) (elementPointer array position index') := by
  refine (isStraight_ask _).then fun entry => ?_
  split
  · exact (isStraight_address _ _).then fun base => repeats.bind fun value =>
      (repeats_build _).bind fun offset => repeats_build _
  · exact repeats_throw _

theorem repeats_requireReadable (target : Expr) :
    Repeats (requireReadable target) (requireReadable target.norm) := by
  cases target with
  | ident name position => exact (isStraight_requireReadable _).repeats
  | element array index position => exact (isStraight_ask _).then fun _ => repeats_pure _
  | _ => exact repeats_throw _

theorem repeats_decrement (target : Expr) : Repeats (decrement target) (decrement target.norm) := by
  cases target with
  | ident name position => exact (isStraight_decrement _).repeats
  | _ => exact repeats_throw _

theorem repeats_call (name : String) (arguments : List Expr) (position : Position) (used : Bool)
    {values values' : Lower (List Operand)} {target target' : Lower Operand}
    (repeats : Repeats values values') (repeats' : Repeats target target') :
    Repeats (call name arguments position used values target)
      (call name (Expr.normAll arguments) position used values' target') := by
  rw [Expr.normAll_eq]
  unfold call
  rw [List.length_map]
  refine (isStraight_callee _ _ _ _).then fun storage => ?_
  cases storage with
  | function id => exact repeats.bind fun _ => (isStraight_emitCall _ _).repeats
  | address pointer => exact repeats_throw _
  | builtin builtin =>
      cases builtin with
      | writeln =>
          exact repeats.bind fun _ => isStraight_get.then fun _ => (isStraight_emitCall _ _).repeats
      | readln =>
          exact (repeats_forM Expr.norm repeats_requireReadable arguments).bind fun _ =>
            repeats'.bind fun _ => isStraight_get.then fun _ => (isStraight_emitCall _ _).repeats
      | write =>
          exact repeats.bind fun _ => isStraight_get.then fun _ =>
            (isStraight_emitCall _ _).then fun _ => repeats_pure _
      | dec =>
          exact (repeats_forM Expr.norm repeats_decrement arguments).bind fun _ => repeats_pure _
      | exit => exact (isStraight_exitCallable _).then fun _ => repeats_pure _

mutual

theorem repeats_expression (stage : Stage) (expr : Expr) :
    Repeats (expression stage expr) (expression stage expr.norm) := by
  cases expr with
  | ident name position => exact (isStraight_nameValue _ _ _).repeats
  | number value position =>
      rw [expression_number]
      exact repeats_pure _
  | literal text position => exact (isStraight_expression _ _).repeats
  | binary op left right position =>
      refine (repeats_expression stage left).bind fun first => ?_
      refine (repeats_expression stage right).bind fun second => ?_
      dsimp only
      split
      · exact (isStraight_throw _).then fun _ => repeats_build _
      · exact repeats_build _
  | negate operand position | not operand position =>
      exact (repeats_expression stage operand).bind fun value => repeats_build _
  | element array index position =>
      exact (isStraight_requireRunning _ _ _).then fun _ =>
        (repeats_elementPointer _ _ (repeats_expression .running index)).bind fun _ => repeats_build _
  | call name arguments position =>
      cases arguments with
      | nil =>
          cases stage with
          | constant => exact repeats_throw _
          | running => exact repeats_call_nil name position
      | cons first others =>
          rw [Expr.norm_call name (List.cons_ne_nil first others)]
          exact (isStraight_requireRunning _ _ _).then fun _ =>
            (repeats_call name (first :: others) position true (repeats_expressions (first :: others))
              (repeats_firstPointer (first :: others))).bind fun result =>
                (isStraight_asValue _ _ _).repeats

theorem repeats_expressions (exprs : List Expr) :
    Repeats (expressions exprs) (expressions (Expr.normAll exprs)) := by
  cases exprs with
  | nil => exact repeats_pure _
  | cons first others =>
      exact (repeats_expression .running first).bind fun _ =>
        (repeats_expressions others).bind fun _ => repeats_pure _

theorem repeats_firstPointer (exprs : List Expr) :
    Repeats (firstPointer exprs) (firstPointer (Expr.normAll exprs)) := by
  cases exprs with
  | nil => exact repeats_pure _
  | cons first others => exact repeats_pointer first

theorem repeats_pointer (expr : Expr) : Repeats (pointer expr) (pointer expr.norm) := by
  cases expr with
  | ident name position => exact (isStraight_namePointer _ _).repeats
  | element array index position =>
      exact repeats_elementPointer _ _ (repeats_expression .running index)
  | _ => exact repeats_throw _

end

theorem repeats_constantValue (expr : Expr) :
    Repeats (constantValue expr) (constantValue expr.norm) := by
  refine (repeats_expression .constant expr).bind fun value => ?_
  cases value with
  | int value => exact repeats_pure _
  | _ => exact repeats_throw _

/-! ### Statements -/

theorem repeats_assign (assignment : Assignment) :
    Repeats (assign assignment) (assign assignment.norm) := by
  obtain ⟨target, value, position⟩ := assignment
  cases target with
  | ident name place | element array index place =>
      exact (isStraight_ask _).then fun _ => (repeats_pointer _).bind fun _ =>
        (repeats_expression .running value).bind fun _ => repeats_build _
  | _ => exact repeats_throw _

theorem repeats_condition (test : Expr) : Repeats (condition test) (condition test.norm) :=
  (repeats_expression .running test).bind fun _ => repeats_build _

section

variable {body body' holds holds' fails fails' : Lower (Option Ending)}

theorem repeats_intoBlock (block next : IR.BlockId) (repeats : Repeats body body') :
    Repeats (intoBlock block next body) (intoBlock block next body') := by
  refine (repeats_build _).bind fun _ => repeats.bind fun ending => ?_
  split
  · exact repeats_build _
  · exact repeats_pure _

theorem repeats_conditional (test : Expr) (position : Position) (repeats : Repeats holds holds')
    (repeats' : Repeats fails fails') :
    Repeats (conditional test position holds fails) (conditional test.norm position holds' fails') :=
  (isStraight_ask _).then fun _ => (repeats_condition test).bind fun _ =>
    (repeats_build _).bind fun _ => (repeats_build _).bind fun _ => (repeats_build _).bind fun _ =>
      (repeats_build _).bind fun _ => (repeats_intoBlock _ _ repeats).bind fun _ =>
        (repeats_intoBlock _ _ repeats').bind fun _ => repeats_build _

theorem repeats_loop (function : IR.FunctionId) (id : LoopId) {test test' : Lower Operand}
    (repeats : Repeats test test') (repeats' : Repeats body body') :
    Repeats (loop function id test body) (loop function id test' body') := by
  refine (repeats_build _).bind fun _ => (repeats_build _).bind fun _ => (repeats_build _).bind fun _ =>
    (repeats_build _).bind fun _ => (repeats_build _).bind fun _ => repeats.bind fun _ =>
      (repeats_build _).bind fun _ => Repeats.bind ?_ fun _ =>
        (repeats_intoBlock _ _ repeats').bind fun _ => repeats_build _
  exact repeats_of_ensures fun _ genuine => ensures_modify.2 genuine

theorem repeats_withinLimit (counter : Expr) (direction : Direction) (limit : Expr) :
    Repeats (withinLimit counter direction limit) (withinLimit counter.norm direction limit.norm) := by
  refine (repeats_expression .running limit).bind fun _ =>
    (repeats_expression .running counter).bind fun _ => ?_
  cases direction <;> exact repeats_build _

theorem repeats_advanceCounter (counter : Expr) (direction : Direction) :
    Repeats (advanceCounter counter direction) (advanceCounter counter.norm direction) := by
  refine (repeats_pointer counter).bind fun _ => (repeats_expression .running counter).bind fun _ => ?_
  cases direction <;> exact (repeats_build _).bind fun _ => repeats_build _

theorem repeats_whileLoop (id : LoopId) (test : Expr) (position : Position)
    (repeats : Repeats body body') :
    Repeats (whileLoop id test position body) (whileLoop id test.norm position body') :=
  (isStraight_ask _).then fun _ => repeats_loop _ id (repeats_condition test) repeats

theorem repeats_forLoop (id : LoopId) (initial : Assignment) (direction : Direction) (limit : Expr)
    (position : Position) (repeats : Repeats body body') :
    Repeats (forLoop id initial direction limit position body)
      (forLoop id initial.norm direction limit.norm position body') := by
  refine (isStraight_ask _).then fun _ => (repeats_assign initial).bind fun _ =>
    repeats_loop _ id (repeats_withinLimit initial.target direction limit)
      (repeats.bind fun ending => ?_)
  dsimp only
  split
  · exact (repeats_advanceCounter initial.target direction).bind fun _ => repeats_pure _
  · exact repeats_pure _

end

theorem repeats_leaveLoop (id : LoopId) (position : Position) :
    Repeats (leaveLoop id position) (leaveLoop id position) := by
  refine isStraight_get.then fun state => ?_
  split
  · exact repeats_build _
  · exact repeats_throw _

theorem statement_braced (tree : Statement) : statement tree.braced = statement tree := by
  have alone : statement (.block [tree]) = statement tree := by
    rw [statement, statements, statements]
    refine Eq.trans (congrArg (statement tree >>= ·) (funext fun ending => ?_)) (bind_pure _)
    cases ending <;> rfl
  cases tree with
  | block body => rfl
  | _ => exact alone

/-! ### Declarations -/

theorem repeats_shape (type : DataType) : Repeats (shape type) (shape type.norm) := by
  cases type with
  | integer => exact repeats_pure _
  | array low high =>
      exact (repeats_constantValue low).bind fun _ => (repeats_constantValue high).bind fun _ =>
        repeats_pure _

theorem repeats_declareVariable (shape : Shape) (position : Position) (name : String) :
    Repeats (declareVariable shape position name) (declareVariable shape position name) :=
  repeats_of_ensures fun _ genuine =>
    ensures_declareVariable fun _ _ _ => genuine.add name fun _ => nofun

theorem repeats_vars (group : VarGroup) : Repeats (vars group) (vars group.norm) := by
  refine (repeats_shape group.type).bind fun shape => ?_
  have repeats := repeats_forM id (repeats_declareVariable shape group.position) group.names
  rwa [List.map_id] at repeats

theorem repeats_constantDeclaration (name : String) (value : Expr) (position : Position) :
    Repeats (constantDeclaration name value position) (constantDeclaration name value.norm position) :=
  (repeats_constantValue value).bind fun _ => repeats_of_ensures fun _ genuine =>
    ensures_declareConstant fun _ => genuine.add name fun _ => nofun

section

variable (heading : Heading)

theorem parameterCount_norm : heading.norm.parameterCount = heading.parameterCount := by
  simp only [Heading.parameterCount, Heading.parameterNames, Heading.norm, List.flatMap_map, VarGroup.norm]

theorem returns_norm : heading.norm.returns.isSome = heading.returns.isSome :=
  Option.isSome_map

theorem shape_norm : heading.norm.shape = heading.shape := by
  rw [Heading.shape, Heading.shape, parameterCount_norm, returns_norm]

theorem newFunction_norm : newFunction heading.norm = newFunction heading := by
  rw [newFunction, newFunction, parameterCount_norm, returns_norm]
  rfl

theorem forwardDeclaration_norm : forwardDeclaration heading.norm = forwardDeclaration heading := by
  rw [forwardDeclaration, forwardDeclaration, newFunction_norm, shape_norm]
  rfl

theorem definition_norm (body : Lower (Option Ending)) :
    definition heading.norm body = definition heading body := by
  have parameters : (heading.norm.parameters.flatMap fun group =>
      group.names.map fun name => (name, group.position)) =
      heading.parameters.flatMap fun group => group.names.map fun name => (name, group.position) := by
    simp only [Heading.norm, List.flatMap_map, VarGroup.norm]
  unfold definition definedFunction implicitReturn
  rw [newFunction_norm, shape_norm, returns_norm, parameters]
  rfl

theorem repeats_forwardDeclaration :
    Repeats (forwardDeclaration heading) (forwardDeclaration heading) :=
  repeats_of_ensures fun _ genuine =>
    ensures_forwardDeclaration fun _ _ => genuine.addForward heading.name fun _ => nofun

theorem repeats_definedFunction : Repeats (definedFunction heading) (definedFunction heading) := by
  refine repeats_of_ensures fun state genuine => ?_
  unfold definedFunction
  simp only [ensures_bind, ensures_get]
  cases state.symbols.forwards.lookup heading.name with
  | none =>
      rw [newFunction, ensures_bind]
      exact ensures_ask fun _ _ => ensures_build.2 genuine
  | some entry =>
      by_cases sameShape : entry.shape = heading.shape
      · simp only [sameShape, ne_eq, not_true, if_false]
        split
        · exact ensures_pure.2 genuine
        · exact ensures_throw.2 trivial
      · simp [sameShape]

theorem repeats_declareResult (name : String) (position : Position) :
    Repeats (declareResult name position) (declareResult name position) :=
  (repeats_declareVariable _ _ _).bind fun _ => (isStraight_address _ _).then fun _ => repeats_build _

theorem repeats_declareParameters (first : Nat) (parameters : List (String × Position)) :
    Repeats (declareParameters first parameters) (declareParameters first parameters) := by
  induction parameters generalizing first with
  | nil => exact repeats_pure _
  | cons parameter others ih =>
      exact (repeats_declareVariable _ _ _).bind fun _ => (isStraight_address _ _).then fun _ =>
        (repeats_build _).bind fun _ => ih (first + 1)

theorem repeats_definition {body body' : Lower (Option Ending)} (repeats : Repeats body body') :
    Repeats (definition heading body) (definition heading.norm body') := by
  rw [definition_norm]
  have rest : Repeats
      (declareParameters 0 (heading.parameters.flatMap fun group =>
        group.names.map fun name => (name, group.position)) >>= fun _ => body >>= fun _ =>
          implicitReturn heading >>= fun _ => modifySymbols (·.leave))
      (declareParameters 0 (heading.parameters.flatMap fun group =>
        group.names.map fun name => (name, group.position)) >>= fun _ => body' >>= fun _ =>
          implicitReturn heading >>= fun _ => modifySymbols (·.leave)) :=
    (repeats_declareParameters 0 _).bind fun _ => repeats.bind fun _ =>
      (isStraight_implicitReturn heading).then fun _ =>
        repeats_of_ensures fun _ genuine => ensures_modify.2 genuine.leave
  refine (repeats_definedFunction heading).bind fun function =>
    Repeats.bind (repeats_of_ensures fun state genuine => ?declared) fun _ =>
      (repeats_build _).bind fun _ => (repeats_build _).bind fun _ =>
        Repeats.bind (repeats_of_ensures fun state genuine => ?entered) fun _ => ?opened
  case declared =>
    exact ensures_declareCallable fun _ => genuine.add heading.name fun _ => nofun
  case entered =>
    exact ensures_modify.2 ⟨genuine.globals, genuine.locals, genuine.forwards⟩
  case opened =>
    split
    · exact (repeats_declareResult heading.name heading.position).bind fun _ => rest
    · exact rest

end

theorem repeats_callStatement (name : String) (arguments : List Expr) (position : Position) :
    Repeats (callStatement name arguments position)
      (callStatement name (Expr.normAll arguments) position) :=
  repeats_call name arguments position false (repeats_expressions arguments)
    (repeats_firstPointer arguments)

mutual

/-- The normal form of a statement is translated as the statement is. -/
theorem repeats_statement (tree : Statement) : Repeats (statement tree) (statement tree.norm) := by
  cases tree with
  | program name => exact repeats_pure _
  | vars group => exact (repeats_vars group).bind fun _ => repeats_pure _
  | constant name value position =>
      exact (repeats_constantDeclaration name value position).bind fun _ => repeats_pure _
  | forward heading =>
      rw [Statement.norm, statement, statement, forwardDeclaration_norm]
      exact (repeats_forwardDeclaration heading).bind fun _ => repeats_pure _
  | callable heading body =>
      exact (repeats_definition heading (repeats_statements body)).bind fun _ => repeats_pure _
  | call name arguments position =>
      refine (repeats_callStatement name arguments position).bind fun result => ?_
      cases result <;> exact repeats_pure _
  | assign assignment => exact (repeats_assign assignment).bind fun _ => repeats_pure _
  | block body => exact repeats_statements body
  | ifThen test holds position =>
      exact (repeats_conditional test position (repeats_statement holds) (repeats_pure _)).bind
        fun _ => repeats_pure _
  | ifThenElse test holds fails position =>
      have repeats := repeats_conditional test position (repeats_statement holds) (repeats_statement fails)
      rw [← statement_braced holds.norm] at repeats
      exact repeats.bind fun _ => repeats_pure _
  | whileLoop id test body position =>
      exact (repeats_whileLoop id test position (repeats_statement body)).bind fun _ => repeats_pure _
  | forLoop id initial direction limit body position =>
      exact (repeats_forLoop id initial direction limit position (repeats_statement body)).bind
        fun _ => repeats_pure _
  | leave id position => exact (repeats_leaveLoop id position).bind fun _ => repeats_pure _

theorem repeats_statements (trees : List Statement) :
    Repeats (statements trees) (statements (Statement.normAll trees)) := by
  cases trees with
  | nil => exact repeats_pure _
  | cons first others =>
      refine (repeats_statement first).bind fun ending => ?_
      cases ending with
      | some ending => exact repeats_pure _
      | none => exact repeats_statements others

end

end Lower

/-! ### Programs -/

namespace Program

variable {program : Program} {moduleName : String} {ir : IR.Module}

theorem lower_norm (lowered : program.lower moduleName = .ok ir) :
    program.norm.lower moduleName = .ok ir := by
  obtain ⟨ending, state, translated, finished, rfl⟩ := lower_eq_ok lowered
  have repeats := Lower.repeats_statements program.statements
  obtain ⟨again, -⟩ := repeats _ _ _ (Lowering.genuine_initial moduleName) translated
  rw [lower_eq, norm, bind_of_ok _ again, finished]
  rfl

theorem lower_of_bare {program' : Program} (same : program.bare = program'.bare)
    (lowered : program.lower moduleName = .ok ir) : program'.lower moduleName = .ok ir := by
  obtain ⟨ending, state, translated, finished, rfl⟩ := lower_eq_ok lowered
  have result := Lower.same_of_bare same _ _ (.refl (Lowering.initial moduleName))
  rw [translated] at result
  generalize translated' : Lower.statements program'.statements _ = other at result
  cases result with | @ok _ _ _ state' _ alike => ?_
  have undefined := Lower.undefinedForwards_congr alike
  rw [(Lower.finish_eq_ok finished).2] at undefined
  have isNil : state'.symbols.undefinedForwards = [] := List.map_eq_nil_iff.1 undefined.symm
  rw [lower_eq, bind_of_ok _ translated', Lower.finish_of_nil isNil]
  exact congrArg (fun builder => Except.ok (IR.Builder.ir builder)) alike.builder.symm

end Program

/-- The printed text of a program whose last statement is its only callable `main` is compiled to the
module that the program is compiled to. -/
theorem compile_render {source moduleName : String} {program : Program} {ir : IR.Module}
    (parsed : Program.parse source = .ok program) (oneMain : program.HasOneMain)
    (compiled : compile source moduleName = .ok ir) :
    compile program.render moduleName = .ok ir := by
  obtain ⟨_, isProgram, lowered⟩ := compile_eq_ok compiled
  obtain rfl := Except.ok.inj (parsed.symm.trans isProgram)
  obtain ⟨again, parsedAgain, same⟩ :=
    Program.parse_render_of_grammatical (Program.grammatical_of_parse parsed) oneMain
  have loweredAgain := Program.lower_of_bare same.symm (Program.lower_norm lowered)
  unfold compile
  rw [parsedAgain]
  dsimp only
  rw [loweredAgain]

/-- The theorem at a program with a call without arguments, a wrapped number in a constant and a branch
in front of an `else`. -/
theorem compile_render_constant :
    ∃ program ir, Program.parse "const c = 4294967295; function f: integer; begin f := c end;
        begin if f() = c then writeln(f()) else exit end." = .ok program ∧ program.HasOneMain ∧
      compile "const c = 4294967295; function f: integer; begin f := c end;
        begin if f() = c then writeln(f()) else exit end." "example" = .ok ir ∧
      compile program.render "example" = .ok ir := by
  obtain ⟨program, parsed, oneMain⟩ := exists_of_any
    "const c = 4294967295; function f: integer; begin f := c end;
        begin if f() = c then writeln(f()) else exit end."
    (fun program => decide program.HasOneMain) (by decide +kernel)
  have isOk : (compile "const c = 4294967295; function f: integer; begin f := c end;
        begin if f() = c then writeln(f()) else exit end." "example").isOk = true := by decide +kernel
  obtain ⟨ir, compiled⟩ := exists_of_isOk isOk
  have oneMain := of_decide_eq_true oneMain
  exact ⟨program, ir, parsed, oneMain, compiled, compile_render parsed oneMain compiled⟩

end MiniPascal
