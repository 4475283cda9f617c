import MiniPascal.Proofs.Diagnostics.Parsing
import MiniPascal.Proofs.Layout.Programs
import MiniPascal.Proofs.Text.Lines

/-!
# Where errors of the translation point

The translation reports errors at positions of the tree.  A forward declaration that is never defined
is found in the symbol table, which has its position from the tree as well.
-/

namespace MiniPascal

namespace Lower

variable {α β : Type} {good : Position → Prop}

def Faults (good : Position → Prop) (action : Lower α) : Prop :=
  Guarded (fun _ => True) (fun error : SemanticError => good error.position) (fun _ => True) action

theorem faults_pure (a : α) : Faults good (pure a : Lower α) := guarded_pure trivial

theorem faults_throw {error : SemanticError} (isGood : good error.position) :
    Faults good (throw error : Lower α) := guarded_throw isGood

theorem faults_get : Faults good (get : Lower Lowering) := guarded_get

theorem faults_modify (change : Lowering → Lowering) : Faults good (modify change : Lower Unit) :=
  guarded_modify fun _ _ => trivial

theorem faults_build (action : IR.Build α) : Faults good (build action) :=
  fun _ _ => ⟨trivial, trivial⟩

theorem Faults.bind {action : Lower α} {next : α → Lower β} (first : Faults good action)
    (second : ∀ a, Faults good (next a)) : Faults good (action >>= next) :=
  Guarded.bind first fun a _ => second a

theorem faults_unless {condition : Prop} [Decidable condition] {error : SemanticError}
    {action : Lower α} (isGood : good error.position) (isAction : Faults good action) :
    Faults good (if condition then (throw error : Lower PUnit) >>= fun _ => action else action) := by
  split
  · exact (faults_throw isGood).bind fun _ => isAction
  · exact isAction

/-! ### Questions -/

def Complains (good : Position → Prop) (answer : Except SemanticError α) : Prop :=
  ∀ error, answer = .error error → good error.position

theorem complains_ok (a : α) : Complains good (.ok a : Except SemanticError α) :=
  fun _ isError => by cases isError

theorem complains_error {error : SemanticError} (isGood : good error.position) :
    Complains good (.error error : Except SemanticError α) := by
  rintro _ ⟨⟩
  exact isGood

theorem Complains.bind {answer : Except SemanticError α} {next : α → Except SemanticError β}
    (first : Complains good answer) (second : ∀ a, Complains good (next a)) :
    Complains good (answer >>= next) := by
  intro error isError
  cases answer with
  | ok a => exact second a error isError
  | error other =>
      cases isError
      exact first error rfl

theorem faults_ask {question : SymbolTable → Except SemanticError α}
    (complains : ∀ symbols, Complains good (question symbols)) : Faults good (ask question) := by
  intro state _
  unfold ask
  cases isAnswer : question state.symbols with
  | ok answer => exact ⟨trivial, trivial⟩
  | error error => exact complains state.symbols error isAnswer

section

variable {position : Position} (isGood : good position)
include isGood

theorem complains_declared (symbols : SymbolTable) (name : String) :
    Complains good (symbols.declared name position) := by
  unfold SymbolTable.declared
  split
  · exact complains_ok _
  · exact complains_error isGood

theorem complains_notDeclared (symbols : SymbolTable) (name : String) :
    Complains good (symbols.notDeclared name position) := by
  unfold SymbolTable.notDeclared
  split
  · exact complains_error isGood
  · exact complains_ok _

theorem complains_notDeclaredForward (symbols : SymbolTable) (name : String) :
    Complains good (symbols.notDeclaredForward name position) := by
  unfold SymbolTable.notDeclaredForward
  split
  · exact complains_error isGood
  · exact complains_ok _

theorem complains_constant (symbols : SymbolTable) (name : String) :
    Complains good (symbols.constant name position) := by
  refine (complains_declared isGood symbols name).bind fun entry => ?_
  split
  · exact complains_ok _
  · exact complains_error isGood

theorem complains_notConstant (symbols : SymbolTable) (name : String) :
    Complains good (symbols.notConstant name position) := by
  refine (complains_declared isGood symbols name).bind fun entry => ?_
  split
  · exact complains_error isGood
  · exact complains_ok _

/-! ### Expressions -/

theorem faults_declared (name : String) : Faults good (ask (·.declared name position)) :=
  faults_ask fun symbols => complains_declared isGood symbols name

theorem faults_notConstant (name : String) : Faults good (ask (·.notConstant name position)) :=
  faults_ask fun symbols => complains_notConstant isGood symbols name

theorem faults_requireRunning (stage : Stage) (what : NonConstant) :
    Faults good (requireRunning stage what position) := by
  cases stage with
  | constant => exact faults_throw isGood
  | running => exact faults_pure _

theorem faults_address (name : String) : Faults good (address name position) := by
  refine faults_ask fun symbols => (complains_declared isGood symbols name).bind fun entry => ?_
  split
  · exact complains_ok _
  · exact complains_error isGood

theorem faults_namePointer (name : String) : Faults good (namePointer name position) := by
  refine (faults_declared isGood name).bind fun entry => ?_
  split
  · exact faults_address isGood name
  · exact faults_address isGood (resultName name)
  · exact faults_throw isGood

theorem faults_elementPointer (array : String) {index : Lower IR.Operand}
    (isIndex : Faults good index) : Faults good (elementPointer array position index) := by
  refine (faults_declared isGood array).bind fun entry => ?_
  split
  · refine (faults_address isGood array).bind fun base => isIndex.bind fun index => ?_
    exact (faults_build _).bind fun offset => faults_build _
  · exact faults_throw isGood

theorem faults_asValue (callee : String) (result : CallResult) :
    Faults good (asValue callee position result) := by
  cases result with
  | value value => exact faults_pure _
  | nothing => exact faults_throw isGood
  | exited => exact faults_throw isGood

omit isGood in
theorem faults_emitCall (callee : IR.FunctionId) (arguments : List IR.Operand) :
    Faults good (emitCall callee arguments) := by
  refine (faults_build _).bind fun value? => ?_
  split <;> exact faults_pure _

theorem faults_callee (name : String) (arguments : Nat) (used : Bool) :
    Faults good (callee name arguments position used) := by
  refine (faults_declared isGood name).bind fun entry => ?_
  split
  · refine faults_unless isGood ?_
    split
    · exact faults_unless isGood (faults_unless isGood (faults_pure _))
    · exact faults_unless isGood (faults_pure _)
    · exact faults_throw isGood
  · exact faults_throw isGood

theorem faults_plainValue (name : String) : Faults good (plainValue name position) := by
  refine (faults_declared isGood name).bind fun entry => ?_
  split
  · exact (faults_address isGood name).bind fun pointer => faults_build _
  · exact faults_throw isGood
  · refine (faults_callee isGood name 0 true).bind fun storage => ?_
    split
    · exact (faults_emitCall _ _).bind fun result => faults_asValue isGood name result
    · exact faults_throw isGood

theorem faults_nameValue (stage : Stage) (name : String) :
    Faults good (nameValue stage name position) := by
  cases stage with
  | constant =>
      refine (faults_ask fun symbols => complains_constant isGood symbols name).bind fun entry => ?_
      split
      · exact faults_pure _
      · exact faults_throw isGood
  | running => exact faults_get.bind fun _ => faults_plainValue isGood _

theorem faults_exitCallable : Faults good (exitCallable position) := by
  refine faults_get.bind fun state => ?_
  dsimp only
  split
  · split
    · exact (faults_nameValue isGood _ _).bind fun value => faults_build _
    · exact faults_build _
  · exact faults_throw isGood

end

theorem faults_requireReadable {target : Expr} (within : target.Within good) :
    Faults good (requireReadable target) := by
  cases target with
  | ident name position =>
      exact (faults_notConstant within name).bind fun entry => faults_unless within (faults_pure _)
  | element array index position =>
      exact (faults_notConstant within.2 array).bind fun _ => faults_pure _
  | _ => exact faults_throw within.position

theorem faults_decrement {target : Expr} (within : target.Within good) :
    Faults good (decrement target) := by
  cases target with
  | ident name position =>
      refine (faults_notConstant within name).bind fun entry => faults_unless within ?_
      refine (faults_namePointer within name).bind fun pointer => (faults_build _).bind fun value => ?_
      exact (faults_build _).bind fun next => faults_build _
  | _ => exact faults_throw within.position

theorem faults_call {position : Position} (isGood : good position) (name : String)
    {arguments : List Expr} (within : Located.within good arguments) (used : Bool)
    {values : Lower (List IR.Operand)} {target : Lower IR.Operand} (areValues : Faults good values)
    (isTarget : Faults good target) :
    Faults good (call name arguments position used values target) := by
  refine (faults_callee isGood name _ used).bind fun storage => ?_
  cases storage with
  | function id => exact areValues.bind fun _ => faults_emitCall _ _
  | address pointer => exact faults_throw isGood
  | builtin builtin =>
      cases builtin with
      | writeln => exact areValues.bind fun _ => faults_get.bind fun _ => faults_emitCall _ _
      | readln =>
          have readable : Faults good (arguments.forM requireReadable) :=
            guarded_forM fun argument isIn => faults_requireReadable (within argument isIn)
          exact readable.bind fun _ => isTarget.bind fun _ => faults_get.bind fun _ =>
            faults_emitCall _ _
      | write =>
          exact areValues.bind fun _ => faults_get.bind fun _ => (faults_emitCall _ _).bind fun _ =>
            faults_pure _
      | dec =>
          have decremented : Faults good (arguments.forM decrement) :=
            guarded_forM fun argument isIn => faults_decrement (within argument isIn)
          exact decremented.bind fun _ => faults_pure _
      | exit => exact (faults_exitCallable isGood).bind fun _ => faults_pure _

mutual

theorem faults_expression (stage : Stage) {expr : Expr} (within : expr.Within good) :
    Faults good (expression stage expr) := by
  cases expr with
  | ident name position => exact faults_nameValue within stage name
  | number value position => exact faults_pure _
  | literal text position =>
      exact (faults_requireRunning within stage .literal).bind fun _ => faults_build _
  | binary op left right position =>
      refine (faults_expression stage within.1).bind fun first => ?_
      refine (faults_expression stage within.2.1).bind fun second => ?_
      exact faults_unless within.2.2 (faults_build _)
  | negate operand position | not operand position =>
      exact (faults_expression stage within.1).bind fun value => faults_build _
  | element array index position =>
      refine (faults_requireRunning within.2 stage .element).bind fun _ => ?_
      refine (faults_elementPointer within.2 array (faults_expression .running within.1)).bind
        fun pointer => faults_build _
  | call name arguments position =>
      refine (faults_requireRunning within.2 stage .call).bind fun _ => ?_
      refine (faults_call within.2 name (Expr.allWithin_iff.1 within.1) true
        (faults_expressions within.1) (faults_firstPointer within.1)).bind fun result => ?_
      exact faults_asValue within.2 name result

theorem faults_expressions {exprs : List Expr} (within : Expr.AllWithin good exprs) :
    Faults good (expressions exprs) := by
  cases exprs with
  | nil => exact faults_pure _
  | cons first others =>
      exact (faults_expression .running within.1).bind fun _ =>
        (faults_expressions within.2).bind fun _ => faults_pure _

theorem faults_firstPointer {exprs : List Expr} (within : Expr.AllWithin good exprs) :
    Faults good (firstPointer exprs) := by
  cases exprs with
  | nil => exact faults_pure _
  | cons first others => exact faults_pointer within.1

theorem faults_pointer {expr : Expr} (within : expr.Within good) : Faults good (pointer expr) := by
  cases expr with
  | ident name position => exact faults_namePointer within name
  | element array index position =>
      exact faults_elementPointer within.2 array (faults_expression .running within.1)
  | _ => exact faults_throw within.position

end

theorem faults_constantValue {expr : Expr} (within : expr.Within good) :
    Faults good (constantValue expr) := by
  refine (faults_expression .constant within).bind fun value => ?_
  split
  · exact faults_pure _
  · exact faults_throw within.position

/-! ### Statements -/

theorem faults_assign {assignment : Assignment} (within : assignment.Within good) :
    Faults good (assign assignment) := by
  unfold assign
  dsimp only
  split
  · exact faults_throw within.1.position
  · refine (faults_notConstant within.1.position _).bind fun _ => ?_
    refine (faults_pointer within.1).bind fun pointer => ?_
    exact (faults_expression .running within.2.1).bind fun value => faults_build _

theorem faults_currentFunction {position : Position} (isGood : good position) (what : Construct) :
    Faults good (currentFunction what position) := by
  refine faults_ask fun symbols => ?_
  split
  · exact complains_ok _
  · exact complains_error isGood

theorem faults_condition {test : Expr} (within : test.Within good) : Faults good (condition test) :=
  (faults_expression .running within).bind fun _ => faults_build _

theorem faults_intoBlock (block next : IR.BlockId) {body : Lower (Option Ending)}
    (isBody : Faults good body) : Faults good (intoBlock block next body) := by
  refine (faults_build _).bind fun _ => isBody.bind fun ending => ?_
  split
  · exact faults_build _
  · exact faults_pure _

theorem faults_conditional {test : Expr} {position : Position} (isTest : test.Within good)
    (isGood : good position) {holds fails : Lower (Option Ending)} (isHolds : Faults good holds)
    (isFails : Faults good fails) : Faults good (conditional test position holds fails) := by
  refine (faults_currentFunction isGood .conditional).bind fun function => ?_
  refine (faults_condition isTest).bind fun truth => ?_
  refine (faults_build _).bind fun thenBlock => (faults_build _).bind fun elseBlock => ?_
  refine (faults_build _).bind fun merge => (faults_build _).bind fun _ => ?_
  refine (faults_intoBlock thenBlock merge isHolds).bind fun _ => ?_
  exact (faults_intoBlock elseBlock merge isFails).bind fun _ => faults_build _

theorem faults_loop (function : IR.FunctionId) (id : LoopId) {test : Lower IR.Operand}
    {body : Lower (Option Ending)} (isTest : Faults good test) (isBody : Faults good body) :
    Faults good (loop function id test body) := by
  refine (faults_build _).bind fun testBlock => (faults_build _).bind fun bodyBlock => ?_
  refine (faults_build _).bind fun after => (faults_build _).bind fun _ => ?_
  refine (faults_build _).bind fun _ => isTest.bind fun truth => (faults_build _).bind fun _ => ?_
  refine (faults_modify _).bind fun _ => ?_
  exact (faults_intoBlock bodyBlock testBlock isBody).bind fun _ => faults_build _

theorem faults_forLoop (id : LoopId) {initial : Assignment} (direction : Direction) {limit : Expr}
    {position : Position} (isInitial : initial.Within good) (isLimit : limit.Within good)
    (isGood : good position) {body : Lower (Option Ending)} (isBody : Faults good body) :
    Faults good (forLoop id initial direction limit position body) := by
  have isCounter : Faults good (expression .running initial.target) :=
    faults_expression .running isInitial.1
  refine (faults_currentFunction isGood .forLoop).bind fun function => ?_
  refine (faults_assign isInitial).bind fun _ => faults_loop function id ?_ ?_
  · refine (faults_expression .running isLimit).bind fun limit => isCounter.bind fun current => ?_
    cases direction <;> exact faults_build _
  · refine isBody.bind fun ending => ?_
    dsimp only
    split
    · refine Faults.bind ?_ fun _ => faults_pure _
      refine (faults_pointer isInitial.1).bind fun pointer => isCounter.bind fun current => ?_
      cases direction <;> exact (faults_build _).bind fun next => faults_build _
    · exact faults_pure _

theorem faults_leaveLoop {position : Position} (isGood : good position) (id : LoopId) :
    Faults good (leaveLoop id position) := by
  refine faults_get.bind fun state => ?_
  split
  · exact faults_build _
  · exact faults_throw isGood

/-! ### Declarations -/

theorem faults_shape {type : DataType} (within : type.Within good) : Faults good (shape type) := by
  cases type with
  | integer => exact faults_pure _
  | array low high =>
      exact (faults_constantValue within.1).bind fun _ =>
        (faults_constantValue within.2).bind fun _ => faults_pure _

section

variable {position : Position} (isGood : good position)
include isGood

theorem faults_notDeclared (name : String) : Faults good (ask (·.notDeclared name position)) :=
  faults_ask fun symbols => complains_notDeclared isGood symbols name

theorem faults_notDeclaredForward (name : String) :
    Faults good (ask (·.notDeclaredForward name position)) :=
  faults_ask fun symbols => complains_notDeclaredForward isGood symbols name

theorem faults_allocate (name : String) (shape : Shape) :
    Faults good (allocate name shape position) := by
  unfold allocate
  cases shape with
  | integer =>
      refine faults_get.bind fun state => ?_
      split <;> exact faults_build _
  | array low high =>
      dsimp only
      split
      · exact faults_build _
      · exact faults_throw isGood
  | callable parameters returnsValue => exact faults_throw isGood

theorem faults_declareVariable (shape : Shape) (name : String) :
    Faults good (declareVariable shape position name) :=
  (faults_notDeclared isGood name).bind fun _ =>
    (faults_allocate isGood name shape).bind fun _ => faults_modify _

theorem faults_declareCallable (name : String) (shape : Shape) (storage : Storage) :
    Faults good (declareCallable name shape storage position) :=
  (faults_notDeclared isGood name).bind fun _ => faults_modify _

theorem faults_declareResult (name : String) : Faults good (declareResult name position) :=
  (faults_declareVariable isGood .integer (resultName name)).bind fun _ =>
    (faults_address isGood (resultName name)).bind fun _ => faults_build _

end

theorem faults_vars {group : VarGroup} (within : group.Within good) : Faults good (vars group) :=
  (faults_shape within.1).bind fun shape =>
    guarded_forM fun name _ => faults_declareVariable within.2 shape name

theorem faults_constantDeclaration (name : String) {value : Expr} {position : Position}
    (within : value.Within good) (isGood : good position) :
    Faults good (constantDeclaration name value position) :=
  (faults_constantValue within).bind fun _ => (faults_notDeclared isGood name).bind fun _ =>
    (faults_build _).bind fun _ => faults_modify _

theorem faults_forwardDeclaration {heading : Heading} (within : heading.Within good) :
    Faults good (forwardDeclaration heading) := by
  have isGood : good heading.position := within.2.2
  refine (faults_notDeclaredForward isGood heading.name).bind fun _ =>
    faults_get.bind fun state => faults_unless isGood ?_
  exact (faults_build _).bind fun id =>
    (faults_notDeclaredForward isGood heading.name).bind fun _ => faults_modify _

theorem faults_definedFunction {heading : Heading} (within : heading.Within good) :
    Faults good (definedFunction heading) := by
  have isGood : good heading.position := within.2.2
  refine faults_get.bind fun state => ?_
  dsimp only
  split
  · refine faults_unless isGood ?_
    split
    · exact faults_pure _
    · exact faults_throw isGood
  · exact (faults_notDeclared isGood heading.name).bind fun _ => faults_build _

theorem faults_declareParameters {parameters : List (String × Position)}
    (within : ∀ parameter ∈ parameters, good parameter.2) (first : Nat) :
    Faults good (declareParameters first parameters) := by
  induction parameters generalizing first with
  | nil => exact faults_pure _
  | cons parameter others ih =>
      have isGood := within parameter List.mem_cons_self
      refine (faults_declareVariable isGood .integer parameter.1).bind fun _ => ?_
      refine (faults_address isGood parameter.1).bind fun _ => (faults_build _).bind fun _ => ?_
      exact ih (fun other isIn => within other (List.mem_cons_of_mem _ isIn)) _

theorem faults_implicitReturn {heading : Heading} (within : heading.Within good) :
    Faults good (implicitReturn heading) := by
  refine (faults_build _).bind fun ended => ?_
  split
  · split
    · exact (faults_nameValue within.2.2 _ _).bind fun _ => faults_build _
    · exact faults_build _
  · exact faults_pure _

theorem faults_definition {heading : Heading} (within : heading.Within good)
    {body : Lower (Option Ending)} (isBody : Faults good body) :
    Faults good (definition heading body) := by
  have parameters : ∀ parameter ∈ heading.parameters.flatMap fun group =>
      group.names.map fun name => (name, group.position), good parameter.2 := by
    intro parameter isIn
    obtain ⟨group, isGroup, isIn⟩ := List.mem_flatMap.1 isIn
    obtain ⟨name, -, rfl⟩ := List.mem_map.1 isIn
    exact (within.1 group isGroup).2
  have filled : Faults good (do
      declareParameters 0 (heading.parameters.flatMap fun group =>
        group.names.map fun name => (name, group.position))
      let _ ← body
      implicitReturn heading
      modifySymbols (·.leave)) :=
    (faults_declareParameters parameters 0).bind fun _ => isBody.bind fun _ =>
      (faults_implicitReturn within).bind fun _ => faults_modify _
  refine (faults_definedFunction within).bind fun id => ?_
  refine (faults_declareCallable within.2.2 heading.name _ _).bind fun _ =>
    (faults_build _).bind fun entry => (faults_build _).bind fun _ => (faults_modify _).bind fun _ => ?_
  split
  · exact (faults_declareResult within.2.2 heading.name).bind fun _ => filled
  · exact filled

/-! ### Programs -/

mutual

/-- Every error of a statement is found at a position in it. -/
theorem faults_statement {item : Statement} (within : item.Within good) :
    Faults good (statement item) := by
  cases item with
  | program name => exact faults_pure _
  | vars group => exact (faults_vars within).bind fun _ => faults_pure _
  | constant name value position =>
      exact (faults_constantDeclaration name within.1 within.2).bind fun _ => faults_pure _
  | forward heading => exact (faults_forwardDeclaration within).bind fun _ => faults_pure _
  | callable heading body =>
      exact (faults_definition within.1 (faults_statements within.2)).bind fun _ => faults_pure _
  | call name arguments position =>
      have areArguments := Expr.allWithin_iff.2 within.1
      refine (faults_call within.2 name within.1 false (faults_expressions areArguments)
        (faults_firstPointer areArguments)).bind fun result => ?_
      split <;> exact faults_pure _
  | assign assignment => exact (faults_assign within).bind fun _ => faults_pure _
  | block body => exact faults_statements within
  | ifThen test holds position =>
      exact (faults_conditional within.1 within.2.2 (faults_statement within.2.1)
        (faults_pure _)).bind fun _ => faults_pure _
  | ifThenElse test holds fails position =>
      exact (faults_conditional within.1 within.2.2.2 (faults_statement within.2.1)
        (faults_statement within.2.2.1)).bind fun _ => faults_pure _
  | whileLoop id test body position =>
      refine Faults.bind ?_ fun _ => faults_pure _
      exact (faults_currentFunction within.2.2 .whileLoop).bind fun function =>
        faults_loop function id (faults_condition within.1) (faults_statement within.2.1)
  | forLoop id initial direction limit body position =>
      exact (faults_forLoop id direction within.1 within.2.1 within.2.2.2
        (faults_statement within.2.2.1)).bind fun _ => faults_pure _
  | leave id position => exact (faults_leaveLoop within id).bind fun _ => faults_pure _

theorem faults_statements {items : List Statement} (within : Statement.AllWithin good items) :
    Faults good (statements items) := by
  cases items with
  | nil => exact faults_pure _
  | cons first others =>
      refine (faults_statement within.1).bind fun ending => ?_
      split
      · exact faults_pure _
      · exact faults_statements within.2

end

end Lower

/-! ### Whole texts -/

theorem Parser.points_ofText (source : String) :
    match Parser.ofText source with
    | .ok parser => parser.Within source.toList
    | .error error => PointsInto source.toList error.position := by
  have outcome := Lexer.points_next (Lexer.within_ofText source)
  unfold Parser.ofText Parser.ofReader
  rw [show Lexer.ofReader (Reader.ofText source) = Lexer.ofText source from rfl]
  cases isNext : (Lexer.ofText source).next with
  | ok token lexer =>
      rw [isNext] at outcome
      exact ⟨outcome.2, outcome.1⟩
  | error error lexer =>
      rw [isNext] at outcome
      exact outcome

theorem Program.parse_ne_outOfFuel (source : String) : parse source ≠ .error .outOfFuel := by
  unfold parse
  rcases Parser.ofText_cases source with ⟨parser, isParser, -, -, -, settled, -⟩ | ⟨error, isError, -⟩
  · have bounded := parser.input_size_le_fuel
    rw [Input.size, Parser.input, List.length_map] at bounded
    have result := Parse.sameResult_programWith settled.alike bounded bounded
    rw [isParser]
    dsimp only
    rw [show Parse.program parser = Parse.programWith parser.fuel parser from rfl]
    generalize Parse.programWith parser.fuel parser = outcome at result
    cases result with
    | ok same => simp
    | error same fuelled => simpa using fuelled
  · rw [isError]
    simp

theorem Program.points_parse (source : String) :
    match parse source with
    | .ok program => Located.within (PointsInto source.toList) program
    | .error error => PointsInto source.toList error.position := by
  have fuelled := parse_ne_outOfFuel source
  have started := Parser.points_ofText source
  unfold parse at fuelled ⊢
  cases isParser : Parser.ofText source with
  | error error =>
      rw [isParser] at started
      exact started
  | ok parser =>
      rw [isParser] at started fuelled
      have outcome := Parse.points_programWith parser.fuel parser started
      rw [show Parse.programWith parser.fuel parser = Parse.program parser from rfl] at outcome
      dsimp only at fuelled ⊢
      cases isProgram : Parse.program parser with
      | ok program rest =>
          rw [isProgram] at outcome
          exact outcome.1
      | error error rest =>
          rw [isProgram] at outcome fuelled
          exact outcome.resolve_left fun isOut => fuelled (isOut ▸ rfl)

/-- Errors of the translation have positions of the tree. -/
theorem Program.lower_error_points {good : Position → Prop} {program : Program}
    {moduleName : String} {error : SemanticError} (grammatical : program.Grammatical)
    (within : Located.within good program) (failed : program.lower moduleName = .error error) :
    good error.position := by
  rw [lower_eq] at failed
  have outcome := Lower.faults_statements (Statement.allWithin_iff.2 within)
    (Lowering.initial moduleName) trivial
  cases translated : Lower.statements program.statements (Lowering.initial moduleName) with
  | error error' state =>
      rw [translated] at outcome
      rw [bind_of_error _ translated] at failed
      cases failed
      exact outcome
  | ok ending state =>
      rw [bind_of_ok _ translated] at failed
      cases finished : Lower.finish state with
      | ok _ state' =>
          rw [finished] at failed
          cases failed
      | error error' state' =>
          rw [finished] at failed
          cases failed
          obtain ⟨heading, isForward, rfl, -⟩ :=
            (Lowering.lists_of_statements grammatical translated).first_of_finish finished
          have isHeading : Heading.Within good heading :=
            within (.forward heading) (mem_forwardHeadings.1 isForward)
          exact isHeading.2.2

theorem CompileError.render_of_has {source : String} {error : CompileError}
    {line : Text.LineOf source.toList} (has : line.Has error.position) :
    error.render source = "Error on line " ++ toString line.number ++ ": " ++ error.message ++
      "\n" ++ String.ofList line.content := by
  unfold render
  rw [has.1, line.line?_number]

theorem PointsInto.exists_line {text : List Char} {position : Position}
    (points : PointsInto text position) (notEmpty : text ≠ []) :
    ∃ line : Text.LineOf text, line.Has position := by
  rcases points with ⟨before, char, after, rfl, rfl⟩ | rfl
  · exact Text.LineOf.has_place before char after
  · obtain ⟨line, has, -⟩ := Text.LineOf.has_endPlace notEmpty
    exact ⟨line, has⟩

/-- An error of any class is found at a character of the source or at its end, which is `1:1` if the
source is empty.  Otherwise the error is shown with the number and the characters of the physical line
that its position is on. -/
theorem compile_error_points {source moduleName : String} {error : CompileError}
    (failed : compile source moduleName = .error error) :
    PointsInto source.toList error.position ∧ (source = "" → error.position = ⟨1, 1⟩) ∧
      (source ≠ "" → ∃ line : Text.LineOf source.toList, line.Has error.position ∧
        error.render source = "Error on line " ++ toString line.number ++ ": " ++ error.message ++
          "\n" ++ String.ofList line.content) := by
  have points : PointsInto source.toList error.position := by
    have parsing := Program.points_parse source
    unfold compile at failed
    cases parsed : Program.parse source with
    | error error' =>
        rw [parsed] at failed parsing
        cases failed
        exact parsing
    | ok program =>
        rw [parsed] at failed parsing
        dsimp only at failed
        cases lowered : program.lower moduleName with
        | ok ir =>
            rw [lowered] at failed
            cases failed
        | error error' =>
            rw [lowered] at failed
            cases failed
            exact Program.lower_error_points (Program.grammatical_of_parse parsed) parsing lowered
  refine ⟨points, fun isEmpty => ?_, fun notEmpty => ?_⟩
  · rw [isEmpty] at points
    exact pointsInto_nil.1 points
  · obtain ⟨line, has⟩ := points.exists_line (by simpa using notEmpty)
    exact ⟨line, has, CompileError.render_of_has has⟩

/-- The theorem at a name that is not declared, on a line that ends with a carriage return and a line
feed. -/
theorem compile_error_points_undeclared :
    compile "begin\r\n  x := 1;\r\nend." "example" = .error (.semantic (.undeclared "x" ⟨2, 3⟩)) ∧
    CompileError.render (.semantic (.undeclared "x" ⟨2, 3⟩)) "begin\r\n  x := 1;\r\nend." =
      "Error on line 2: Var 'x' not declared\n  x := 1;" ∧
    PointsInto "begin\r\n  x := 1;\r\nend.".toList ⟨2, 3⟩ ∧
    ∃ line : Text.LineOf "begin\r\n  x := 1;\r\nend.".toList, line.Has ⟨2, 3⟩ ∧
      CompileError.render (.semantic (.undeclared "x" ⟨2, 3⟩)) "begin\r\n  x := 1;\r\nend." =
        "Error on line " ++ toString line.number ++ ": " ++ "Var 'x' not declared" ++ "\n" ++
          String.ofList line.content := by
  have failed : compile "begin\r\n  x := 1;\r\nend." "example" =
      .error (.semantic (.undeclared "x" ⟨2, 3⟩)) := by decide +kernel
  obtain ⟨points, -, shown⟩ := compile_error_points failed
  exact ⟨failed, by decide +kernel, points, shown (by decide)⟩

end MiniPascal
