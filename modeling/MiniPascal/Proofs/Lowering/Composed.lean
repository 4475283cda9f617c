import MiniPascal.Proofs.Lowering.Straight
import MiniPascal.Proofs.Tree.Grammatical

/-!
# What the translation is put together from

Every step of the translation is put together from a few kinds of steps.  What each of those keeps,
the translation of whole statements keeps.
-/

namespace MiniPascal

open IR (BlockId Builder Build Operand Instruction)

variable {α β : Type}

/-! ### Code -/

namespace IR

def Function.signature (function : Function) : Function :=
  { function with blocks := #[], registers := 0 }

structure Builder.SameSignatures (old new : Builder) : Prop where
  globals : new.ir.globals = old.ir.globals
  functions : new.ir.functions.map (·.signature) = old.ir.functions.map (·.signature)

theorem Builder.SameSignatures.refl (builder : Builder) : builder.SameSignatures builder := ⟨rfl, rfl⟩

theorem Builder.SameSignatures.trans {first second third : Builder}
    (h₁ : first.SameSignatures second) (h₂ : second.SameSignatures third) :
    first.SameSignatures third :=
  ⟨h₂.globals.trans h₁.globals, h₂.functions.trans h₁.functions⟩

theorem Builder.SameSignatures.names {old new : Builder} (same : old.SameSignatures new) :
    new.ir.functions.toList.map (·.name) = old.ir.functions.toList.map (·.name) := by
  have names (builder : Builder) : builder.ir.functions.toList.map (·.name) =
      (builder.ir.functions.map (·.signature)).toList.map (·.name) := by
    rw [Array.toList_map, List.map_map]
    rfl
  rw [names, names, same.functions]

theorem Builder.sameSignatures_modifyFunction (builder : Builder) (id : FunctionId)
    {change : Function → Function}
    (keeps : ∀ function, (change function).signature = function.signature) :
    builder.SameSignatures (builder.modifyFunction id change) := by
  refine ⟨rfl, Array.ext_getElem? fun index => ?_⟩
  rw [Array.getElem?_map, Array.getElem?_map, functions_modifyFunction]
  split
  · rw [Option.map_map]
    exact congrArg (Option.map · _) (funext keeps)
  · rfl

namespace Build

def IsCode (action : Build α) : Prop :=
  ∀ builder : Builder, builder.SameSignatures (action builder).2

theorem isCode_pure (a : α) : IsCode (pure a) := fun builder => .refl builder

theorem isCode_get : IsCode (get : Build Builder) := fun builder => .refl builder

theorem IsCode.bind {action : Build α} {next : α → Build β} (h₁ : action.IsCode)
    (h₂ : ∀ a, (next a).IsCode) : IsCode (action >>= next) :=
  fun builder => (h₁ builder).trans (h₂ _ _)

theorem isCode_modify {change : Builder → Builder}
    (keeps : ∀ builder : Builder, builder.SameSignatures (change builder)) :
    IsCode (modify change : Build PUnit) := keeps

theorem isCode_freshRegister : IsCode freshRegister := by
  intro builder
  cases isHere : builder.insertPoint with
  | none =>
      simp only [freshRegister, bind_apply, get_apply, pure_apply, isHere]
      exact .refl builder
  | some here =>
      simp only [freshRegister, bind_apply, get_apply, pure_apply, set_apply, isHere]
      exact builder.sameSignatures_modifyFunction _ fun _ => rfl

theorem isCode_emit (instruction : Instruction) : IsCode (emit instruction) := by
  refine isCode_modify fun builder => ?_
  split
  · exact builder.sameSignatures_modifyFunction _ fun _ => rfl
  · exact .refl builder

theorem isCode_emitValue (instruction : Register → Instruction) :
    IsCode (emitValue instruction) := by
  refine isCode_freshRegister.bind fun register? => ?_
  cases register? with
  | none => exact isCode_pure _
  | some register => exact (isCode_emit _).bind fun _ => isCode_pure _

theorem isCode_arith (op : ArithOp) (left right : Operand) : IsCode (arith op left right) := by
  unfold arith
  split
  · exact isCode_pure _
  · exact isCode_emitValue _

theorem isCode_compare (predicate : Predicate) (left right : Operand) :
    IsCode (compare predicate left right) := by
  unfold compare
  split
  · exact isCode_pure _
  · exact isCode_emitValue _

theorem isCode_binary (op : BinaryOp) (left right : Operand) : IsCode (op.emit left right) := by
  cases op <;> first | exact isCode_arith _ _ _ | exact isCode_compare _ _ _

theorem isCode_call (callee : FunctionId) (arguments : List Operand) :
    IsCode (call callee arguments) := by
  refine isCode_get.bind fun builder => ?_
  split
  · exact (isCode_emitValue _).bind fun _ => isCode_pure _
  · exact (isCode_emit _).bind fun _ => isCode_pure _

theorem isCode_alloca (name : String) : IsCode (alloca name) := by
  refine isCode_get.bind fun builder => isCode_freshRegister.bind fun register? => ?_
  split
  · refine (isCode_modify fun builder => ?_).bind fun _ => isCode_pure _
    exact builder.sameSignatures_modifyFunction _ fun _ => rfl
  · exact isCode_pure _

theorem isCode_isTerminated : IsCode isTerminated := isCode_get.bind fun _ => isCode_pure _

theorem isCode_setInsertPoint (block : BlockId) : IsCode (setInsertPoint block) :=
  isCode_modify fun _ => ⟨rfl, rfl⟩

theorem isCode_appendBlock (id : FunctionId) (name : String) : IsCode (appendBlock id name) := by
  refine isCode_get.bind fun builder => (isCode_modify fun builder => ?_).bind fun _ => isCode_pure _
  exact builder.sameSignatures_modifyFunction _ fun _ => rfl

end Build

end IR

namespace Lower

/-- The answer is no complaint about a missing definition. -/
def Answers (answer : Except SemanticError α) : Prop :=
  ∀ name position, answer ≠ .error (.forwardNeverDefined name position)

theorem Answers.bind {answer : Except SemanticError α} {next : α → Except SemanticError β}
    (h₁ : Answers answer) (h₂ : ∀ a, Answers (next a)) : Answers (answer >>= next) := by
  intro name position isError
  cases answer with
  | ok a => exact h₂ a _ _ isError
  | error error =>
      cases isError
      exact h₁ _ _ rfl

theorem answers_declared (symbols : SymbolTable) (name : String) (position : Position) :
    Answers (symbols.declared name position) := by
  unfold SymbolTable.declared
  split <;> simp [Answers]

theorem answers_notDeclared (symbols : SymbolTable) (name : String) (position : Position) :
    Answers (symbols.notDeclared name position) := by
  unfold SymbolTable.notDeclared
  split <;> simp [Answers]

theorem answers_notDeclaredForward (symbols : SymbolTable) (name : String) (position : Position) :
    Answers (symbols.notDeclaredForward name position) := by
  unfold SymbolTable.notDeclaredForward
  split <;> simp [Answers]

theorem answers_constant (symbols : SymbolTable) (name : String) (position : Position) :
    Answers (symbols.constant name position) := by
  refine (answers_declared _ _ _).bind fun entry => ?_
  split <;> simp [Answers]

theorem answers_notConstant (symbols : SymbolTable) (name : String) (position : Position) :
    Answers (symbols.notConstant name position) := by
  refine (answers_declared _ _ _).bind fun entry => ?_
  split <;> simp [Answers]

/-! ### Steps -/

/-- How far an action may reach. -/
inductive Reach where
  /-- It appends code to one block. -/
  | straight
  /-- It goes on to other blocks. -/
  | jumps
  /-- It declares names. -/
  | declares
  deriving DecidableEq

/-- An action that is put together from the steps that the translation knows. -/
inductive Composed (reach : Reach) : {α : Type} → Lower α → Prop where
  | pure {α : Type} (a : α) : Composed reach (pure a)
  | throw {α : Type} {error : SemanticError}
      (differs : ∀ name position, error ≠ .forwardNeverDefined name position) :
      Composed reach (throw error : Lower α)
  | get : Composed reach (get : Lower Lowering)
  | ask {α : Type} {question : SymbolTable → Except SemanticError α}
      (answers : ∀ symbols, Answers (question symbols)) : Composed reach (ask question)
  | code {α : Type} {action : Build α} (isCode : action.IsCode) (isStraight : action.IsStraight) :
      Composed reach (build action)
  | text (text : String) : Composed reach (build (IR.Build.addText text))
  | block {α : Type} {action : Build α} (jumps : reach ≠ .straight) (isCode : action.IsCode) :
      Composed reach (build action)
  | exits (jumps : reach ≠ .straight) (change : List (LoopId × BlockId) → List (LoopId × BlockId)) :
      Composed reach (modify fun state => { state with exits := change state.exits })
  | function {α : Type} (declares : reach = .declares) (action : Build α) :
      Composed reach (build action)
  | symbols (declares : reach = .declares) (change : SymbolTable → SymbolTable) :
      Composed reach (modifySymbols change)
  | bind {α β : Type} {action : Lower α} {next : α → Lower β} :
      Composed reach action → (∀ a, Composed reach (next a)) → Composed reach (action >>= next)

variable {reach : Reach}

/-! Steps that append one instruction. -/

theorem composed_emit (instruction : Instruction) :
    Composed reach (build (IR.Build.emit instruction)) :=
  .code (IR.Build.isCode_emit _) (IR.Build.isStraight_emit _)

theorem composed_emitValue (instruction : IR.Register → Instruction) :
    Composed reach (build (IR.Build.emitValue instruction)) :=
  .code (IR.Build.isCode_emitValue _) (IR.Build.isStraight_emitValue _)

theorem composed_arith (op : IR.ArithOp) (left right : Operand) :
    Composed reach (build (IR.Build.arith op left right)) :=
  .code (IR.Build.isCode_arith _ _ _) (IR.Build.isStraight_arith _ _ _)

theorem composed_compare (predicate : IR.Predicate) (left right : Operand) :
    Composed reach (build (IR.Build.compare predicate left right)) :=
  .code (IR.Build.isCode_compare _ _ _) (IR.Build.isStraight_compare _ _ _)

theorem composed_declared (name : String) (position : Position) :
    Composed reach (ask (·.declared name position)) := Composed.ask fun _ => answers_declared _ _ _

theorem composed_forM {items : List α} {action : α → Lower Unit} (h : ∀ item, Composed reach (action item)) :
    Composed reach (items.forM action) := by
  induction items with
  | nil => exact .pure _
  | cons first others ih => exact (h first).bind fun _ => ih

/-! ### Expressions -/

theorem composed_requireRunning (stage : Stage) (what : NonConstant) (position : Position) :
    Composed reach (requireRunning stage what position) := by
  cases stage with
  | constant => exact .throw (by simp)
  | running => exact .pure _

theorem composed_address (name : String) (position : Position) : Composed reach (address name position) := by
  refine Composed.ask fun symbols => (answers_declared _ _ _).bind fun entry => ?_
  split <;> simp [Answers]

theorem composed_namePointer (name : String) (position : Position) :
    Composed reach (namePointer name position) := by
  refine (composed_declared _ _).bind fun entry => ?_
  split
  · exact composed_address _ _
  · exact composed_address _ _
  · exact .throw (by simp)

theorem composed_elementPointer (array : String) (position : Position) {index : Lower Operand}
    (h : Composed reach index) : Composed reach (elementPointer array position index) := by
  refine (composed_declared _ _).bind fun entry => ?_
  split
  · exact (composed_address _ _).bind fun base => h.bind fun value =>
      (composed_arith _ _ _).bind fun offset => composed_emitValue _
  · exact .throw (by simp)

theorem composed_asValue (callee : String) (position : Position) (result : CallResult) :
    Composed reach (asValue callee position result) := by
  cases result with
  | value value => exact .pure _
  | nothing | exited => exact .throw (by simp)

theorem composed_emitCall (callee : IR.FunctionId) (arguments : List Operand) :
    Composed reach (emitCall callee arguments) := by
  refine (Composed.code (IR.Build.isCode_call _ _) (IR.Build.isStraight_call _ _)).bind fun value? => ?_
  split <;> exact .pure _

theorem composed_unless {condition : Prop} [Decidable condition] {error : SemanticError}
    {action : Lower α} (differs : ∀ name position, error ≠ .forwardNeverDefined name position)
    (h : Composed reach action) :
    Composed reach (if condition then (throw error : Lower PUnit) >>= fun _ => action else action) := by
  split
  · exact (Composed.throw differs).bind fun _ => h
  · exact h

theorem composed_callee (name : String) (arguments : Nat) (position : Position) (used : Bool) :
    Composed reach (callee name arguments position used) := by
  refine (composed_declared _ _).bind fun entry => ?_
  split
  · refine composed_unless (by simp) ?_
    split
    · exact composed_unless (by simp) (composed_unless (by simp) (Composed.pure _))
    · exact composed_unless (by simp) (Composed.pure _)
    · exact .throw (by simp)
  · exact .throw (by simp)

theorem composed_plainValue (name : String) (position : Position) :
    Composed reach (plainValue name position) := by
  refine (composed_declared _ _).bind fun entry => ?_
  split
  · exact (composed_address _ _).bind fun pointer => composed_emitValue _
  · exact .throw (by simp)
  · refine (composed_callee _ _ _ _).bind fun storage => ?_
    split
    · exact (composed_emitCall _ _).bind fun result => composed_asValue _ _ _
    · exact .throw (by simp)

theorem composed_nameValue (stage : Stage) (name : String) (position : Position) :
    Composed reach (nameValue stage name position) := by
  cases stage with
  | constant =>
      refine (Composed.ask fun _ => answers_constant _ _ _).bind fun entry => ?_
      split
      · exact .pure _
      · exact .throw (by simp)
  | running => exact Composed.get.bind fun _ => composed_plainValue _ _

theorem composed_requireReadable (target : Expr) : Composed reach (requireReadable target) := by
  cases target with
  | ident name position =>
      refine (Composed.ask fun _ => answers_notConstant _ _ _).bind fun entry => ?_
      split
      · exact .throw (by simp)
      · exact .pure _
  | element array index position =>
      exact (Composed.ask fun _ => answers_notConstant _ _ _).bind fun _ => .pure _
  | _ => exact .throw (by simp)

theorem composed_decrement (target : Expr) : Composed reach (decrement target) := by
  cases target with
  | ident name position =>
      refine (Composed.ask fun _ => answers_notConstant _ _ _).bind fun entry => ?_
      refine composed_unless (by simp) ?_
      exact (composed_namePointer _ _).bind fun pointer => (composed_emitValue _).bind fun value =>
        (composed_arith _ _ _).bind fun next => composed_emit _
  | _ => exact .throw (by simp)

theorem composed_exitCallable (position : Position) : Composed reach (exitCallable position) := by
  refine Composed.get.bind fun state => ?_
  dsimp only
  split
  · split
    · exact (composed_nameValue _ _ _).bind fun value => composed_emit _
    · exact composed_emit _
  · exact .throw (by simp)

theorem composed_call (name : String) (arguments : List Expr) (position : Position) (used : Bool)
    {values : Lower (List Operand)} {target : Lower Operand} (h₁ : Composed reach values)
    (h₂ : Composed reach target) : Composed reach (call name arguments position used values target) := by
  refine (composed_callee _ _ _ _).bind fun storage => ?_
  cases storage with
  | function id => exact h₁.bind fun _ => composed_emitCall _ _
  | address pointer => exact .throw (by simp)
  | builtin builtin =>
      cases builtin with
      | writeln => exact h₁.bind fun _ => Composed.get.bind fun _ => composed_emitCall _ _
      | readln =>
          exact (composed_forM composed_requireReadable).bind fun _ => h₂.bind fun _ =>
            Composed.get.bind fun _ => composed_emitCall _ _
      | write =>
          exact h₁.bind fun _ => Composed.get.bind fun _ => (composed_emitCall _ _).bind fun _ =>
            Composed.pure _
      | dec => exact (composed_forM composed_decrement).bind fun _ => .pure _
      | exit => exact (composed_exitCallable _).bind fun _ => .pure _

mutual

theorem composed_expression (stage : Stage) (expr : Expr) : Composed reach (expression stage expr) := by
  cases expr with
  | ident name position => exact composed_nameValue _ _ _
  | number value position => exact .pure _
  | literal text position => exact (composed_requireRunning _ _ _).bind fun _ => .text _
  | binary op left right position =>
      refine (composed_expression stage left).bind fun first => ?_
      refine (composed_expression stage right).bind fun second => ?_
      exact composed_unless (by simp)
        (.code (IR.Build.isCode_binary _ _ _) (IR.Build.isStraight_binary _ _ _))
  | negate operand position | not operand position =>
      exact (composed_expression stage operand).bind fun value => composed_arith _ _ _
  | element array index position =>
      exact (composed_requireRunning _ _ _).bind fun _ =>
        (composed_elementPointer _ _ (composed_expression .running index)).bind fun _ =>
          composed_emitValue _
  | call name arguments position =>
      refine (composed_requireRunning _ _ _).bind fun _ => ?_
      exact (composed_call _ _ _ _ (composed_expressions arguments)
        (composed_firstPointer arguments)).bind fun _ => composed_asValue _ _ _

theorem composed_expressions (exprs : List Expr) : Composed reach (expressions exprs) := by
  cases exprs with
  | nil => exact .pure _
  | cons first others =>
      exact (composed_expression .running first).bind fun _ =>
        (composed_expressions others).bind fun _ => .pure _

theorem composed_firstPointer (exprs : List Expr) : Composed reach (firstPointer exprs) := by
  cases exprs with
  | nil => exact .pure _
  | cons first others => exact composed_pointer first

theorem composed_pointer (expr : Expr) : Composed reach (pointer expr) := by
  cases expr with
  | ident name position => exact composed_namePointer _ _
  | element array index position =>
      exact composed_elementPointer _ _ (composed_expression .running index)
  | _ => exact .throw (by simp)

end

theorem composed_constantValue (expr : Expr) : Composed reach (constantValue expr) := by
  refine (composed_expression _ _).bind fun value => ?_
  split
  · exact .pure _
  · exact .throw (by simp)

/-! ### Statements -/

theorem composed_assign (assignment : Assignment) : Composed reach (assign assignment) := by
  unfold assign
  dsimp only
  split
  · exact .throw (by simp)
  · exact (Composed.ask fun _ => answers_notConstant _ _ _).bind fun _ =>
      (composed_pointer _).bind fun pointer => (composed_expression _ _).bind fun value =>
        composed_emit _

theorem composed_currentFunction (what : Construct) (position : Position) :
    Composed reach (currentFunction what position) := by
  refine Composed.ask fun symbols => ?_
  split <;> simp [Answers]

theorem composed_condition (test : Expr) : Composed reach (condition test) :=
  (composed_expression _ _).bind fun _ => composed_compare _ _ _

theorem composed_withinLimit (counter : Expr) (direction : Direction) (limit : Expr) :
    Composed reach (withinLimit counter direction limit) := by
  refine (composed_expression _ _).bind fun _ => (composed_expression _ _).bind fun _ => ?_
  cases direction <;> exact composed_compare _ _ _

theorem composed_advanceCounter (counter : Expr) (direction : Direction) :
    Composed reach (advanceCounter counter direction) := by
  refine (composed_pointer _).bind fun _ => (composed_expression _ _).bind fun _ => ?_
  cases direction <;> exact (composed_arith _ _ _).bind fun _ => composed_emit _

theorem composed_leaveLoop (id : LoopId) (position : Position) :
    Composed reach (leaveLoop id position) := by
  refine Composed.get.bind fun state => ?_
  split
  · exact composed_emit _
  · exact .throw (by simp)

theorem composed_implicitReturn (heading : Heading) : Composed reach (implicitReturn heading) := by
  have asks : Composed reach (build IR.Build.isTerminated) :=
    .code IR.Build.isCode_isTerminated fun builder => ⟨rfl, fun here _ => .refl here builder⟩
  refine asks.bind fun ended => ?_
  split
  · split
    · exact (composed_nameValue _ _ _).bind fun _ => composed_emit _
    · exact composed_emit _
  · exact .pure _

/-! ### Control flow -/

section
variable (jumps : reach ≠ .straight)
include jumps

theorem composed_setInsertPoint (block : BlockId) :
    Composed reach (build (IR.Build.setInsertPoint block)) :=
  .block jumps (IR.Build.isCode_setInsertPoint _)

theorem composed_appendBlock (id : IR.FunctionId) (name : String) :
    Composed reach (build (IR.Build.appendBlock id name)) :=
  .block jumps (IR.Build.isCode_appendBlock _ _)

theorem composed_intoBlock (block next : BlockId) {body : Lower (Option Ending)}
    (h : Composed reach body) : Composed reach (intoBlock block next body) := by
  refine (composed_setInsertPoint jumps _).bind fun _ => h.bind fun ending => ?_
  split
  · exact composed_emit _
  · exact .pure _

theorem composed_conditional (test : Expr) (position : Position)
    {holds fails : Lower (Option Ending)} (h₁ : Composed reach holds) (h₂ : Composed reach fails) :
    Composed reach (conditional test position holds fails) :=
  (composed_currentFunction _ _).bind fun _ => (composed_condition _).bind fun _ =>
    (composed_appendBlock jumps _ _).bind fun _ => (composed_appendBlock jumps _ _).bind fun _ =>
      (composed_appendBlock jumps _ _).bind fun _ => (composed_emit _).bind fun _ =>
        (composed_intoBlock jumps _ _ h₁).bind fun _ =>
          (composed_intoBlock jumps _ _ h₂).bind fun _ => composed_setInsertPoint jumps _

theorem composed_loop (function : IR.FunctionId) (id : LoopId) {test : Lower Operand}
    {body : Lower (Option Ending)} (h₁ : Composed reach test) (h₂ : Composed reach body) :
    Composed reach (loop function id test body) :=
  (composed_appendBlock jumps _ _).bind fun _ => (composed_appendBlock jumps _ _).bind fun _ =>
    (composed_appendBlock jumps _ _).bind fun _ => (composed_emit _).bind fun _ =>
      (composed_setInsertPoint jumps _).bind fun _ => h₁.bind fun _ =>
        (composed_emit _).bind fun _ => (Composed.exits jumps _).bind fun _ =>
          (composed_intoBlock jumps _ _ h₂).bind fun _ => composed_setInsertPoint jumps _

end

/-! ### Declarations -/

theorem composed_shape (type : DataType) : Composed reach (shape type) := by
  cases type with
  | integer => exact .pure _
  | array low high =>
      exact (composed_constantValue _).bind fun _ => (composed_constantValue _).bind fun _ =>
        .pure _

section
variable (declares : reach = .declares)
include declares

theorem composed_allocate (name : String) (shape : Shape) (position : Position) :
    Composed reach (allocate name shape position) := by
  unfold allocate
  cases shape with
  | integer =>
      refine Composed.get.bind fun state => ?_
      split <;> exact .function declares _
  | array low high =>
      dsimp only
      split
      · exact .function declares _
      · exact .throw (by simp)
  | callable parameters returnsValue => exact .throw (by simp)

theorem composed_declareVariable (shape : Shape) (position : Position) (name : String) :
    Composed reach (declareVariable shape position name) :=
  (Composed.ask fun _ => answers_notDeclared _ _ _).bind fun _ =>
    (composed_allocate declares _ _ _).bind fun _ => .symbols declares _

theorem composed_declareCallable (name : String) (shape : Shape) (storage : Storage)
    (position : Position) : Composed reach (declareCallable name shape storage position) :=
  (Composed.ask fun _ => answers_notDeclared _ _ _).bind fun _ => .symbols declares _

theorem composed_vars (group : VarGroup) : Composed reach (vars group) :=
  (composed_shape _).bind fun _ => composed_forM fun _ => composed_declareVariable declares _ _ _

theorem composed_constantDeclaration (name : String) (value : Expr) (position : Position) :
    Composed reach (constantDeclaration name value position) :=
  (composed_constantValue _).bind fun _ => (Composed.ask fun _ => answers_notDeclared _ _ _).bind
    fun _ => (Composed.function declares _).bind fun _ => .symbols declares _

theorem composed_forwardDeclaration (heading : Heading) :
    Composed reach (forwardDeclaration heading) := by
  refine (Composed.ask fun _ => answers_notDeclaredForward _ _ _).bind fun _ => ?_
  refine Composed.get.bind fun state => composed_unless (by simp) ?_
  exact (Composed.function declares _).bind fun id =>
    (Composed.ask fun _ => answers_notDeclaredForward _ _ _).bind fun _ => .symbols declares _

theorem composed_definedFunction (heading : Heading) : Composed reach (definedFunction heading) := by
  refine Composed.get.bind fun state => ?_
  dsimp only
  split
  · refine composed_unless (by simp) ?_
    split
    · exact .pure _
    · exact .throw (by simp)
  · exact (Composed.ask fun _ => answers_notDeclared _ _ _).bind fun _ => .function declares _

theorem composed_declareResult (name : String) (position : Position) :
    Composed reach (declareResult name position) :=
  (composed_declareVariable declares _ _ _).bind fun _ => (composed_address _ _).bind fun _ =>
    composed_emit _

theorem composed_declareParameters (first : Nat) (parameters : List (String × Position)) :
    Composed reach (declareParameters first parameters) := by
  induction parameters generalizing first with
  | nil => exact .pure _
  | cons parameter others ih =>
      exact (composed_declareVariable declares _ _ _).bind fun _ =>
        (composed_address _ _).bind fun _ => (composed_emit _).bind fun _ => ih _

theorem composed_definition (heading : Heading) {body : Lower (Option Ending)}
    (h : Composed reach body) : Composed reach (definition heading body) := by
  have filled (parameters : List (String × Position)) : Composed reach (do
      declareParameters 0 parameters
      let _ ← body
      implicitReturn heading
      modifySymbols (·.leave)) :=
    (composed_declareParameters declares _ _).bind fun _ => h.bind fun _ =>
      (composed_implicitReturn _).bind fun _ => .symbols declares _
  refine (composed_definedFunction declares _).bind fun id => ?_
  refine (composed_declareCallable declares _ _ _ _).bind fun _ =>
    (Composed.function declares _).bind fun _ => (Composed.function declares _).bind fun _ =>
      (Composed.symbols declares _).bind fun _ => ?_
  split
  · exact (composed_declareResult declares _ _).bind fun _ => filled _
  · exact filled _

end

/-! ### Statements -/

mutual

/-- Loops and conditionals jump, and nothing but a declaration declares. -/
theorem composed_statement (jumps : reach ≠ .straight) (item : Statement) (loop : Option LoopId)
    (next : Nat) (allowed : reach = .declares ∨ item.IsAction loop next) :
    Composed reach (statement item) := by
  cases item with
  | program name => exact .pure _
  | vars group => exact (composed_vars (allowed.resolve_right id) _).bind fun _ => .pure _
  | constant name value position =>
      exact (composed_constantDeclaration (allowed.resolve_right id) _ _ _).bind fun _ => .pure _
  | forward heading =>
      exact (composed_forwardDeclaration (allowed.resolve_right id) _).bind fun _ => .pure _
  | callable heading body =>
      have declares : reach = .declares := allowed.resolve_right id
      have filled := composed_statements jumps body none 0 (.inl declares)
      exact (composed_definition declares _ filled).bind fun _ => .pure _
  | call name arguments position =>
      refine (composed_call _ _ _ _ (composed_expressions _) (composed_firstPointer _)).bind fun _ => ?_
      split <;> exact .pure _
  | assign assignment => exact (composed_assign _).bind fun _ => .pure _
  | block body => exact composed_statements jumps body _ _ allowed
  | ifThen test holds position =>
      have first := composed_statement jumps holds _ _ (allowed.imp_right (·.2))
      exact (composed_conditional jumps _ _ first (.pure _)).bind fun _ => .pure _
  | ifThenElse test holds fails position =>
      have first := composed_statement jumps holds _ _ (allowed.imp_right (·.2.1))
      have second := composed_statement jumps fails _ _ (allowed.imp_right (·.2.2))
      exact (composed_conditional jumps _ _ first second).bind fun _ => .pure _
  | whileLoop id test body position =>
      have round := composed_statement jumps body _ _ (allowed.imp_right (·.2.2))
      exact ((composed_currentFunction _ _).bind fun _ =>
        composed_loop jumps _ _ (composed_condition _) round).bind fun _ => .pure _
  | forLoop id initial direction limit body position =>
      have round := composed_statement jumps body _ _ (allowed.imp_right (·.2.2.2.2))
      refine Composed.bind ?_ fun _ => .pure _
      refine (composed_currentFunction _ _).bind fun _ => (composed_assign _).bind fun _ => ?_
      refine composed_loop jumps _ _ (composed_withinLimit _ _ _) (round.bind fun ending => ?_)
      dsimp only
      split
      · exact (composed_advanceCounter _ _).bind fun _ => .pure _
      · exact .pure _
  | leave id position => exact (composed_leaveLoop _ _).bind fun _ => .pure _

theorem composed_statements (jumps : reach ≠ .straight) (items : List Statement)
    (loop : Option LoopId) (next : Nat)
    (allowed : reach = .declares ∨ Statement.AreActions loop next items) :
    Composed reach (statements items) := by
  cases items with
  | nil => exact .pure _
  | cons first others =>
      refine (composed_statement jumps first _ _ (allowed.imp_right (·.1))).bind fun ending => ?_
      split
      · exact .pure _
      · exact composed_statements jumps others _ _ (allowed.imp_right (·.2))

end

/-! ### Straight-line code -/

theorem Composed.isStraight {action : Lower α} (composed : Composed .straight action) :
    IsStraight action := by
  induction composed with
  | pure a => exact isStraight_pure a
  | throw _ => exact isStraight_throw _
  | get => exact isStraight_get
  | ask _ => exact isStraight_ask _
  | code _ isStraight => exact isStraight_build isStraight
  | text text => exact isStraight_build (IR.Build.isStraight_addGlobal _ _ _ _)
  | block jumps _ | exits jumps _ => exact absurd rfl jumps
  | function declares _ | symbols declares _ => cases declares
  | bind _ _ first next => exact first.bind next

theorem isStraight_requireRunning (stage : Stage) (what : NonConstant) (position : Position) :
    IsStraight (requireRunning stage what position) := (composed_requireRunning _ _ _).isStraight

theorem isStraight_address (name : String) (position : Position) :
    IsStraight (address name position) := (composed_address _ _).isStraight

theorem isStraight_namePointer (name : String) (position : Position) :
    IsStraight (namePointer name position) := (composed_namePointer _ _).isStraight

theorem isStraight_asValue (callee : String) (position : Position) (result : CallResult) :
    IsStraight (asValue callee position result) := (composed_asValue _ _ _).isStraight

theorem isStraight_emitCall (callee : IR.FunctionId) (arguments : List Operand) :
    IsStraight (emitCall callee arguments) := (composed_emitCall _ _).isStraight

theorem isStraight_callee (name : String) (arguments : Nat) (position : Position) (used : Bool) :
    IsStraight (callee name arguments position used) := (composed_callee _ _ _ _).isStraight

theorem isStraight_nameValue (stage : Stage) (name : String) (position : Position) :
    IsStraight (nameValue stage name position) := (composed_nameValue _ _ _).isStraight

theorem isStraight_requireReadable (target : Expr) : IsStraight (requireReadable target) :=
  (composed_requireReadable target).isStraight

theorem isStraight_decrement (target : Expr) : IsStraight (decrement target) :=
  (composed_decrement target).isStraight

theorem isStraight_exitCallable (position : Position) : IsStraight (exitCallable position) :=
  (composed_exitCallable position).isStraight

theorem isStraight_expression (stage : Stage) (expr : Expr) : IsStraight (expression stage expr) :=
  (composed_expression stage expr).isStraight

theorem isStraight_expressions (exprs : List Expr) : IsStraight (expressions exprs) :=
  (composed_expressions exprs).isStraight

theorem isStraight_pointer (expr : Expr) : IsStraight (pointer expr) :=
  (composed_pointer expr).isStraight

theorem isStraight_call (name : String) (arguments : List Expr) (position : Position) (used : Bool) :
    IsStraight (call name arguments position used (expressions arguments)
      (firstPointer arguments)) :=
  (composed_call _ _ _ _ (composed_expressions _) (composed_firstPointer _)).isStraight

theorem isStraight_assign (assignment : Assignment) : IsStraight (assign assignment) :=
  (composed_assign assignment).isStraight

theorem isStraight_condition (test : Expr) : IsStraight (condition test) :=
  (composed_condition test).isStraight

theorem isStraight_withinLimit (counter : Expr) (direction : Direction) (limit : Expr) :
    IsStraight (withinLimit counter direction limit) := (composed_withinLimit _ _ _).isStraight

theorem isStraight_advanceCounter (counter : Expr) (direction : Direction) :
    IsStraight (advanceCounter counter direction) := (composed_advanceCounter _ _).isStraight

theorem isStraight_implicitReturn (heading : Heading) : IsStraight (implicitReturn heading) :=
  (composed_implicitReturn heading).isStraight

end Lower

end MiniPascal
