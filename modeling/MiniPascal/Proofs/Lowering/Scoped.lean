import MiniPascal.Proofs.Lowering.Programs
import MiniPascal.Proofs.Parser.LoopNumbers

/-!
# Translation without looking exits up

The translation of statements enters the block behind each loop in a table, under the number of the
loop, and `break` looks it up there.  Below, that block is handed down to the statements inside of the
loop instead, but not into callables, and `break` checks what it ends and where it goes.  Trees that
the grammar derives are translated alike.
-/

namespace MiniPascal

open IR (BlockId Block Builder Operand Instruction)
open Lowering (Ready)

namespace IR

/-- The block at the insert point, as long as it is not complete. -/
def Builder.openBlock? (builder : Builder) : Option BlockId :=
  builder.insertPoint.filter fun here => (builder.ir.block? here).any (!·.isTerminated)

def Block.endWith (block : Block) (instruction : Instruction) : Block :=
  { block with instructions := block.instructions.push instruction }

end IR

namespace Scoped

open Lower

/-- Ends the open block at the insert point with a jump behind the loop around, which has to be the one
that is left, to a block of the same function. -/
def leaveLoop (around : Option (LoopId × BlockId)) (id : LoopId) (position : Position) : Lower Unit :=
  fun state =>
    match around, state.builder.openBlock? with
    | some (inner, after), some here =>
        if inner = id ∧ after.function = here.function ∧ (state.builder.ir.block? after).isSome then
          .ok () { state with builder := state.builder.modifyBlock here (·.endWith (.jump after)) }
        else .error (.breakOutsideLoop position) state
    | _, _ => .error (.breakOutsideLoop position) state

def loop (function : IR.FunctionId) (id : LoopId) (test : Lower Operand)
    (body : BlockId → Lower (Option Ending)) : Lower Unit := do
  let (testBlock, bodyBlock, after) ← openLoop function id test
  intoBlock bodyBlock testBlock (body after)
  build (IR.Build.setInsertPoint after)

def whileLoop (id : LoopId) (test : Expr) (position : Position)
    (body : BlockId → Lower (Option Ending)) : Lower Unit := do
  let function ← currentFunction .whileLoop position
  loop function id (condition test) body

def forLoop (id : LoopId) (initial : Assignment) (direction : Direction) (limit : Expr)
    (position : Position) (body : BlockId → Lower (Option Ending)) : Lower Unit := do
  let function ← currentFunction .forLoop position
  assign initial
  loop function id (withinLimit initial.target direction limit) fun after => do
    let ending ← body after
    if ending.isNone then advanceCounter initial.target direction
    return ending

mutual

def statement (around : Option (LoopId × BlockId)) : Statement → Lower (Option Ending)
  | .callable heading body => do
      definition heading (statements none body)
      return none
  | .block body => statements around body
  | .ifThen test holds position => do
      conditional test position (statement around holds) (return none)
      return none
  | .ifThenElse test holds fails position => do
      conditional test position (statement around holds) (statement around fails)
      return none
  | .whileLoop id test body position => do
      whileLoop id test position fun after => statement (some (id, after)) body
      return none
  | .forLoop id initial direction limit body position => do
      forLoop id initial direction limit position fun after => statement (some (id, after)) body
      return none
  | .leave id position => do
      leaveLoop around id position
      return some .leave
  | simple => Lower.statement simple

def statements (around : Option (LoopId × BlockId)) : List Statement → Lower (Option Ending)
  | [] => return none
  | first :: others => do
      match ← statement around first with
      | some ending => return some ending
      | none => statements around others

end

def Hands (state : Lowering) (function : IR.FunctionId) (around : Option (LoopId × BlockId))
    (next : Nat) : Prop :=
  state.KnowsExit function (around.map (·.1)) next ∧
    ∀ id after, around = some (id, after) → state.exits.lookup id = some after

/-- Two translations of a statement, one handed the exit and the other with the table, are alike. -/
def Alike (around : Option (LoopId × BlockId)) (next : Nat)
    (handed tabled : Lower (Option Ending)) : Prop :=
  ∀ ⦃state : Lowering⦄ ⦃here : BlockId⦄ ⦃pending : List Nat⦄, state.Ready here pending →
    Hands state here.function around next → handed state = tabled state

variable {state : Lowering} {here there : BlockId} {pending : List Nat}
  {around : Option (LoopId × BlockId)} {next : Nat}

theorem hands_none (state : Lowering) (function : IR.FunctionId) (next : Nat) :
    Hands state function none next :=
  ⟨by simp [Lowering.KnowsExit], by simp⟩

theorem Hands.moves {state' : Lowering} {later : Nat} (hands : Hands state here.function around next)
    (isSome : state.builder.ir.functions[here.function]?.isSome)
    (moves : state.Moves there next state') (same : there.function = here.function)
    (le : next ≤ later) : Hands state' here.function around later := by
  refine ⟨hands.1.moves isSome moves same le, fun id after isAround => ?_⟩
  have isOld := (hands.1 id (by rw [isAround]; rfl)).1
  exact (moves.exits id isOld).trans (hands.2 id after isAround)

theorem intoBlock_congr {block : BlockId} {first second : Lower (Option Ending)} (target : BlockId)
    (same : first { state with builder := { state.builder with insertPoint := some block } } =
      second { state with builder := { state.builder with insertPoint := some block } }) :
    intoBlock block target first state = intoBlock block target second state := by
  unfold intoBlock
  exact bind_congr_of_ensures (ensures_build.2 (bind_congr_left same))

/-! ### Statements -/

theorem alike_leaveLoop {id : LoopId} (ready : state.Ready here pending)
    (hands : Hands state here.function around next) (isAround : around.map (·.1) = some id)
    (position : Position) :
    leaveLoop around id position state = Lower.leaveLoop id position state := by
  obtain ⟨⟨inner, after⟩, rfl, rfl⟩ := Option.map_eq_some_iff.1 isAround
  obtain ⟨-, exit, isExit, sameFunction, -, bound⟩ := hands.1 inner rfl
  obtain rfl := Option.some.inj (isExit.symm.trans (hands.2 inner after rfl))
  obtain ⟨function, isFunction, -⟩ := ready.function
  obtain ⟨block, isBlock, isOpen⟩ := ready.block isFunction
  have isHere : state.builder.ir.block? here = some block := by
    simp [IR.Module.block?, isFunction, isBlock]
  have isThere : (state.builder.ir.block? exit).isSome := by
    simp [IR.Module.block?, sameFunction, isFunction, bound function isFunction]
  have isOpenBlock : state.builder.openBlock? = some here := by
    simp [Builder.openBlock?, ready.insertPoint, isHere, isOpen.isTerminated]
  have same : state.builder.modifyBlock here (·.append (.jump exit)) =
      state.builder.modifyBlock here (·.endWith (.jump exit)) := by
    refine Builder.modifyBlock_congr fun other isOther => ?_
    obtain rfl := Option.some.inj (isOther.symm.trans isHere)
    exact isOpen.append _
  have emitted : IR.Build.jump exit state.builder =
      ((), state.builder.modifyBlock here (·.endWith (.jump exit))) :=
    (IR.Build.emit_eq _ ready.insertPoint).trans (congrArg (Prod.mk ()) same)
  rw [Lower.leaveLoop, get_bind, isExit]
  simp only [leaveLoop, isOpenBlock, sameFunction, isThere, and_self, if_true, build, StateT.run,
    emitted]

theorem alike_conditional {handedHolds handedFails holds fails : Lower (Option Ending)}
    {holdsLoops : Nat} (ready : state.Ready here pending)
    (hands : Hands state here.function around next) (alikeHolds : Alike around next handedHolds holds)
    (runs : Runs (around.map (·.1)) next holds)
    (alikeFails : Alike around (next + holdsLoops) handedFails fails) (test : Expr)
    (position : Position) :
    conditional test position handedHolds handedFails state =
      conditional test position holds fails state := by
  rw [conditional_eq, conditional_eq]
  refine bind_congr_of_ensures (ensures_openConditional ready hands.1 test position ?_)
  intro truth thenBlock elseBlock merge tested opened branched forks
  have sameThen := (forks.adds.leads thenBlock (by simp)).same
  have sameElse := (forks.adds.leads elseBlock (by simp)).same
  have moves := forks.movesBranch ready
  have handsThen := hands.moves ready.isSome moves rfl (Nat.le_refl _)
  have readyThen := forks.readyThen.setInsertPoint (sameThen ▸ forks.current ready)
  have isThen := intoBlock_congr merge (alikeHolds readyThen (sameThen ▸ handsThen))
  refine (bind_congr_left isThen).trans
    (bind_congr_of_ensures ((forks.joins ready runs holdsLoops).mono ?_))
  rintro _ joined ⟨sound, movesThen, isCurrent, -, -⟩
  have handsElse := handsThen.moves (moves.isSome ready.isSome) movesThen sameThen
    (Nat.le_add_right next holdsLoops)
  have readyElse := sound.setInsertPoint (sameElse ▸ isCurrent)
  exact bind_congr_left (intoBlock_congr merge (alikeFails readyElse (sameElse ▸ handsElse)))

theorem alike_loop {test : Lower Operand} {handed : BlockId → Lower (Option Ending)}
    {body : Lower (Option Ending)} (ready : state.Ready here pending) (yields : Yields test)
    (straight : test.IsStraight)
    (alike : ∀ after, Alike (some (⟨next⟩, after)) (next + 1) (handed after) body) :
    loop here.function ⟨next⟩ test handed state = Lower.loop here.function ⟨next⟩ test body state := by
  rw [loop_eq, loop]
  refine bind_congr_of_ensures (ensures_openLoop ready yields straight ?_)
  intro truth testBlock bodyBlock after opened jumped tested branched begins
  have same := begins.sameBody
  have readyBody := begins.readyBody.setInsertPoint (same ▸ begins.current ready)
  have hands : Hands { branched with exits := (⟨next⟩, after) :: branched.exits } bodyBlock.function
      (some (⟨next⟩, after)) (next + 1) := by
    refine ⟨same ▸ begins.knows, ?_⟩
    rintro _ _ ⟨⟩
    simp
  exact bind_congr_left (intoBlock_congr testBlock (alike after readyBody hands))

theorem Alike.bind {handed tabled : Lower (Option Ending)} (alike : Alike around next handed tabled)
    (rest : Option Ending → Lower (Option Ending)) :
    Alike around next (handed >>= rest) (tabled >>= rest) :=
  fun _ _ _ ready hands => bind_congr_left (alike ready hands)

mutual

theorem alike_statement {around : Option (LoopId × BlockId)} {next : Nat} (action : Statement)
    (isAction : action.IsAction (around.map (·.1)) next) :
    Alike around next (statement around action) (Lower.statement action) := by
  intro state here pending ready hands
  cases action with
  | call name arguments position | assign assignment => rfl
  | block body => exact alike_statements body isAction ready hands
  | ifThen test holds position =>
      rw [statement, Lower.statement]
      have alikeFails : Alike around (next + holds.loops) (return none) (return none) :=
        fun _ _ _ _ _ => rfl
      exact bind_congr_left (alike_conditional ready hands (alike_statement holds isAction.2)
        (runs_statement holds isAction.2) alikeFails test position)
  | ifThenElse test holds fails position =>
      rw [statement, Lower.statement]
      exact bind_congr_left (alike_conditional ready hands (alike_statement holds isAction.2.1)
        (runs_statement holds isAction.2.1) (alike_statement fails isAction.2.2) test position)
  | whileLoop id test body position =>
      obtain ⟨rfl, -, isBody⟩ := isAction
      rw [statement, Lower.statement]
      refine bind_congr_left (bind_congr_of_ensures ?_)
      refine ensures_currentFunction ready .whileLoop position ?_
      exact alike_loop ready (yields_condition test) (isStraight_condition test)
        fun after => alike_statement body isBody
  | forLoop id initial direction limit body position =>
      obtain ⟨rfl, -, -, -, isBody⟩ := isAction
      rw [statement, Lower.statement]
      refine bind_congr_left (bind_congr_of_ensures ?_)
      refine ensures_currentFunction ready .forLoop position ?_
      refine bind_congr_of_ensures ((ready_assign ready initial).mono fun _ state₁ ready₁ => ?_)
      refine alike_loop ready₁ (ready_withinLimit initial.target direction limit)
        (isStraight_withinLimit _ _ _) fun after => Alike.bind ?_ _
      exact alike_statement body isBody
  | leave id position =>
      rw [statement, Lower.statement]
      exact bind_congr_left (alike_leaveLoop ready hands isAction position)
  | _ => exact isAction.elim

theorem alike_statements {around : Option (LoopId × BlockId)} {next : Nat} (actions : List Statement)
    (areActions : Statement.AreActions (around.map (·.1)) next actions) :
    Alike around next (statements around actions) (Lower.statements actions) := by
  intro state here pending ready hands
  cases actions with
  | nil => rfl
  | cons first others =>
      obtain ⟨isAction, areOthers⟩ := areActions
      rw [statements, Lower.statements]
      refine (bind_congr_left (alike_statement first isAction ready hands)).trans
        (bind_congr_of_ensures ((runs_statement first isAction ready hands.1).mono ?_))
      intro ending state₁ goes
      cases ending with
      | some ending => rfl
      | none =>
          obtain ⟨there, leads, ready₁⟩ := goes.continues rfl
          have hands₁ := hands.moves ready.isSome goes.moves rfl (Nat.le_add_right next first.loops)
          rw [← leads.same] at hands₁
          exact alike_statements others areOthers ready₁ hands₁

end

/-! ### Programs -/

theorem statement_storage {declaration : Statement} (isStorage : declaration.IsStorage) :
    statement around declaration = Lower.statement declaration := by
  cases declaration with
  | vars group | constant name value position => rfl
  | _ => exact isStorage.elim

theorem statements_append {declarations others : List Statement} {id? : Option IR.FunctionId}
    (areStorage : ∀ declaration ∈ declarations, declaration.IsStorage)
    (declares : state.Declares id?)
    (h : ∀ state' : Lowering, state'.Declares id? →
      statements none others state' = Lower.statements others state') :
    statements none (declarations ++ others) state =
      Lower.statements (declarations ++ others) state := by
  induction declarations generalizing state with
  | nil => exact h state declares
  | cons first rest ih =>
      have isStorage := areStorage first (by simp)
      rw [List.cons_append, statements, Lower.statements, statement_storage isStorage]
      refine bind_congr_of_ensures ((keeps_storage isStorage declares).mono ?_)
      rintro _ state₁ ⟨rfl, keeps₁⟩
      exact ih (fun declaration isIn => areStorage declaration (by simp [isIn])) keeps₁.1

theorem alike_definition {heading : Heading} {body : List Statement} (outer : state.Declares none)
    (isBody : IsBody next body) :
    definition heading (statements none body) state =
      definition heading (Lower.statements body) state := by
  obtain ⟨declarations, actions, rfl, areStorage, areActions⟩ := isBody
  rw [definition_eq, definition_eq]
  refine bind_congr_of_ensures (ensures_openDefinition outer fun id state₁ entered => ?_)
  refine bind_congr_of_ensures ((keeps_prologue entered).mono fun _ state₂ keeps₂ => ?_)
  refine bind_congr_left (statements_append areStorage keeps₂.1 fun state₃ ready₃ => ?_)
  have alike : Alike none next (statements none actions) (Lower.statements actions) :=
    alike_statements actions areActions
  exact alike ready₃ (hands_none _ _ _)

theorem alike_topLevel {declaration : Statement} (outer : state.Declares none)
    (isTopLevel : declaration.IsTopLevel next) :
    statement none declaration state = Lower.statement declaration state := by
  cases declaration with
  | callable heading body =>
      rw [statement, Lower.statement]
      exact bind_congr_left (alike_definition outer isTopLevel.2)
  | forward heading | vars group | constant name value position => rfl
  | _ => exact isTopLevel.elim

theorem alike_allTopLevel {declarations others : List Statement} (outer : state.Declares none)
    (areTopLevel : Statement.AreTopLevel next declarations)
    (h : ∀ state' : Lowering, state'.Declares none →
      statements none others state' = Lower.statements others state') :
    statements none (declarations ++ others) state =
      Lower.statements (declarations ++ others) state := by
  induction declarations generalizing state next with
  | nil => exact h state outer
  | cons first rest ih =>
      rw [List.cons_append, statements, Lower.statements]
      refine (bind_congr_left (alike_topLevel outer areTopLevel.1)).trans
        (bind_congr_of_ensures ((declares_topLevel outer areTopLevel.1).mono ?_))
      rintro _ state₁ ⟨rfl, outer₁⟩
      exact ih outer₁ areTopLevel.2

theorem alike_program {program : Program} (grammatical : program.GrammaticalFrom next)
    (outer : state.Declares none) :
    statements none program.statements state = Lower.statements program.statements state := by
  obtain ⟨header, declarations, position, actions, isProgram, isHeader, areTopLevel, areActions⟩ :=
    grammatical
  have main (state' : Lowering) (outer' : state'.Declares none) :
      statements none [Parse.mainCallable position actions] state' =
        Lower.statements [Parse.mainCallable position actions] state' := by
    have isBody : IsBody (next + Statement.totalLoops declarations) actions :=
      ⟨[], actions, rfl, by simp, areActions⟩
    simp only [statements, Lower.statements, Parse.mainCallable, statement, Lower.statement,
      bind_assoc]
    exact bind_congr_left (alike_definition outer' isBody)
  have rest := alike_allTopLevel outer areTopLevel main
  rw [isProgram, List.append_assoc]
  rcases isHeader with rfl | ⟨name, -, rfl⟩
  · exact rest
  · exact rest

/-- Translates a program, with the exits of loops handed down. -/
def lower (program : Program) (moduleName : String) : Except SemanticError IR.Module := do
  let state ← Lowering.start (Builder.new moduleName)
  let translation := do
    let _ ← statements none program.statements
    Lower.finish
  match translation state with
  | .ok _ state => return state.builder.ir
  | .error error _ => throw error

theorem lower_eq {program : Program} (grammatical : program.GrammaticalFrom next)
    (moduleName : String) : lower program moduleName = program.lower moduleName := by
  have same := alike_program grammatical (Lowering.declares_initial moduleName)
  have finished := bind_congr_left (f := fun _ => Lower.finish) same
  unfold lower Program.lower
  rw [Lowering.start_eq]
  exact congrArg Lower.module finished

end Scoped

namespace Parser

/-- However often programs are read from some bytes, and whatever came of it before: in each program
that is returned every `break` names the innermost loop around it in the body of its callable; no two
loops of these programs have the same number; and in the translation every `break` ends its block with a
jump to the block behind the loop that it names, in the same function. -/
theorem breaks_leave_innermost {bytes : List UInt8} {parser : Parser}
    (ok : ofReader (Reader.ofBytes bytes) = .ok parser) (count : Nat) :
    (∀ program, .ok program ∈ (Parse.program.calls count parser).1 →
      program.BreaksBind ∧
        ∀ moduleName, Scoped.lower program moduleName = program.lower moduleName) ∧
    (Parse.returnedLoops (Parse.program.calls count parser).1).Nodup := by
  obtain ⟨all, -, distinct⟩ := Parse.numbers_calls count (sound_ofReader ok).1
  refine ⟨fun program isIn => ?_, distinct⟩
  obtain ⟨next, grammatical⟩ := all program isIn
  exact ⟨grammatical.breaks.1, Scoped.lower_eq grammatical⟩

/-- The theorem at a text whose first program is in error, behind its first loop. -/
theorem breaks_leave_innermost_nested :
    ∃ parser, ofReader (Reader.ofBytes "begin while a = 1 do x procedure p; var i: integer; begin
      while i = 0 do begin for i := 1 to 2 do break; break end end; begin end.".toUTF8.data.toList) =
        .ok parser ∧
      ∃ program, .ok program ∈ (Parse.program.calls 2 parser).1 ∧ program.loopIds = [⟨1⟩, ⟨2⟩] ∧
        program.BreaksBind ∧
        ∃ ir, program.lower "example" = .ok ir ∧ Scoped.lower program "example" = .ok ir := by
  obtain ⟨parser, isMade, program, isIn, holds⟩ := Parse.exists_of_calls
    (ofReader (Reader.ofBytes "begin while a = 1 do x procedure p; var i: integer; begin
      while i = 0 do begin for i := 1 to 2 do break; break end end; begin end.".toUTF8.data.toList))
    Parse.program 2
    (fun program => program.loopIds == [⟨1⟩, ⟨2⟩] && (program.lower "example").isOk)
    (by decide +kernel)
  rw [Bool.and_eq_true, beq_iff_eq] at holds
  obtain ⟨ir, lowered⟩ := exists_of_isOk holds.2
  obtain ⟨binds, same⟩ := (breaks_leave_innermost isMade 2).1 program isIn
  exact ⟨parser, isMade, program, isIn, holds.1, binds, ir, lowered, (same "example").trans lowered⟩

end Parser

end MiniPascal
