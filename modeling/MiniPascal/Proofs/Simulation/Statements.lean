import MiniPascal.Proofs.Simulation.Expressions

/-!
# Simulation of statements

The code of a statement goes where the evaluation goes: on to the next statement, behind the loop
that a `break` leaves, or to the return of the callable.
-/

namespace MiniPascal

open Evaluation (Eval Memory Place Progress Meaning)
open IR (BlockId Operand Instruction)
open Lowering (Ready KnowsExit)
open Machine (Config Frame Word Pointer)

namespace Scene

variable {scene : Scene} {state state' : Lowering} {here there : BlockId} {pending : List Nat}
  {memory : Memory} {config : Config}

/-! ### Jumps and returns -/

abbrev Enters (scene : Scene) (here : BlockId) (memory : Memory) (config : Config) : Prop :=
  scene.toContext.Enters scene.activation here memory config

theorem enters_jump (isHere : scene.Here state here memory config) {target : BlockId}
    (same : target.function = here.function) :
    scene.Enters target memory ⟨config.frame.jump target, config.state.counted⟩ :=
  ⟨rfl, rfl, same ▸ ⟨isHere.owns.base, isHere.owns.depth, isHere.owns.result, isHere.owns.size,
    isHere.owns.slots⟩, isHere.holds.counted⟩

theorem here_of_enters (enters : scene.Enters here memory config)
    (noCode : state.builder.ir.code here = [])
    (room : scene.slots.length ≤ state.builder.ir.registers here.function) :
    scene.Here state here memory config :=
  ⟨⟨enters.block, by rw [enters.next, noCode]; rfl⟩, enters.owns, room, enters.holds⟩

theorem here_of_addsThree {first second third : BlockId}
    (adds : state.AddsThree here pending first second third state') (ready : state.Ready here pending)
    (isHere : scene.Here state here memory config) : scene.Here state' here memory config where
  isAt := ⟨isHere.isAt.block, by rw [adds.code]; exact isHere.isAt.next⟩
  owns := isHere.owns
  room := Nat.le_trans isHere.room (adds.straight.registers ready.insertPoint)
  holds := isHere.holds

variable (scene) in
theorem runs_jump (ready : state.Ready here pending) (target : BlockId) :
    Ensures (Lower.build (IR.Build.jump target)) (fun _ state' =>
      state'.builder.ir.Part here.function scene.plan.ir → target.function = here.function →
        ∀ ⦃memory config⦄, scene.Here state here memory config →
          ∃ last, config.Runs scene.plan.ir scene.limits 1 last ∧ scene.Enters target memory last)
      state := by
  refine (ready.emits _).mono fun _ state' emits part same memory config isHere => ?_
  exact ⟨_, .one (emits.fetch part isHere.isAt) (Machine.Run.execute_jump _ _ target),
    enters_jump isHere same⟩

variable (scene) in
theorem runs_branch (ready : state.Ready here pending) (condition : Operand)
    (holds fails : BlockId) :
    Ensures (Lower.build (IR.Build.branch condition holds fails)) (fun _ state' =>
      state'.builder.ir.Part here.function scene.plan.ir → holds.function = here.function →
        fails.function = here.function → ∀ ⦃memory config isTrue⦄,
          scene.Here state here memory config →
            scene.Reads state here condition (.int (truth isTrue)) config.frame →
              ∃ last, config.Runs scene.plan.ir scene.limits 1 last ∧
                scene.Enters (if isTrue then holds else fails) memory last) state := by
  refine (ready.emits _).mono ?_
  intro _ state' emits part sameHolds sameFails memory config isTrue isHere reads
  have executed := Machine.Run.execute_branch scene.limits config.state.counted reads.int holds fails
  refine ⟨_, .one (emits.fetch part isHere.isAt) executed, ?_⟩
  cases isTrue with
  | true => exact enters_jump isHere sameHolds
  | false => exact enters_jump isHere sameFails

def returnsValue (scene : Scene) : Bool := scene.scope.callable.any (·.returns.isSome)

def result (scene : Scene) (memory : Memory) : Option Int32 :=
  if scene.returnsValue then some memory.result else none

def Exits (scene : Scene) (memory : Memory) (config : Config) : Prop :=
  scene.plan.Returns scene.activation (scene.result memory) memory config

theorem returns_here (isHere : scene.Here state here memory config) {operand? : Option Operand}
    {value? : Option Int32} (fetched : config.frame.fetch scene.plan.ir = .ok (.ret operand?))
    (agrees : Option.Rel (fun operand value =>
      config.frame.word scene.plan.ir operand = .ok (.int value)) operand? value?) :
    scene.plan.Returns scene.activation value? memory config :=
  ⟨⟨operand?, fetched, agrees⟩, isHere.owns.base, isHere.owns.result, isHere.holds.globals,
    ⟨_, isHere.holds.stack.symm⟩, isHere.holds.callers, isHere.holds.console⟩

theorem follows_retNone (ready : state.Ready here pending) (noResult : scene.returnsValue = false) :
    Ensures (Lower.build (IR.Build.ret none)) (fun _ state' =>
      state'.builder.ir.Part here.function scene.plan.ir → ∀ ⦃memory config⦄,
        scene.Here state here memory config →
          scene.Follows config ((pure () : Eval Unit) memory) fun _ memory' last =>
            scene.Exits memory' last) state := by
  refine (ready.emits _).mono fun _ state' emits part memory config isHere => ?_
  refine .done ?_
  simp only [Exits, result, noResult, Bool.false_eq_true, if_false]
  exact returns_here isHere (emits.fetch part isHere.isAt) .none

theorem follows_retResult (fair : scene.Fair) (ready : state.Ready here pending)
    (within : scene.Within state) (callable : String) (position : Position)
    (isResult : scene.returnsValue = true) :
    Ensures (do
      let value ← Lower.nameValue .running (resultName callable) position
      Lower.build (IR.Build.ret (some value))) (fun _ state' =>
        state'.builder.ir.Part here.function scene.plan.ir → ∀ ⦃memory config⦄,
          scene.Here state here memory config →
            scene.Follows config ((pure () : Eval Unit) memory) fun _ memory' last =>
              scene.Exits memory' last) state := by
  rw [ensures_bind]
  refine ((values_result fair callable position).run (Lower.yields_nameValue _ position ready)
    (Lower.isStraight_nameValue _ _ position) ready within).mono ?_
  rintro value state₁ ⟨tracks₁, -, follows₁⟩
  refine ((tracks₁.ready.emits _).and
    (Lower.isStraight_build (IR.Build.isStraight_emit _) state₁)).mono ?_
  rintro _ state₂ ⟨emits₂, straight₂⟩ part memory config isHere
  have part₁ := straight₂.part tracks₁.ready.insertPoint part
  have follows : scene.Follows config (.ok memory.result memory) _ := follows₁ part₁ isHere
  refine follows.recast ?_
  rintro last ⟨reaches₁, reads₁⟩
  simp only [Exits, result, isResult, if_true]
  exact returns_here reaches₁.isHere (emits₂.fetch part reaches₁.isHere.isAt) (.some reads₁.word)

theorem follows_exit (fair : scene.Fair) (ready : state.Ready here pending)
    (within : scene.Within state) (position : Position) :
    Ensures (Lower.exitCallable position) (fun _ state' =>
      state'.builder.ir.Part here.function scene.plan.ir → ∀ ⦃memory config⦄,
        scene.Here state here memory config →
          scene.Follows config ((pure () : Eval Unit) memory) fun _ memory' last =>
            scene.Exits memory' last) state := by
  obtain ⟨id, own, entry, isEnclosing, isOwn, isEntry, isShape⟩ := fair.enclosing
  have isCallable : scene.symbols.enclosingCallable? = some entry := by
    simp [SymbolTable.enclosingCallable?, isEnclosing, isEntry]
  have isReturning : scene.returnsValue = own.returns.isSome := by simp [returnsValue, isOwn]
  simp only [Lower.exitCallable, ensures_bind, ensures_get, within.symbols, isEnclosing, isCallable,
    isShape, Heading.shape]
  cases returns : own.returns.isSome with
  | true => exact follows_retResult fair ready within own.name position (isReturning.trans returns)
  | false => exact follows_retNone ready (isReturning.trans returns)

/-! ### Tests -/

abbrev Tests (scene : Scene) : Lower Operand → Eval Bool → Prop :=
  scene.Carries fun state here operand isTrue => scene.Reads state here operand (.int (truth isTrue))

theorem tests_condition (fair : scene.Fair) {grammar : Grammar} (test : Expr)
    (fits : test.Fits grammar) :
    scene.Tests (Lower.condition test) (Evaluation.holds scene.invoke scene.scope test) := by
  intro state here pending ready within
  unfold Lower.condition
  rw [ensures_bind]
  refine ((values_expression fair test fits).run (Lower.yields_expression test ready)
    (Lower.isStraight_expression _ test) ready within).mono ?_
  rintro value state₁ ⟨tracks₁, has₁, follows₁⟩
  refine (run_compare scene tracks₁.ready .notEqual has₁ (Lower.has_bool false)).mono ?_
  rintro operand state₂ ⟨tracks₂, -, follows₂⟩ part memory config isHere
  refine (follows₁ (tracks₂.part tracks₁.ready part) isHere).bind ?_
  rintro number memory₁ config₁ ⟨reaches₁, reads₁⟩
  refine (follows₂ part reaches₁.isHere reads₁ (reads_bool false _)).recast ?_
  rintro last ⟨reaches₂, reads₂⟩
  have isTruth : truth (IR.Predicate.notEqual.evaluate number (truth false)) =
      truth (decide (number ≠ 0)) := by
    have computed := compute_notEqual number 0
    rw [BinaryOp.compute?, Option.some.injEq] at computed
    exact computed.symm
  rw [isTruth] at reads₂
  exact ⟨reaches₁.trans reaches₂ (tracks₁.registers ready), reads₂⟩

theorem tests_withinLimit (fair : scene.Fair) {counter limit : Expr}
    (counterFits : counter.Fits .arithmetic) (limitFits : limit.Fits .arithmetic)
    (direction : Direction) :
    scene.Tests (Lower.withinLimit counter direction limit)
      (Evaluation.withinLimit scene.invoke scene.scope counter direction limit) := by
  intro state here pending ready within
  unfold Lower.withinLimit
  rw [ensures_bind]
  refine ((values_expression fair limit limitFits).run (Lower.yields_expression limit ready)
    (Lower.isStraight_expression _ limit) ready within).mono ?_
  rintro last state₁ ⟨tracks₁, has₁, follows₁⟩
  rw [ensures_bind]
  refine ((values_expression fair counter counterFits).run
    (Lower.yields_expression counter tracks₁.ready) (Lower.isStraight_expression _ counter)
    tracks₁.ready (within.straight tracks₁.straight)).mono ?_
  rintro current state₂ ⟨tracks₂, has₂, follows₂⟩
  have hasLimit := has₁.straight tracks₁.ready tracks₂.straight
  have le₁ := tracks₁.registers ready
  have le₂ := tracks₂.registers tracks₁.ready
  have compares (predicate : IR.Predicate) :
      Ensures (Lower.build (IR.Build.compare predicate current last)) (fun operand state' =>
        state'.builder.ir.Part here.function scene.plan.ir → ∀ ⦃memory config⦄,
          scene.Here state here memory config →
            scene.Follows config ((do
              let limit ← Evaluation.value scene.invoke scene.scope limit
              let current ← Evaluation.value scene.invoke scene.scope counter
              return predicate.evaluate current limit : Eval Bool) memory)
              fun isTrue memory' last => scene.Reaches state here config state' memory' last ∧
                scene.Reads state' here operand (.int (truth isTrue)) last.frame) state₂ := by
    refine (run_compare scene tracks₂.ready predicate has₂ hasLimit).mono ?_
    rintro operand state₃ ⟨tracks₃, -, follows₃⟩ part memory config isHere
    have part₂ := tracks₃.part tracks₂.ready part
    refine (follows₁ (tracks₂.part tracks₁.ready part₂) isHere).bind ?_
    rintro limitValue memory₁ config₁ ⟨reaches₁, reads₁⟩
    refine (follows₂ part₂ reaches₁.isHere).bind ?_
    rintro currentValue memory₂ config₂ ⟨reaches₂, reads₂⟩
    refine (follows₃ part reaches₂.isHere reads₂ (reads₁.keeps reaches₂.keeps le₂)).recast ?_
    rintro config₃ ⟨reaches₃, reads₃⟩
    exact ⟨(reaches₁.trans reaches₂ le₁).trans reaches₃ (Nat.le_trans le₁ le₂), reads₃⟩
  cases direction with
  | upward => exact compares .lessEqual
  | downward => exact compares .greaterEqual

/-! ### Blocks -/

def Proceeds (scene : Scene) (state : Lowering) (loop : Option LoopId)
    (next : Memory → Config → Prop) : Progress → Memory → Config → Prop
  | .next, memory, config => next memory config
  | .left id, memory, config =>
      loop = some id ∧ ∃ exit, state.exits.lookup id = some exit ∧ scene.Enters exit memory config
  | .exited, memory, config => scene.Exits memory config

theorem Proceeds.mono {loop : Option LoopId} {next better : Memory → Config → Prop}
    {progress : Progress} (proceeds : scene.Proceeds state loop next progress memory config)
    (exits : ∀ id, loop = some id → state'.exits.lookup id = state.exits.lookup id)
    (goesOn : progress = .next → next memory config → better memory config) :
    scene.Proceeds state' loop better progress memory config := by
  cases progress with
  | next => exact goesOn rfl proceeds
  | left id =>
      obtain ⟨isLoop, exit, isExit, enters⟩ := proceeds
      exact ⟨isLoop, exit, (exits id isLoop).trans isExit, enters⟩
  | exited => exact proceeds

def GoesOn (scene : Scene) (here : BlockId) (ending : Option Ending) (state' : Lowering)
    (memory : Memory) (config : Config) : Prop :=
  ending = none ∧ ∃ there, state'.builder.insertPoint = some there ∧
    there.function = here.function ∧ scene.Here state' there memory config

def Acts (scene : Scene) (loop : Option LoopId) (next : Nat) (action : Lower (Option Ending))
    (evaluation : Eval Progress) : Prop :=
  ∀ ⦃state : Lowering⦄ ⦃here : BlockId⦄ ⦃pending : List Nat⦄, state.Ready here pending →
    scene.Within state → state.KnowsExit here.function loop next →
      Ensures action (fun ending state' => state'.builder.ir.Part here.function scene.plan.ir →
        ∀ ⦃memory config⦄, scene.Here state here memory config →
          scene.Follows config (evaluation memory)
            (scene.Proceeds state loop (scene.GoesOn here ending state'))) state

theorem Within.moves {next : Nat} (within : scene.Within state)
    (moves : state.Moves here next state') : scene.Within state' :=
  ⟨moves.symbols.trans within.symbols, moves.support.trans within.support⟩

theorem acts_intoBlock {loop : Option LoopId} {next : Nat} {action : Lower (Option Ending)}
    {evaluation : Eval Progress} (acts : scene.Acts loop next action evaluation)
    (runs : Lower.Runs loop next action) {block target : BlockId}
    (sound : state.Sound (block.index :: pending)) (isCurrent : state.current? = some block.function)
    (within : scene.Within state) (knows : state.KnowsExit block.function loop next)
    (isTarget : state.IsTarget block.function target) (isEmpty : state.IsEmpty block)
    (room : scene.slots.length ≤ state.builder.ir.registers block.function) :
    Ensures (Lower.intoBlock block target action) (fun _ state' =>
      state'.builder.ir.Part block.function scene.plan.ir → ∀ ⦃memory config⦄,
        scene.Enters block memory config →
          scene.Follows config (evaluation memory)
            (scene.Proceeds state loop (scene.Enters target))) state := by
  have ready := sound.setInsertPoint isCurrent
  have start {memory : Memory} {config : Config} (enters : scene.Enters block memory config) :
      scene.Here { state with builder := { state.builder with insertPoint := some block } } block
        memory config := here_of_enters enters isEmpty.code room
  unfold Lower.intoBlock
  rw [ensures_bind, Lower.ensures_build, ensures_bind]
  refine ((runs ready knows).and (acts ready ⟨within.symbols, within.support⟩ knows)).mono ?_
  rintro ending state₁ ⟨goes, follows₁⟩
  cases ending with
  | some ending =>
      refine ensures_pure.2 fun part memory config enters => ?_
      refine (follows₁ part (start enters)).weaken fun progress memory₁ config₁ proceeds => ?_
      refine proceeds.mono (fun _ _ => rfl) ?_
      rintro rfl ⟨isNone, -⟩
      cases isNone
  | none =>
      obtain ⟨there, leads, ready₁⟩ := goes.continues rfl
      refine ((runs_jump scene ready₁ target).and
        (Lower.isStraight_build (IR.Build.isStraight_emit _) state₁)).mono ?_
      rintro _ state₂ ⟨jumps, straight₂⟩ part memory config enters
      rw [← leads.same] at part
      have part₁ := straight₂.part ready₁.insertPoint part
      rw [leads.same] at part₁
      refine (follows₁ part₁ (start enters)).extend fun progress memory₁ config₁ proceeds => ?_
      cases progress with
      | next =>
          obtain ⟨-, other, isOther, -, isHere⟩ := proceeds
          obtain rfl := Option.some.inj (isOther.symm.trans ready₁.insertPoint)
          have same : target.function = other.function := isTarget.1.trans leads.same.symm
          obtain ⟨last, runs, enters⟩ := jumps part same isHere
          exact ⟨1, last, runs, enters⟩
      | left id => exact ⟨0, config₁, .refl _, proceeds⟩
      | exited => exact ⟨0, config₁, .refl _, proceeds⟩

theorem lookup_of_moves {loop : Option LoopId} {next : Nat} {id : IR.FunctionId}
    (knows : state.KnowsExit id loop next) (moves : state.Moves there next state') (loopId : LoopId)
    (isLoop : loop = some loopId) : state'.exits.lookup loopId = state.exits.lookup loopId :=
  moves.exits loopId (knows loopId isLoop).1

theorem acts_conditional (fair : scene.Fair) {loop : Option LoopId} {next holdsLoops : Nat}
    {holds fails : Lower (Option Ending)} {whole other : Eval Progress}
    (runsHolds : Lower.Runs loop next holds) (runsFails : Lower.Runs loop (next + holdsLoops) fails)
    (actsHolds : scene.Acts loop next holds whole)
    (actsFails : scene.Acts loop (next + holdsLoops) fails other) (test : Expr)
    (fits : test.Fits .condition) (position : Position) :
    scene.Acts loop next (do
      Lower.conditional test position holds fails
      return none) (do
      if ← Evaluation.holds scene.invoke scene.scope test then whole else other) := by
  intro state here pending ready within knows
  rw [ensures_bind]
  refine Lower.ensures_conditional ready knows runsHolds runsFails test position ?_
  intro truth thenBlock elseBlock merge tested opened branched joined last branches
  refine ensures_pure.2 fun part memory config isHere => ?_
  have emptyThen := branches.isEmpty (by simp : thenBlock ∈ _)
  have emptyElse := branches.emptyElse
  have emptyMerge := branches.emptyMerge
  have sameThen := branches.sameThen
  have sameElse := branches.sameElse
  have sameMerge := branches.sameMerge
  obtain ⟨_, thenIndex⟩ := thenBlock
  obtain ⟨_, elseIndex⟩ := elseBlock
  obtain ⟨_, mergeIndex⟩ := merge
  obtain rfl := sameThen
  obtain rfl := sameElse
  obtain rfl := sameMerge
  -- the code of each part is there in the end
  have partJoined : joined.builder.ir.Part here.function scene.plan.ir :=
    branches.partLast.trans part
  have partBranched : branched.builder.ir.Part here.function scene.plan.ir :=
    branches.partJoined.trans partJoined
  have partOpened := branches.straightBranch.part branches.adds.ready.insertPoint partBranched
  have partTested := branches.adds.straight.part branches.ready.insertPoint partOpened
  have movesBranch := branches.movesBranch ready
  have isSome := movesBranch.isSome ready.isSome
  have isCurrent := branches.current ready
  have withinBranched := within.moves movesBranch
  have roomBranched := Nat.le_trans isHere.room movesBranch.grows.part.registers
  have roomJoined := Nat.le_trans roomBranched branches.partJoined.registers
  have roomLast := Nat.le_trans roomJoined branches.partLast.registers
  -- behind both branches the machine enters the last block
  have finish (progress : Progress) (memory' : Memory) (config' : Config)
      (proceeds : scene.Proceeds branched loop (scene.Enters ⟨here.function, mergeIndex⟩) progress
        memory' config') :
      scene.Proceeds state loop (scene.GoesOn here none
        { last with
          builder := { last.builder with insertPoint := some ⟨here.function, mergeIndex⟩ } })
        progress memory' config' := by
    refine proceeds.mono (fun id isLoop => (lookup_of_moves knows movesBranch id isLoop).symm) ?_
    intro _ enters
    exact ⟨rfl, _, rfl, rfl, here_of_enters enters emptyMerge.code roomLast⟩
  have tests := tests_condition fair test fits ready within truth tested branches.isTest partTested
    isHere
  refine tests.bind fun isTrue memory₁ config₁ ⟨reaches₁, reads₁⟩ => ?_
  have isHere₂ := here_of_addsThree branches.adds branches.ready reaches₁.isHere
  have reads₂ := reads₁.keeps (.refl _ _)
    (branches.adds.straight.registers branches.ready.insertPoint)
  obtain ⟨config₂, runs₂, enters₂⟩ := runs_branch scene branches.adds.ready truth _ _ () branched
    branches.isBranch partBranched rfl rfl isHere₂ reads₂
  refine .steps runs₂ ?_
  cases isTrue with
  | true =>
      refine (acts_intoBlock actsHolds runsHolds branches.readyThen isCurrent withinBranched
        branches.knows branches.isTarget emptyThen roomBranched () joined branches.isThen partJoined
        enters₂).weaken finish
  | false =>
      have knowsElse := branches.knows.moves isSome branches.movesThen rfl
        (Nat.le_add_right next holdsLoops)
      have isTargetElse := branches.isTarget.moves isSome branches.movesThen rfl
      refine (acts_intoBlock actsFails runsFails branches.readyElse
        (branches.movesThen.current.trans isCurrent) (withinBranched.moves branches.movesThen)
        knowsElse isTargetElse emptyElse roomJoined () last branches.isElse part enters₂).weaken ?_
      intro progress memory' config' proceeds
      refine finish progress memory' config' (proceeds.mono ?_ fun _ enters => enters)
      exact fun id isLoop => (lookup_of_moves branches.knows branches.movesThen id isLoop).symm

/-- One round of a loop goes from the test through the body and back to the test, or behind the
loop. -/
def Turns (scene : Scene) (id : LoopId) (condition : Eval Bool) (round : Eval Progress)
    (testBlock after : BlockId) : Prop :=
  ∀ memory config, scene.Enters testBlock memory config →
    scene.Follows config (condition memory) fun isTrue memory₁ config₁ =>
      ∃ config₂, config₁.Runs scene.plan.ir scene.limits 1 config₂ ∧
        if isTrue then
          scene.Follows config₂ (round memory₁) fun progress memory₃ config₃ =>
            match progress with
            | .next => scene.Enters testBlock memory₃ config₃
            | .left loop => loop = id ∧ scene.Enters after memory₃ config₃
            | .exited => scene.Exits memory₃ config₃
        else scene.Enters after memory₁ config₂

theorem follows_rounds {id : LoopId} {condition : Eval Bool} {round : Eval Progress}
    {testBlock after : BlockId} (turns : scene.Turns id condition round testBlock after)
    (fuel : Nat) (le : fuel ≤ scene.fuel) (enters : scene.Enters testBlock memory config) :
    Simulates scene.plan.ir scene.limits fuel
      (scene.limits.depth < scene.activation.depth + (scene.fuel + 1)) config
      (Evaluation.rounds id condition round fuel memory)
      (scene.Proceeds state none (scene.Enters after)) := by
  induction fuel generalizing memory config with
  | zero => exact ⟨0, config, .refl config, .inr (.inl ⟨rfl, Nat.le_refl 0⟩)⟩
  | succ fuel ih =>
      rw [Evaluation.rounds]
      refine ((turns memory config enters).mono (by omega) (fun deep => deep)
        fun _ _ _ good => good).bind ?_
      rintro isTrue memory₁ config₁ ⟨config₂, runs, behind⟩
      cases isTrue with
      | false => exact .steps runs (.done behind)
      | true =>
          refine .after runs ?_
          have body := Simulates.mono behind (by omega : fuel ≤ scene.fuel + 1)
            (fun deep => deep) fun _ _ _ good => good
          refine body.bind fun progress memory₃ config₃ good => ?_
          cases progress with
          | next => exact ih (by omega) good
          | left loop =>
              obtain ⟨rfl, enters⟩ := good
              simp only [if_true]
              exact .done enters
          | exited => exact .done good

theorem turns_of_rounds {next : Nat} {test : Lower Operand} {body : Lower (Option Ending)}
    {condition : Eval Bool} {round : Eval Progress} {truth : Operand}
    {testBlock bodyBlock after : BlockId} {opened jumped tested branched last : Lowering}
    (tests : scene.Tests test condition) (runs : Lower.Runs (some ⟨next⟩) (next + 1) body)
    (acts : scene.Acts (some ⟨next⟩) (next + 1) body round) (ready : state.Ready here pending)
    (within : scene.Within state) (room : scene.slots.length ≤ state.builder.ir.registers here.function)
    (rounds : Lower.Rounds state here pending next test body truth testBlock bodyBlock after opened
      jumped tested branched last)
    (part : last.builder.ir.Part here.function scene.plan.ir) :
    scene.Turns ⟨next⟩ condition round testBlock after := by
  intro memory config enters
  have emptyTest := rounds.emptyTest
  have emptyBody := rounds.emptyBody
  have sameTest := rounds.sameTest
  have sameBody := rounds.sameBody
  have movesTest := rounds.movesTest
  obtain ⟨_, testIndex⟩ := testBlock
  obtain ⟨_, bodyIndex⟩ := bodyBlock
  obtain rfl := sameTest
  obtain rfl := sameBody
  -- the code of each part is there in the end
  have partBranched := rounds.partLast.trans part
  have partTested := rounds.partBranched.trans partBranched
  have withinJumped := within.moves (rounds.movesJump ready)
  have withinBranched := withinJumped.moves movesTest
  have roomJumped :=
    Nat.le_trans room ((rounds.partOpened ready).trans rounds.partJumped).registers
  have roomBranched := Nat.le_trans roomJumped (rounds.partTested.trans rounds.partBranched).registers
  have isHere : scene.Here { jumped with
      builder := { jumped.builder with insertPoint := some ⟨here.function, testIndex⟩ } }
      ⟨here.function, testIndex⟩ memory config :=
    here_of_enters enters emptyTest.code roomJumped
  refine (tests rounds.readyTest ⟨withinJumped.symbols, withinJumped.support⟩ truth tested
    rounds.isTest partTested isHere).weaken fun isTrue memory₁ config₁ ⟨reaches₁, reads₁⟩ => ?_
  obtain ⟨config₂, runs₂, enters₂⟩ := runs_branch scene rounds.ready truth _ _ () branched
    rounds.isBranch partBranched rfl rounds.sameAfter reaches₁.isHere reads₁
  refine ⟨config₂, runs₂, ?_⟩
  cases isTrue with
  | false => exact enters₂
  | true =>
      refine (acts_intoBlock acts runs rounds.readyBody (rounds.current ready)
        ⟨withinBranched.symbols, withinBranched.support⟩ rounds.knows rounds.isTarget emptyBody
        roomBranched () last rounds.isBody part enters₂).weaken ?_
      intro progress memory₃ config₃ proceeds
      cases progress with
      | next => exact proceeds
      | left id =>
          obtain ⟨isLoop, exit, isExit, enters⟩ := proceeds
          obtain rfl := Option.some.inj isLoop
          simp only [List.lookup_cons_self, Option.some.injEq] at isExit
          exact ⟨rfl, isExit ▸ enters⟩
      | exited => exact proceeds

theorem acts_loop (loop : Option LoopId) {next : Nat} {test : Lower Operand}
    {body : Lower (Option Ending)} {condition : Eval Bool} {round : Eval Progress}
    (tests : scene.Tests test condition) (yields : Lower.Yields test) (straight : test.IsStraight)
    (runs : Lower.Runs (some ⟨next⟩) (next + 1) body)
    (acts : scene.Acts (some ⟨next⟩) (next + 1) body round) (ready : state.Ready here pending)
    (within : scene.Within state) :
    Ensures (Lower.loop here.function ⟨next⟩ test body) (fun _ state' =>
      state'.builder.ir.Part here.function scene.plan.ir → ∀ ⦃memory config⦄,
        scene.Here state here memory config →
          scene.Follows config (Evaluation.rounds ⟨next⟩ condition round scene.fuel memory)
            (scene.Proceeds state loop (scene.GoesOn here none state'))) state := by
  refine Lower.ensures_loop ready yields straight runs ?_
  intro truth testBlock bodyBlock after opened jumped tested branched last rounds part memory config
    isHere
  have turns := turns_of_rounds tests runs acts ready within isHere.room rounds part
  have partJumped := (rounds.partTested.trans (rounds.partBranched.trans rounds.partLast)).trans part
  have roomLast := Nat.le_trans isHere.room (rounds.moves ready).grows.part.registers
  obtain ⟨config₁, runs₁, enters₁⟩ := runs_jump scene rounds.adds.ready _ () jumped rounds.isJump
    partJumped rounds.sameTest (here_of_addsThree rounds.adds ready isHere)
  have rounded : Simulates scene.plan.ir scene.limits scene.fuel _ config₁ _
    (scene.Proceeds state none (scene.Enters after)) :=
    follows_rounds turns scene.fuel (Nat.le_refl _) enters₁
  refine .after runs₁ (rounded.weaken fun progress memory' config' proceeds => ?_)
  cases progress with
  | next =>
      refine ⟨rfl, _, rfl, rounds.sameAfter, here_of_enters proceeds rounds.emptyAfter.code ?_⟩
      rwa [rounds.sameAfter]
  | left id => cases proceeds.1
  | exited => exact proceeds

/-! ### Statements -/

theorem follows_assign (fair : scene.Fair) (ready : state.Ready here pending)
    (within : scene.Within state) {assignment : Assignment}
    (targetFits : assignment.target.Fits .arithmetic)
    (valueFits : assignment.value.Fits .arithmetic) :
    Ensures (Lower.assign assignment) (fun _ state' => Tracks state here pending state' ∧
      scene.Assignable assignment.target ∧
      (state'.builder.ir.Part here.function scene.plan.ir → ∀ ⦃memory config⦄,
        scene.Here state here memory config →
          scene.Follows config (Evaluation.assign scene.invoke scene.scope assignment memory)
            fun _ memory' last => scene.Reaches state here config state' memory' last)) state := by
  obtain ⟨target, value, position⟩ := assignment
  unfold Lower.assign
  dsimp only at targetFits valueFits ⊢
  split
  · simp
  · rename_i name isTarget
    rw [ensures_bind]
    refine Lower.ensures_notConstant fun entry isEntry notConstant => ?_
    have assignable : scene.Assignable target := by
      rintro other position rfl found isFound
      obtain rfl : other = name := by simpa [Expr.target?] using isTarget
      rw [within.symbols] at isEntry
      obtain rfl := Option.some.inj (isFound.symm.trans isEntry)
      exact notConstant
    rw [ensures_bind]
    refine ((places_pointer fair target targetFits assignable).run (Lower.yields_pointer target ready)
      (Lower.isStraight_pointer target) ready within).mono ?_
    rintro pointer state₁ ⟨tracks₁, has₁, follows₁⟩
    rw [ensures_bind]
    refine ((values_expression fair value valueFits).run
      (Lower.yields_expression value tracks₁.ready) (Lower.isStraight_expression _ value)
      tracks₁.ready (within.straight tracks₁.straight)).mono ?_
    rintro operand state₂ ⟨tracks₂, has₂, follows₂⟩
    refine (run_store fair tracks₂.ready has₂
      (has₁.straight tracks₁.ready tracks₂.straight)).mono ?_
    rintro _ state₃ ⟨tracks₃, follows₃⟩
    refine ⟨(tracks₁.trans tracks₂).trans tracks₃, assignable, fun part memory config isHere => ?_⟩
    have part₂ := tracks₃.part tracks₂.ready part
    have le₁ := tracks₁.registers ready
    have le₂ := tracks₂.registers tracks₁.ready
    refine (follows₁ (tracks₂.part tracks₁.ready part₂) isHere).bind ?_
    rintro place memory₁ config₁ ⟨reaches₁, leads₁⟩
    refine (follows₂ part₂ reaches₁.isHere).bind ?_
    rintro result memory₂ config₂ ⟨reaches₂, reads₂⟩
    refine (follows₃ part reaches₂.isHere reads₂ (leads₁.keeps reaches₂.keeps le₂)).weaken ?_
    intro _ memory₃ config₃ reaches₃
    exact (reaches₁.trans reaches₂ le₁).trans reaches₃ (Nat.le_trans le₁ le₂)

theorem follows_advance (fair : scene.Fair) (ready : state.Ready here pending)
    (within : scene.Within state) {counter : Expr} (fits : counter.Fits .arithmetic)
    (assignable : scene.Assignable counter) (direction : Direction) :
    Ensures (Lower.advanceCounter counter direction) (fun _ state' =>
      Tracks state here pending state' ∧
      (state'.builder.ir.Part here.function scene.plan.ir → ∀ ⦃memory config⦄,
        scene.Here state here memory config →
          scene.Follows config (Evaluation.advance scene.invoke scene.scope counter direction memory)
            fun _ memory' last => scene.Reaches state here config state' memory' last)) state := by
  unfold Lower.advanceCounter
  rw [ensures_bind]
  refine ((places_pointer fair counter fits assignable).run (Lower.yields_pointer counter ready)
    (Lower.isStraight_pointer counter) ready within).mono ?_
  rintro pointer state₁ ⟨tracks₁, has₁, follows₁⟩
  rw [ensures_bind]
  refine ((values_expression fair counter fits).run (Lower.yields_expression counter tracks₁.ready)
    (Lower.isStraight_expression _ counter) tracks₁.ready (within.straight tracks₁.straight)).mono ?_
  rintro current state₂ ⟨tracks₂, has₂, follows₂⟩
  have le₁ := tracks₁.registers ready
  have le₂ := tracks₂.registers tracks₁.ready
  -- up and down differ only in the operation and in what it makes of the value
  have moves (op : IR.ArithOp) (move : Int32 → Int32)
      (isMove : ∀ value, op.evaluate? value 1 = some (move value)) :
      Ensures (do
        let next ← Lower.build (IR.Build.arith op current (.int 1))
        Lower.build (IR.Build.store next pointer)) (fun _ state' =>
          Tracks state here pending state' ∧
          (state'.builder.ir.Part here.function scene.plan.ir → ∀ ⦃memory config⦄,
            scene.Here state here memory config →
              scene.Follows config ((do
                let place ← Evaluation.place scene.invoke scene.scope counter
                let current ← Evaluation.value scene.invoke scene.scope counter
                Evaluation.write place (move current) : Eval Unit) memory)
                fun _ memory' last => scene.Reaches state here config state' memory' last))
        state₂ := by
    rw [ensures_bind]
    refine (run_arith scene tracks₂.ready op has₂ (Lower.has_int 1)).mono ?_
    rintro next state₃ ⟨tracks₃, has₃, follows₃⟩
    have le₃ := tracks₃.registers tracks₂.ready
    refine (run_store fair tracks₃.ready has₃ (has₁.straight tracks₁.ready
      (tracks₂.trans tracks₃).straight)).mono ?_
    rintro _ state₄ ⟨tracks₄, follows₄⟩
    refine ⟨((tracks₁.trans tracks₂).trans tracks₃).trans tracks₄, ?_⟩
    intro part memory config isHere
    have part₃ := tracks₄.part tracks₃.ready part
    have part₂ := tracks₃.part tracks₂.ready part₃
    refine (follows₁ (tracks₂.part tracks₁.ready part₂) isHere).bind ?_
    rintro place memory₁ config₁ ⟨reaches₁, leads₁⟩
    refine (follows₂ part₂ reaches₁.isHere).bind ?_
    rintro value memory₂ config₂ ⟨reaches₂, reads₂⟩
    have moved := follows₃ part₃ reaches₂.isHere reads₂ (reads_int 1 _)
    rw [isMove] at moved
    have written : Evaluation.write place (move value) =
        (ofOption (some (move value)) >>= Evaluation.write place) := (pure_bind _ _).symm
    rw [written]
    refine moved.bind ?_
    rintro result memory₃ config₃ ⟨reaches₃, reads₃⟩
    have leads₃ := leads₁.keeps (reaches₂.keeps.trans reaches₃.keeps le₂) (Nat.le_trans le₂ le₃)
    refine (follows₄ part reaches₃.isHere reads₃ leads₃).weaken ?_
    intro _ memory₄ config₄ reaches₄
    have reaches₁₃ := (reaches₁.trans reaches₂ le₁).trans reaches₃ (Nat.le_trans le₁ le₂)
    exact reaches₁₃.trans reaches₄ (Nat.le_trans (Nat.le_trans le₁ le₂) le₃)
  cases direction with
  | upward => exact moves .add (· + 1) fun _ => rfl
  | downward => exact moves .sub (· - 1) fun _ => rfl

theorem acts_advance (fair : scene.Fair) {loop : Option LoopId} {next : Nat}
    {body : Lower (Option Ending)} {evaluation : Eval Progress} (runs : Lower.Runs loop next body)
    (acts : scene.Acts loop next body evaluation) {counter : Expr}
    (fits : counter.Fits .arithmetic) (assignable : scene.Assignable counter)
    (direction : Direction) :
    scene.Acts loop next (do
      let ending ← body
      if ending.isNone then Lower.advanceCounter counter direction
      return ending) (do
      let progress ← evaluation
      if progress = .next then Evaluation.advance scene.invoke scene.scope counter direction
      return progress) := by
  intro state here pending ready within knows
  rw [ensures_bind]
  refine ((runs ready knows).and (acts ready within knows)).mono ?_
  rintro ending state₁ ⟨goes, follows₁⟩
  cases ending with
  | some ending =>
      simp only [Option.isNone_some, Bool.false_eq_true, if_false]
      refine ensures_pure.2 fun part memory config isHere => ?_
      refine (follows₁ part isHere).bind fun progress memory₁ config₁ proceeds => ?_
      cases progress with
      | next => cases proceeds.1
      | left id =>
          simp only [reduceCtorEq, if_false]
          exact .done proceeds
      | exited =>
          simp only [reduceCtorEq, if_false]
          exact .done proceeds
  | none =>
      obtain ⟨there, leads, ready₁⟩ := goes.continues rfl
      simp only [Option.isNone_none, if_true, ensures_bind]
      refine (follows_advance fair ready₁ (within.moves goes.moves) fits assignable direction).mono ?_
      rintro _ state₂ ⟨tracks₂, follows₂⟩
      refine ensures_pure.2 fun part memory config isHere => ?_
      rw [← leads.same] at part
      have part₁ := tracks₂.part ready₁ part
      rw [leads.same] at part₁
      refine (follows₁ part₁ isHere).bind fun progress memory₁ config₁ proceeds => ?_
      cases progress with
      | next =>
          simp only [if_true]
          obtain ⟨-, other, isOther, -, isHere₁⟩ := proceeds
          obtain rfl := Option.some.inj (isOther.symm.trans ready₁.insertPoint)
          refine (follows₂ part isHere₁).bind fun _ memory₂ config₂ reaches₂ => ?_
          exact .done ⟨rfl, other, tracks₂.ready.insertPoint, leads.same, reaches₂.isHere⟩
      | left id =>
          simp only [reduceCtorEq, if_false]
          exact .done proceeds
      | exited =>
          simp only [reduceCtorEq, if_false]
          exact .done proceeds

theorem emitCall_ne_exited (callee : IR.FunctionId) (operands : List Operand) :
    Ensures (Lower.emitCall callee operands) (fun result _ => result ≠ .exited) state := by
  unfold Lower.emitCall
  rw [ensures_bind]
  intro value? state' _
  cases value? <;> simp

theorem call_ne_exited (fair : scene.Fair) (within : scene.Within state) {name : String}
    (notExit : scene.scope.find? name ≠ some (.builtin .exit)) (arguments : List Expr)
    (position : Position) (used : Bool) (values : Lower (List Operand)) (target : Lower Operand) :
    Ensures (Lower.call name arguments position used values target)
      (fun result _ => result ≠ .exited) state := by
  unfold Lower.call
  rw [ensures_bind]
  refine (Lower.ensures_callee name arguments.length position used state).mono ?_
  rintro storage _ ⟨rfl, callable⟩
  obtain ⟨entry, returnsValue, isEntry, -, rfl, -⟩ := callable.entry
  rw [within.symbols] at isEntry
  obtain ⟨meaning, isMeaning, means⟩ := fair.names name entry isEntry
  cases isStorage : entry.storage with
  | address pointer => simp
  | function id =>
      rw [ensures_bind]
      exact fun _ _ _ => emitCall_ne_exited _ _
  | builtin builtin =>
      cases builtin with
      | exit =>
          cases meaning with
          | builtin other =>
              obtain rfl := Storage.builtin.inj (isStorage.symm.trans means.2.2.2)
              exact absurd isMeaning notExit
          | constant value | scalar place | array array low high | callable heading body =>
              simp [Plan.Means, isStorage] at means
      | writeln =>
          simp only [ensures_bind, ensures_get]
          exact fun _ _ _ => emitCall_ne_exited _ _
      | readln =>
          simp only [ensures_bind, ensures_get]
          exact fun _ _ _ _ _ _ => emitCall_ne_exited _ _
      | write =>
          simp only [ensures_bind, ensures_get, ensures_pure]
          exact fun _ _ _ _ _ _ => CallResult.noConfusion
      | dec =>
          simp only [ensures_bind, ensures_pure]
          exact fun _ _ _ => CallResult.noConfusion

theorem acts_exit (fair : scene.Fair) {loop : Option LoopId} {next : Nat} {name : String}
    (isExit : scene.scope.find? name = some (.builtin .exit)) (arguments : List Expr)
    (position : Position) :
    scene.Acts loop next (Lower.statement (.call name arguments position))
      (Evaluation.statement scene.invoke scene.scope scene.fuel (.call name arguments position)) := by
  intro state here pending ready within knows
  simp only [Lower.statement, Lower.callStatement, Lower.call, ensures_bind]
  refine (Lower.ensures_callee name arguments.length position false state).mono ?_
  rintro storage _ ⟨rfl, callable⟩
  obtain ⟨entry, returnsValue, isEntry, isShape, rfl, -⟩ := callable.entry
  rw [within.symbols] at isEntry
  obtain ⟨meaning, isMeaning, means⟩ := fair.names name entry isEntry
  obtain rfl := Option.some.inj (isMeaning.symm.trans isExit)
  obtain ⟨-, sameShape, -, isStorage⟩ := means
  rw [isShape, Shape.callable.injEq] at sameShape
  obtain rfl := List.length_eq_zero_iff.1 sameShape.1
  simp only [isStorage, ensures_bind, ensures_pure]
  refine (follows_exit fair ready within position).mono ?_
  intro _ state₁ follows part memory config isHere
  have evaluated : Evaluation.statement scene.invoke scene.scope scene.fuel
      (.call name [] position) = pure .exited := by
    rw [Evaluation.statement]
    exact isExit
  rw [evaluated]
  exact (follows part isHere).recast fun last exits => exits

theorem acts_call (fair : scene.Fair) {loop : Option LoopId} {next : Nat} (name : String)
    (arguments : List Expr) (position : Position) (fit : arguments = [] ∨ ArgumentsFit name arguments) :
    scene.Acts loop next (Lower.statement (.call name arguments position))
      (Evaluation.statement scene.invoke scene.scope scene.fuel (.call name arguments position)) := by
  by_cases isExit : scene.scope.find? name = some (.builtin .exit)
  · exact acts_exit fair isExit arguments position
  intro state here pending ready within knows
  have evaluated : Evaluation.statement scene.invoke scene.scope scene.fuel
      (.call name arguments position) =
        (do
          let _ ← scene.evaluateCall name arguments
          return .next) := by
    rw [Evaluation.statement]
    exact fun isFound _ => isExit isFound
  have shape (notEmpty : arguments ≠ []) : ArgumentShape name arguments := by
    rcases fit with isEmpty | fits
    · exact absurd isEmpty notEmpty
    · exact fits.1
  rw [evaluated]
  simp only [Lower.statement, Lower.callStatement, ensures_bind]
  have calls := calls_call fair ready within name arguments position false shape
    (fun notWrite => allValues_expressions fair arguments (by
      rcases fit with rfl | fits
      · trivial
      · exact fits.2 notWrite)) fun notWrite argument isArgument assignable => by
      rcases fit with rfl | fits
      · cases isArgument
      · subst isArgument
        exact places_pointer fair argument (fits.2 notWrite).1 assignable
  refine ((calls.and (call_ne_exited fair within isExit arguments position false _ _)).and
    ((Lower.leaves_call ready name arguments position false (Lower.yieldsAll_expressions arguments)
      (Lower.isStraight_expressions arguments) (Lower.yields_firstPointer arguments)))).mono ?_
  rintro result state₁ ⟨⟨calls, notExited⟩, left⟩
  have goesOn (ready₁ : state₁.Ready here pending) :
      state₁.builder.ir.Part here.function scene.plan.ir → ∀ ⦃memory config⦄,
        scene.Here state here memory config →
          scene.Follows config ((do
            let _ ← scene.evaluateCall name arguments
            return .next : Eval Progress) memory)
            (scene.Proceeds state loop (scene.GoesOn here none state₁)) := by
    intro part memory config isHere
    refine (calls notExited part isHere).bind fun value? memory₁ config₁ good => ?_
    exact .done ⟨rfl, here, ready₁.insertPoint, rfl, good.1.isHere⟩
  cases result with
  | value value => exact ensures_pure.2 (goesOn left.1)
  | nothing => exact ensures_pure.2 (goesOn left)
  | exited => exact absurd rfl notExited

theorem acts_leave (scene : Scene) (loop : LoopId) (next : Nat) (position : Position) :
    scene.Acts (some loop) next (do
      Lower.leaveLoop loop position
      return some .leave) (return .left loop) := by
  intro state here pending ready within knows
  obtain ⟨-, exit, isExit, isTarget⟩ := knows loop rfl
  simp only [Lower.leaveLoop, ensures_bind, ensures_get, isExit]
  refine (runs_jump scene ready exit).mono fun _ state₁ jumps => ?_
  refine ensures_pure.2 fun part memory config isHere => ?_
  obtain ⟨last, runs, enters⟩ := jumps part isTarget.1 isHere
  exact .steps runs (.done ⟨rfl, exit, isExit, enters⟩)

theorem acts_none (scene : Scene) (loop : Option LoopId) (next : Nat) :
    scene.Acts loop next (return none) (return .next) := by
  intro state here pending ready within knows
  exact ensures_pure.2 fun part memory config isHere =>
    .done ⟨rfl, here, ready.insertPoint, rfl, isHere⟩

theorem acts_assign (fair : scene.Fair) {loop : Option LoopId} {next : Nat}
    {assignment : Assignment} (targetFits : assignment.target.Fits .arithmetic)
    (valueFits : assignment.value.Fits .arithmetic) :
    scene.Acts loop next (do
      Lower.assign assignment
      return none) (do
      Evaluation.assign scene.invoke scene.scope assignment
      return .next) := by
  intro state here pending ready within knows
  rw [ensures_bind]
  refine (follows_assign fair ready within targetFits valueFits).mono ?_
  rintro _ state₁ ⟨tracks₁, -, follows₁⟩
  refine ensures_pure.2 fun part memory config isHere => ?_
  refine (follows₁ part isHere).bind fun _ memory₁ config₁ reaches₁ => ?_
  exact .done ⟨rfl, here, tracks₁.ready.insertPoint, rfl, reaches₁.isHere⟩

theorem acts_whileLoop (fair : scene.Fair) {loop : Option LoopId} {next : Nat} {test : Expr}
    (fits : test.Fits .condition) (position : Position) {body : Lower (Option Ending)}
    {round : Eval Progress} (runs : Lower.Runs (some ⟨next⟩) (next + 1) body)
    (acts : scene.Acts (some ⟨next⟩) (next + 1) body round) :
    scene.Acts loop next (do
      Lower.whileLoop ⟨next⟩ test position body
      return none)
      (Evaluation.rounds ⟨next⟩ (Evaluation.holds scene.invoke scene.scope test) round
        scene.fuel) := by
  intro state here pending ready within knows
  unfold Lower.whileLoop
  rw [ensures_bind, ensures_bind]
  refine Lower.ensures_currentFunction ready .whileLoop position ?_
  refine (acts_loop loop (tests_condition fair test fits) (Lower.yields_condition test)
    (Lower.isStraight_condition test) runs acts ready within).mono ?_
  intro _ state₁ follows
  exact ensures_pure.2 follows

theorem acts_forLoop (fair : scene.Fair) {loop : Option LoopId} {next : Nat}
    {initial : Assignment} (targetFits : initial.target.Fits .arithmetic)
    (valueFits : initial.value.Fits .arithmetic) {limit : Expr} (limitFits : limit.Fits .arithmetic)
    (direction : Direction) (position : Position) {body : Lower (Option Ending)}
    {round : Eval Progress} (runs : Lower.Runs (some ⟨next⟩) (next + 1) body)
    (acts : scene.Acts (some ⟨next⟩) (next + 1) body round) :
    scene.Acts loop next (do
      Lower.forLoop ⟨next⟩ initial direction limit position body
      return none) (do
      Evaluation.assign scene.invoke scene.scope initial
      Evaluation.rounds ⟨next⟩
        (Evaluation.withinLimit scene.invoke scene.scope initial.target direction limit)
        (do
          let progress ← round
          if progress = .next then
            Evaluation.advance scene.invoke scene.scope initial.target direction
          return progress) scene.fuel) := by
  intro state here pending ready within knows
  unfold Lower.forLoop
  simp only [ensures_bind]
  refine Lower.ensures_currentFunction ready .forLoop position ?_
  refine (follows_assign fair ready within targetFits valueFits).mono ?_
  rintro _ state₁ ⟨tracks₁, assignable, follows₁⟩
  have advances := acts_advance fair runs acts targetFits assignable direction
  refine ((acts_loop loop (tests_withinLimit fair targetFits limitFits direction)
    (Lower.ready_withinLimit initial.target direction limit) (Lower.isStraight_withinLimit _ _ _)
    (Lower.runs_advance runs initial.target direction) advances tracks₁.ready
    (within.straight tracks₁.straight)).and (Lower.goes_loop tracks₁.ready
      (Lower.ready_withinLimit initial.target direction limit) (Lower.isStraight_withinLimit _ _ _)
      (Lower.runs_advance runs initial.target direction))).mono ?_
  rintro _ state₂ ⟨follows₂, goes⟩
  refine ensures_pure.2 fun part memory config isHere => ?_
  refine (follows₁ (goes.moves.part rfl part) isHere).bind fun _ memory₁ config₁ reaches₁ => ?_
  refine (follows₂ part reaches₁.isHere).weaken fun progress memory₂ config₂ proceeds => ?_
  exact proceeds.mono (fun id _ => by rw [tracks₁.straight.exits]) fun _ goesOn => goesOn

theorem acts_cons {loop : Option LoopId} {next loops : Nat} {first others : Lower (Option Ending)}
    {evaluation rest : Eval Progress} (runsFirst : Lower.Runs loop next first)
    (runsOthers : Lower.Runs loop (next + loops) others)
    (actsFirst : scene.Acts loop next first evaluation)
    (actsOthers : scene.Acts loop (next + loops) others rest) :
    scene.Acts loop next (do
      match ← first with
      | some ending => return some ending
      | none => others) (do
      match ← evaluation with
      | .next => rest
      | progress => return progress) := by
  intro state here pending ready within knows
  rw [ensures_bind]
  refine ((runsFirst ready knows).and (actsFirst ready within knows)).mono ?_
  rintro ending state₁ ⟨goes₁, follows₁⟩
  cases ending with
  | some ending =>
      refine ensures_pure.2 fun part memory config isHere => ?_
      refine (follows₁ part isHere).bind fun progress memory₁ config₁ proceeds => ?_
      cases progress with
      | next => cases proceeds.1
      | left id => exact .done proceeds
      | exited => exact .done proceeds
  | none =>
      obtain ⟨there, leads, ready₁⟩ := goes₁.continues rfl
      have knows₁ := knows.moves ready.isSome goes₁.moves rfl (Nat.le_add_right next loops)
      rw [← leads.same] at knows₁
      refine ((runsOthers ready₁ knows₁).and
        (actsOthers ready₁ (within.moves goes₁.moves) knows₁)).mono ?_
      rintro ending state₂ ⟨goes₂, follows₂⟩ part memory config isHere
      rw [← leads.same] at part
      have part₁ := goes₂.moves.part rfl part
      rw [leads.same] at part₁
      refine (follows₁ part₁ isHere).bind fun progress memory₁ config₁ proceeds => ?_
      cases progress with
      | next =>
          obtain ⟨-, other, isOther, -, isHere₁⟩ := proceeds
          obtain rfl := Option.some.inj (isOther.symm.trans ready₁.insertPoint)
          refine (follows₂ part isHere₁).weaken fun progress memory₂ config₂ proceeds => ?_
          refine proceeds.mono (fun id isLoop => ?_) fun _ goesOn => ?_
          · exact (lookup_of_moves knows goes₁.moves id isLoop).symm
          · obtain ⟨isNone, last, isLast, same, isHere₂⟩ := goesOn
            exact ⟨isNone, last, isLast, same.trans leads.same, isHere₂⟩
      | left id => exact .done proceeds
      | exited => exact .done proceeds

mutual

/-- The code of a statement does what the statement is evaluated to. -/
theorem acts_statement (fair : scene.Fair) {loop : Option LoopId} {next : Nat} (action : Statement)
    (isAction : action.IsAction loop next) :
    scene.Acts loop next (Lower.statement action)
      (Evaluation.statement scene.invoke scene.scope scene.fuel action) := by
  cases action with
  | call name arguments position => exact acts_call fair name arguments position isAction.2
  | assign assignment =>
      rw [Lower.statement, Evaluation.statement]
      exact acts_assign fair isAction.2.1 isAction.2.2
  | block body =>
      rw [Lower.statement, Evaluation.statement]
      exact acts_statements fair body isAction
  | ifThen test holds position =>
      rw [Lower.statement, Evaluation.statement]
      exact acts_conditional fair (Lower.runs_statement holds isAction.2)
        (Lower.runs_none loop (next + holds.loops)) (acts_statement fair holds isAction.2)
        (acts_none scene loop (next + holds.loops)) test isAction.1 position
  | ifThenElse test holds fails position =>
      rw [Lower.statement, Evaluation.statement]
      exact acts_conditional fair (Lower.runs_statement holds isAction.2.1)
        (Lower.runs_statement fails isAction.2.2) (acts_statement fair holds isAction.2.1)
        (acts_statement fair fails isAction.2.2) test isAction.1 position
  | whileLoop id test body position =>
      obtain ⟨rfl, fits, isBody⟩ := isAction
      rw [Lower.statement, Evaluation.statement]
      exact acts_whileLoop fair fits position (Lower.runs_statement body isBody)
        (acts_statement fair body isBody)
  | forLoop id initial direction limit body position =>
      obtain ⟨rfl, ⟨counter, counterPosition, isTarget, isCounter⟩, valueFits, limitFits, isBody⟩ :=
        isAction
      rw [Lower.statement, Evaluation.statement]
      exact acts_forLoop fair (by rw [isTarget]; exact isCounter) valueFits limitFits direction
        position (Lower.runs_statement body isBody) (acts_statement fair body isBody)
  | leave id position =>
      obtain rfl := isAction
      rw [Lower.statement, Evaluation.statement]
      exact acts_leave scene id next position
  | _ => exact isAction.elim

theorem acts_statements (fair : scene.Fair) {loop : Option LoopId} {next : Nat}
    (actions : List Statement) (areActions : Statement.AreActions loop next actions) :
    scene.Acts loop next (Lower.statements actions)
      (Evaluation.statements scene.invoke scene.scope scene.fuel actions) := by
  cases actions with
  | nil => exact acts_none scene loop next
  | cons first others =>
      obtain ⟨isAction, areOthers⟩ := areActions
      rw [Lower.statements, Evaluation.statements]
      exact acts_cons (Lower.runs_statement first isAction) (Lower.runs_statements others areOthers)
        (acts_statement fair first isAction) (acts_statements fair others areOthers)

end

end Scene

end MiniPascal
