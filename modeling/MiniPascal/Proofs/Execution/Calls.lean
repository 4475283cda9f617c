import MiniPascal.Proofs.Execution.Statements

/-!
# Calls at sites

Every call of a callable in a compiled program gets to a site of its own: the machine makes room for the
variables of the call, stores what is in them at first, and then stands in front of the actions.  Where
the actions do not end the block of the body themselves, it returns behind them.
-/

namespace MiniPascal

open IR (BlockId Operand Instruction)
open Machine (Config Frame Limits State)

/-! ### The start of a body -/

structure Machine.Config.Starts (ir : IR.Module) (id : IR.FunctionId) (count : Nat)
    (config : Config) : Prop where
  frame : ∃ (function : IR.Function) (arguments : List Int32) (depth : Nat)
    (result : Option IR.Register), ir.functions[id]? = some function ∧ arguments.length = count ∧
      config.frame = Machine.Run.entryFrame function id (arguments.map .int) config.state.stack.size
        depth result

section

variable {ir : IR.Module} {limits : Limits} {config : Config}

namespace Machine.Config.Starts

variable {id : IR.FunctionId} {count : Nat} (starts : config.Starts ir id count)

include starts

theorem block : config.frame.block = ⟨id, 0⟩ := by
  obtain ⟨function, arguments, depth, result, -, -, isFrame⟩ := starts.frame
  rw [isFrame]
  rfl

theorem next : config.frame.next = 0 := by
  obtain ⟨function, arguments, depth, result, -, -, isFrame⟩ := starts.frame
  rw [isFrame]
  rfl

theorem function : config.frame.function = id := by
  obtain ⟨function, arguments, depth, result, -, -, isFrame⟩ := starts.frame
  rw [isFrame]
  rfl

theorem base : config.frame.base = config.state.stack.size := by
  obtain ⟨function, arguments, depth, result, -, -, isFrame⟩ := starts.frame
  rw [isFrame]
  rfl

theorem size : config.frame.registers.size = ir.registers id := by
  obtain ⟨function, arguments, depth, result, isFunction, -, isFrame⟩ := starts.frame
  rw [isFrame, IR.Module.registers_of_function isFunction]
  simp [Machine.Run.entryFrame]

theorem exists_argument {index : Nat} (inside : index < count) :
    ∃ value, config.frame.arguments[index]? = some (.int value) := by
  obtain ⟨function, arguments, depth, result, -, rfl, isFrame⟩ := starts.frame
  refine ⟨arguments[index], ?_⟩
  rw [isFrame]
  simp [Machine.Run.entryFrame, inside]

end Machine.Config.Starts

structure Machine.Frame.CanStore (ir : IR.Module) (height : Nat) (store : Operand × IR.Register)
    (frame : Frame) : Prop where
  value : ∃ value, frame.word ir store.1 = .ok (.int value)
  slot : ∃ index < height, frame.registers[store.2]? = some (some (.pointer (.slot index)))

structure Machine.Config.Passes (config : Config) (count : Nat) (last : Config) : Prop where
  frame : last.frame = { config.frame with next := config.frame.next + count }
  globals : last.state.globals = config.state.globals
  height : last.state.stack.size = config.state.stack.size

variable (limits) in
theorem passes_fillings {stores : List (Operand × IR.Register)} {others : List Instruction}
    (isCode : (ir.code config.frame.block).drop config.frame.next = fillings stores ++ others)
    (stored : ∀ store ∈ stores, config.frame.CanStore ir config.state.stack.size store) :
    config.GetsTo ir limits (config.Passes stores.length) := by
  induction stores generalizing config with
  | nil => exact .here ⟨rfl, rfl, rfl⟩
  | cons store stores ih =>
      rw [List.forall_mem_cons] at stored
      obtain ⟨⟨⟨value, isValue⟩, index, inside, isSlot⟩, stored⟩ := stored
      have isNext : (ir.code config.frame.block)[config.frame.next]? =
          some (.store store.1 (.register store.2)) := by
        rw [← List.head?_drop, isCode]
        rfl
      have isPointer : config.frame.pointer ir (.register store.2) = .ok (.slot index) :=
        Frame.pointer_eq_ok.2 (by simp only [Frame.word, isSlot])
      have isThere : config.state.counted.value? (.slot index) = some config.state.stack[index] :=
        Array.getElem?_eq_getElem inside
      have executed := Machine.Run.execute_store limits config.state.counted
        (Frame.int_eq_ok.2 isValue) isPointer
      rw [Machine.Run.store_of_value isThere trivial] at executed
      have height : (config.state.counted.write (.slot index) value).stack.size =
          config.state.stack.size := Array.size_setIfInBounds
      have isRest : (ir.code config.frame.block).drop (config.frame.next + 1) =
          fillings stores ++ others := by
        rw [← List.drop_drop, isCode]
        rfl
      obtain ⟨count, last, runs, isFrame, globals, same⟩ := @ih
        ⟨config.frame.advance, config.state.counted.write (.slot index) value⟩ isRest
        fun other isIn => by
          obtain ⟨isValue, index, inside, isSlot⟩ := stored other isIn
          exact ⟨isValue, index, height ▸ inside, isSlot⟩
      refine ⟨_, last, (Config.Runs.one (Lowering.fetch_of_code isNext) executed).trans runs, ?_,
        globals, same.trans height⟩
      rw [isFrame, List.length_cons, Frame.advance, Nat.add_assoc, Nat.add_comm 1]

end

theorem mem_argumentStores {first slot : Nat} {names : List String} {store : Operand × IR.Register}
    (isIn : store ∈ argumentStores first slot names) :
    ∃ index < names.length, store = (.argument (first + index), slot + index) := by
  induction names generalizing first slot with
  | nil => cases isIn
  | cons name names ih =>
      rcases List.mem_cons.1 isIn with rfl | isIn
      · exact ⟨0, by simp, rfl⟩
      · obtain ⟨index, inside, rfl⟩ := ih isIn
        exact ⟨index + 1, by simpa using inside, by simp [Nat.add_assoc, Nat.add_comm 1]⟩

theorem Heading.mem_initialStores {heading : Heading} {store : Operand × IR.Register}
    (isIn : store ∈ heading.initialStores) :
    (store.1 = .int 0 ∨ ∃ index < heading.parameterCount, store.1 = .argument index) ∧
      store.2 < heading.slots.length := by
  unfold initialStores at isIn
  unfold slots
  split at isIn
  · rename_i returns
    rw [if_pos returns]
    rcases List.mem_cons.1 isIn with rfl | isIn
    · exact ⟨.inl rfl, by simp⟩
    · obtain ⟨index, inside, rfl⟩ := mem_argumentStores isIn
      exact ⟨.inr ⟨index, inside, by simp⟩, by simpa [Nat.add_comm 1] using inside⟩
  · rename_i returns
    rw [if_neg returns]
    obtain ⟨index, inside, rfl⟩ := mem_argumentStores isIn
    exact ⟨.inr ⟨index, inside, by simp⟩, by simpa using inside⟩

theorem MakesRoom.canStore {ir : IR.Module} {id : IR.FunctionId} {heading : Heading} {count : Nat}
    {first config : Config} (makes : MakesRoom first count config)
    (starts : first.Starts ir id heading.parameterCount) (enough : heading.slots.length ≤ count)
    {store : Operand × IR.Register} (isIn : store ∈ heading.initialStores) :
    config.frame.CanStore ir config.state.stack.size store := by
  obtain ⟨isValue, isSlot⟩ := heading.mem_initialStores isIn
  have inside : store.2 < count := Nat.lt_of_lt_of_le isSlot enough
  refine ⟨?_, _, ?_, makes.slots store.2 inside⟩
  · rcases isValue with isZero | ⟨index, isArgument, isValue⟩
    · exact ⟨0, by rw [isZero]; rfl⟩
    · obtain ⟨value, isArgument⟩ := starts.exists_argument isArgument
      refine ⟨value, ?_⟩
      rw [isValue, Frame.word, makes.keeps.arguments, isArgument]
  · rw [makes.height]
    exact Nat.add_lt_add_left inside _

section

variable {source moduleName : String} {ir : IR.Module} {program : Program} {heading : Heading}
  {actions : List Statement} {id : IR.FunctionId} {state : Lowering} {config : Config}

theorem Program.Begins.exists_site (begins : program.Begins moduleName heading actions id state)
    (compiled : compile source moduleName = .ok ir) (parsed : Program.parse source = .ok program)
    (limits : Limits) (starts : config.Starts ir id heading.parameterCount)
    (laid : config.state.Laid ir) :
    ∃ site : Site, site.source = source ∧ site.limits = limits ∧ site.entered = state ∧
      site.ir = ir ∧ site.actions = actions ∧ site.heading = heading ∧ site.frame.function = id ∧
        config.GetsTo ir limits fun last => ∃ memory, site.Sees memory ∧
          memory.globals = config.state.globals ∧
            site.Stands site.entered ⟨site.frame.function, 0⟩ memory last := by
  have grammatical := Program.grammatical_of_parse parsed
  obtain ⟨slots, opening, enough⟩ := begins.reaches.opening grammatical
  have part := begins.part compiled parsed
  obtain ⟨names, count, isCode⟩ := opening.code
  obtain ⟨others, isWhole⟩ := part.code 0
  have room : names.length ≤ config.frame.registers.size := by
    rw [count, ← opening.registers, starts.size]
    exact part.registers
  have wholeCode : ir.code config.frame.block =
      MiniPascal.room names ++ (fillings heading.initialStores ++ others) := by
    rw [starts.block, ← isWhole, isCode, List.append_assoc]
  obtain ⟨config₁, runs₁, makes⟩ := runs_room limits wholeCode starts.next room
    (Nat.le_refl names.length)
  have isRest : (ir.code config₁.frame.block).drop config₁.frame.next =
      fillings heading.initialStores ++ others := by
    rw [makes.block, makes.next, wholeCode, List.drop_left' (by simp [MiniPascal.room])]
  obtain ⟨more, config₂, runs₂, passes⟩ := passes_fillings limits isRest fun store =>
    makes.canStore starts (count ▸ enough)
  have isSite : config₁.frame.function = id := makes.keeps.function.trans starts.function
  subst isSite
  have opened (slot : Nat) (isSlot : slot < state.builder.ir.registers config₁.frame.function) :
      config₁.frame.registers[slot]? =
        some (some (.pointer (.slot (config₁.frame.base + slot)))) := by
    rw [opening.registers, ← count] at isSlot
    rw [makes.slots slot isSlot, makes.keeps.base, starts.base]
  refine ⟨⟨source, moduleName, program, ir, heading, actions, state, limits, config₁.frame, compiled,
    parsed, begins, makes.keeps.size.trans starts.size, opened⟩, rfl, rfl, rfl, rfl, rfl, rfl, rfl,
    _, config₂, runs₁.trans runs₂, config₂.state.uncounted, ⟨?_, ?_⟩, ?_, ⟨⟨?_, ?_⟩, ?_, ?_, rfl⟩⟩
  · exact (runs₁.trans runs₂).laid laid
  · change config₁.frame.base + state.builder.ir.registers config₁.frame.function ≤
      config₂.state.stack.size
    rw [passes.height, makes.height, makes.keeps.base, starts.base, opening.registers, count]
  · exact passes.globals.trans makes.globals
  · rw [passes.frame]
    exact makes.block.trans starts.block
  · rw [passes.frame, makes.next, isCode]
    simp [MiniPascal.room, fillings]
  · rw [passes.frame]
    exact ⟨rfl, rfl, rfl, rfl, rfl, rfl, fun _ _ => rfl⟩
  · exact Nat.le_refl _

theorem Site.exists_of_opening (source : String) (limits : Limits) (holds : SymbolTable → Bool)
    (isOk : (compile source "example").isOk = true)
    (isAny : (Program.parse source).toOption.any (fun program =>
      (program.opening? "example").any fun state => holds state.symbols) = true) :
    ∃ (site : Site) (first : Config) (before : State), site.source = source ∧
      first.Starts site.ir site.frame.function site.heading.parameterCount ∧
      first.state = State.start site.ir (.withInput []) ∧
      first.GetsTo site.ir limits (site.Stands site.entered ⟨site.frame.function, 0⟩ before) ∧
      site.Sees before ∧ holds site.symbols = true := by
  obtain ⟨ir, compiled⟩ := exists_of_isOk isOk
  obtain ⟨program, parsed, isAny⟩ := exists_of_any source _ isAny
  obtain ⟨state, isOpening, isSo⟩ := (Option.any_eq_true _ _).1 isAny
  obtain ⟨heading, actions, id, begins⟩ := Program.begins_of_opening? compiled parsed isOpening
  obtain ⟨-, -, -, function, isFunction, -⟩ := begins.exists_end compiled parsed
  let first : Config :=
    { frame := Machine.Run.entryFrame function id
        ((List.replicate heading.parameterCount (0 : Int32)).map .int) 0 1 none
      state := State.start ir (.withInput []) }
  have starts : first.Starts ir id heading.parameterCount :=
    ⟨function, _, 1, none, isFunction, List.length_replicate, rfl⟩
  obtain ⟨site, isSource, isLimits, isEntered, isModule, -, isHeading, isId, gets⟩ :=
    begins.exists_site compiled parsed limits starts (State.laid_start ir _)
  obtain ⟨count, last, runs, before, sees, -, stands⟩ := gets
  refine ⟨site, first, before, isSource, ?_, ?_, ⟨count, last, ?_, stands⟩, sees, ?_⟩
  · rwa [isModule, isId, isHeading]
  · rw [isModule]
  · rwa [isModule]
  · rwa [Site.symbols, isEntered]

end

/-! ### The end of a body -/

namespace Site

variable {site : Site} {state : Lowering} {here : BlockId} {pending : List Nat}
  {before between after : State} {value? : Option Int32} {config : Config}

structure Returns (site : Site) (value? : Option Int32) (memory : State) (config : Config) :
    Prop where
  fetched : ∃ operand?, config.frame.fetch site.ir = .ok (.ret operand?) ∧
    Option.Rel (fun operand value => config.frame.word site.ir operand = .ok (.int value)) operand?
      value?
  keeps : site.frame.Keeps site.slots config.frame
  holds : config.state.uncounted = memory

def Results (site : Site) (before : State) (value? : Option Int32) (after : State) : Prop :=
  match site.heading.returns, value? with
  | some _, some value =>
      site.Gives (.ident (resultName site.heading.name) site.heading.position) before value after
  | none, none => before = after
  | _, _ => False

theorem getsTo_implicitReturn (ready : state.Ready here pending) (same : state.symbols = site.symbols)
    (results : site.Results before value? after) :
    Ensures (Lower.implicitReturn site.heading) (fun _ state' =>
      state'.builder.ir.Part here.function site.ir → ∀ ⦃config⦄,
        site.Stands state here before config →
          config.GetsTo site.ir site.limits (site.Returns value? after)) state := by
  have notEnded : (IR.Build.isTerminated state.builder).1 = false :=
    Bool.eq_false_iff.2 ready.notEnded
  unfold Lower.implicitReturn
  rw [ensures_bind, Lower.ensures_build]
  simp only [notEnded, Bool.not_false, if_true]
  unfold Results at results
  split at results
  · rename_i value returns
    simp only [returns, Option.isSome_some, if_true]
    rw [ensures_bind]
    have gives := results ready same
    simp only [Lower.expression] at gives
    refine (ensures_tracks (Lower.yields_nameValue _ _ ready) (Lower.isStraight_nameValue _ _ _)
      gives).mono ?_
    rintro operand state₁ ⟨tracks₁, -, gets₁⟩
    refine ((tracks₁.ready.emits _).and
      (Lower.isStraight_build (IR.Build.isStraight_emit _) state₁)).mono ?_
    rintro _ state₂ ⟨emits₂, straight₂⟩ part config stands
    refine (gets₁ (straight₂.part tracks₁.ready.insertPoint part) stands).mono ?_
    rintro config₁ ⟨reaches₁, reads₁⟩
    exact ⟨⟨_, emits₂.fetch part reaches₁.stands.isAt, .some reads₁.word⟩, reaches₁.stands.keeps,
      reaches₁.stands.holds⟩
  · rename_i returns
    subst results
    simp only [returns, Option.isSome_none, Bool.false_eq_true, if_false]
    refine (ready.emits _).mono fun _ state₁ emits₁ part config stands => .here ?_
    exact ⟨⟨_, emits₁.fetch part stands.isAt, .none⟩, stands.keeps, stands.holds⟩
  · exact results.elim

theorem Does.returns {next : Nat} (areActions : Statement.AreActions none next site.actions)
    (does : site.Does none next (Lower.statements site.actions) before between)
    (results : site.Results between value? after)
    (stands : site.Stands site.entered ⟨site.frame.function, 0⟩ before config) :
    config.GetsTo site.ir site.limits (site.Returns value? after) := by
  obtain ⟨last, isBody, part, -⟩ := site.begins.exists_end site.compiled site.parsed
  have noLoop : site.entered.KnowsExit site.frame.function none next := by simp [Lowering.KnowsExit]
  have gets : Ensures (do
      let _ ← Lower.statements site.actions
      Lower.implicitReturn site.heading) (fun _ state' =>
        state'.builder.ir.Part site.frame.function site.ir →
          config.GetsTo site.ir site.limits (site.Returns value? after)) site.entered := by
    rw [ensures_bind]
    refine ((Lower.runs_statements site.actions areActions site.ready noLoop).and
      (does site.ready rfl noLoop)).mono ?_
    rintro ending state₁ ⟨goes, gets₁⟩
    cases ending with
    | some ending =>
        refine (part_implicitReturn goes).mono fun _ state₂ back part => ?_
        refine (gets₁ (back _ part) stands).bind ?_
        rintro _ ⟨isNone, -⟩
        cases isNone
    | none =>
        obtain ⟨there, leads, ready₁⟩ := goes.continues rfl
        refine ((getsTo_implicitReturn ready₁ goes.moves.symbols results).and
          (part_implicitReturn goes)).mono ?_
        rintro _ state₂ ⟨gets₂, back⟩ part
        refine (gets₁ (back _ part) stands).bind ?_
        rintro config₁ ⟨-, other, isOther, -, stands₁⟩
        obtain rfl := Option.some.inj (isOther.symm.trans ready₁.insertPoint)
        exact gets₂ (leads.same ▸ part) stands₁
  exact gets () last isBody part

end Site

end MiniPascal
