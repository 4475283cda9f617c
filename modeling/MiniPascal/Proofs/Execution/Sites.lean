import MiniPascal.Proofs.Execution.Bodies
import MiniPascal.Proofs.Machine.Pointers
import MiniPascal.Proofs.Simulation.Statements

/-!
# Sites of execution

A site is a call in progress: a body of a compiled program and the frame that it runs in.  What code
does is said of the machine's own state there, without a meaning of the names in the body: whatever
place of the body the code is emitted at, the machine gets from the front of it to the end of it, and
from one state to another.
-/

namespace MiniPascal

open IR (BlockId Operand Instruction)
open Machine (Config Frame Limits Pointer RunError State Word)

/-! ### Runs to somewhere -/

namespace Machine.Config

variable {ir : IR.Module} {limits : Limits} {config : Config} {good better : Config → Prop}

def GetsTo (ir : IR.Module) (limits : Limits) (config : Config) (good : Config → Prop) : Prop :=
  ∃ count last, config.Runs ir limits count last ∧ good last

theorem GetsTo.here (holds : good config) : config.GetsTo ir limits good :=
  ⟨0, config, .refl config, holds⟩

theorem GetsTo.bind (gets : config.GetsTo ir limits good)
    (goesOn : ∀ last, good last → last.GetsTo ir limits better) : config.GetsTo ir limits better := by
  obtain ⟨count, middle, runs, holds⟩ := gets
  obtain ⟨more, last, others, holds⟩ := goesOn middle holds
  exact ⟨count + more, last, runs.trans others, holds⟩

theorem GetsTo.mono (gets : config.GetsTo ir limits good) (h : ∀ last, good last → better last) :
    config.GetsTo ir limits better :=
  gets.bind fun last holds => .here (h last holds)

end Machine.Config

/-! ### Sites -/

/-- A call of a callable in a compiled program, behind the declarations of its body. -/
structure Site where
  source : String
  moduleName : String
  program : Program
  ir : IR.Module
  heading : Heading
  actions : List Statement
  entered : Lowering
  limits : Limits
  frame : Frame
  compiled : compile source moduleName = .ok ir
  parsed : Program.parse source = .ok program
  begins : program.Begins moduleName heading actions frame.function entered
  size : frame.registers.size = ir.registers frame.function
  /-- The first registers point to the variables of the call. -/
  opened : ∀ slot < entered.builder.ir.registers frame.function,
    frame.registers[slot]? = some (some (.pointer (.slot (frame.base + slot))))

namespace Site

def symbols (site : Site) : SymbolTable := site.entered.symbols

def slots (site : Site) : Nat := site.entered.builder.ir.registers site.frame.function

structure Sees (site : Site) (memory : State) : Prop where
  globals : memory.Laid site.ir
  stack : site.frame.base + site.slots ≤ memory.stack.size

/-- The machine stands at the end of the code so far, with the given state but for what is counted. -/
structure Stands (site : Site) (state : Lowering) (here : BlockId) (memory : State)
    (config : Config) : Prop where
  isAt : state.At here config.frame
  keeps : site.frame.Keeps site.slots config.frame
  room : site.slots ≤ state.builder.ir.registers here.function
  holds : config.state.uncounted = memory

structure Enters (site : Site) (here : BlockId) (memory : State) (config : Config) : Prop where
  block : config.frame.block = here
  next : config.frame.next = 0
  keeps : site.frame.Keeps site.slots config.frame
  holds : config.state.uncounted = memory

structure Reaches (site : Site) (state : Lowering) (here : BlockId) (config : Config)
    (state' : Lowering) (memory : State) (last : Config) : Prop where
  stands : site.Stands state' here memory last
  keeps : config.frame.Keeps (state.builder.ir.registers here.function) last.frame

abbrev Reads (site : Site) (state : Lowering) (here : BlockId) (operand : Operand) (word : Word)
    (frame : Frame) : Prop :=
  frame.Reads site.ir (state.builder.ir.registers here.function) operand word

/-- The code of an action in straight line gets from one state to another, with a good result. -/
def Carries {α : Type} (site : Site) (good : Lowering → BlockId → α → Frame → Prop)
    (action : Lower α) (before after : State) : Prop :=
  ∀ ⦃state : Lowering⦄ ⦃here : BlockId⦄ ⦃pending : List Nat⦄, state.Ready here pending →
    state.symbols = site.symbols →
      Ensures action (fun result state' => state'.builder.ir.Part here.function site.ir →
        ∀ ⦃config⦄, site.Stands state here before config →
          config.GetsTo site.ir site.limits fun last =>
            site.Reaches state here config state' after last ∧ good state' here result last.frame) state

def Gives (site : Site) (expr : Expr) (before : State) (value : Int32) (after : State) : Prop :=
  site.Carries (fun state here operand => site.Reads state here operand (.int value))
    (Lower.expression .running expr) before after

def Does (site : Site) (loop : Option LoopId) (next : Nat) (action : Lower (Option Ending))
    (before after : State) : Prop :=
  ∀ ⦃state : Lowering⦄ ⦃here : BlockId⦄ ⦃pending : List Nat⦄, state.Ready here pending →
    state.symbols = site.symbols → state.KnowsExit here.function loop next →
      Ensures action (fun ending state' => state'.builder.ir.Part here.function site.ir →
        ∀ ⦃config⦄, site.Stands state here before config →
          config.GetsTo site.ir site.limits fun last =>
            ending = none ∧ ∃ there, state'.builder.insertPoint = some there ∧
              there.function = here.function ∧ site.Stands state' there after last) state

def Fails {α : Type} (site : Site) (action : Lower α) (before : State) (error : RunError) : Prop :=
  ∀ ⦃state : Lowering⦄ ⦃here : BlockId⦄ ⦃pending : List Nat⦄, state.Ready here pending →
    state.symbols = site.symbols →
      Ensures action (fun _ state' => state'.builder.ir.Part here.function site.ir →
        ∀ ⦃config⦄, site.Stands state here before config →
          config.GetsTo site.ir site.limits fun last =>
            ∃ failed, last.Throws site.ir site.limits error failed) state

variable {site : Site} {state state' : Lowering} {here : BlockId} {pending : List Nat}
  {memory before after : State} {config last : Config}

/-! ### The body -/

theorem grammatical (site : Site) : site.program.Grammatical :=
  Program.grammatical_of_parse site.parsed

theorem ready (site : Site) : site.entered.Ready ⟨site.frame.function, 0⟩ [] :=
  (site.begins.reaches.ready_and_houses site.grammatical).1

theorem houses (site : Site) : site.entered.Houses :=
  (site.begins.reaches.ready_and_houses site.grammatical).2

theorem part (site : Site) : site.entered.builder.ir.Part site.frame.function site.ir :=
  site.begins.part site.compiled site.parsed

theorem function_eq (ready : state.Ready here pending) (same : state.symbols = site.symbols) :
    here.function = site.frame.function := by
  obtain ⟨name, isEnclosing⟩ := ready.enclosing
  obtain ⟨name', isEnclosing'⟩ := site.ready.enclosing
  rw [same, symbols, isEnclosing', Option.some.injEq] at isEnclosing
  exact (congrArg Enclosing.function isEnclosing).symm

/-! ### Standing somewhere -/

theorem Stands.size (stands : site.Stands state here memory config) :
    config.frame.registers.size = site.ir.registers site.frame.function :=
  stands.keeps.size.trans site.size

theorem Stands.counted (stands : site.Stands state here memory config) :
    config.state.counted.uncounted = memory := stands.holds

theorem Reaches.refl (stands : site.Stands state here memory config) :
    site.Reaches state here config state memory config := ⟨stands, .refl _ _⟩

theorem Reaches.trans {state₁ : Lowering} {middle : Config}
    (h₁ : site.Reaches state here config state₁ before middle)
    (h₂ : site.Reaches state₁ here middle state' after last)
    (le : state.builder.ir.registers here.function ≤ state₁.builder.ir.registers here.function) :
    site.Reaches state here config state' after last :=
  ⟨h₂.stands, h₁.keeps.trans h₂.keeps le⟩

theorem room {instruction : Instruction} (emits : state.Emits here instruction 1 state')
    (isHere : here.function = site.frame.function)
    (part : state'.builder.ir.Part here.function site.ir)
    (stands : site.Stands state here memory config) :
    state.builder.ir.registers here.function < config.frame.registers.size := by
  rw [stands.size, ← isHere]
  have enough := part.registers
  rw [emits.registers] at enough
  omega

theorem getsTo_define {instruction : Instruction} (emits : state.Emits here instruction 1 state')
    (isHere : here.function = site.frame.function)
    (part : state'.builder.ir.Part here.function site.ir)
    (stands : site.Stands state here before config) {word : Word} {left : State}
    (executed : Machine.Run.execute site.ir site.limits config.frame instruction
      config.state.counted = .ok (.next
        (config.frame.define (state.builder.ir.registers here.function) word).advance) left)
    (holds : left.uncounted = after) :
    config.GetsTo site.ir site.limits fun last =>
      site.Reaches state here config state' after last ∧
        site.Reads state' here (.register (state.builder.ir.registers here.function)) word
          last.frame := by
  have keeps := config.frame.keeps_define (state.builder.ir.registers here.function) word
  have bound := room emits isHere part stands
  refine ⟨1, _, .one (emits.fetch part stands.isAt) executed, ⟨⟨?_, ?_, ?_, holds⟩, keeps⟩, ?_, ?_⟩
  · exact emits.isAt stands.isAt rfl rfl
  · exact stands.keeps.trans keeps stands.room
  · rw [emits.registers]
    exact Nat.le_succ_of_le stands.room
  · simp [Frame.word, Frame.define, Frame.advance, bound]
  · simp [Operand.Below, emits.registers]

theorem getsTo_advance {instruction : Instruction} (emits : state.Emits here instruction 0 state')
    (part : state'.builder.ir.Part here.function site.ir)
    (stands : site.Stands state here before config) {left : State}
    (executed : Machine.Run.execute site.ir site.limits config.frame instruction
      config.state.counted = .ok (.next config.frame.advance) left)
    (holds : left.uncounted = after) :
    config.GetsTo site.ir site.limits fun last => site.Reaches state here config state' after last := by
  have keeps := config.frame.keeps_advance (state.builder.ir.registers here.function)
  refine ⟨1, _, .one (emits.fetch part stands.isAt) executed, ⟨?_, ?_, ?_, holds⟩, keeps⟩
  · exact emits.isAt stands.isAt rfl rfl
  · exact stands.keeps.trans keeps stands.room
  · rw [emits.registers]
    exact stands.room

/-! ### Jumps -/

theorem enters_jump (stands : site.Stands state here memory config) (target : BlockId) :
    site.Enters target memory ⟨config.frame.jump target, config.state.counted⟩ :=
  ⟨rfl, rfl, ⟨stands.keeps.function, stands.keeps.arguments, stands.keeps.base, stands.keeps.depth,
    stands.keeps.result, stands.keeps.size, stands.keeps.registers⟩, stands.holds⟩

theorem stands_of_enters (enters : site.Enters here memory config)
    (noCode : state.builder.ir.code here = [])
    (room : site.slots ≤ state.builder.ir.registers here.function) :
    site.Stands state here memory config :=
  ⟨⟨enters.block, by rw [enters.next, noCode]; rfl⟩, enters.keeps, room, enters.holds⟩

variable (site) in
theorem getsTo_jump (ready : state.Ready here pending) (target : BlockId) :
    Ensures (Lower.build (IR.Build.jump target)) (fun _ state' =>
      state'.builder.ir.Part here.function site.ir → ∀ ⦃memory config⦄,
        site.Stands state here memory config →
          config.GetsTo site.ir site.limits (site.Enters target memory)) state := by
  refine (ready.emits _).mono fun _ state' emits part memory config stands => ?_
  exact ⟨1, _, .one (emits.fetch part stands.isAt) (Machine.Run.execute_jump _ _ target),
    enters_jump stands target⟩

variable (site) in
theorem getsTo_branch (ready : state.Ready here pending) (condition : Operand)
    (holds fails : BlockId) :
    Ensures (Lower.build (IR.Build.branch condition holds fails)) (fun _ state' =>
      state'.builder.ir.Part here.function site.ir → ∀ ⦃memory config isTrue⦄,
        site.Stands state here memory config →
          site.Reads state here condition (.int (truth isTrue)) config.frame →
            config.GetsTo site.ir site.limits
              (site.Enters (if isTrue then holds else fails) memory)) state := by
  refine (ready.emits _).mono fun _ state' emits part memory config isTrue stands reads => ?_
  have executed := Machine.Run.execute_branch site.limits config.state.counted reads.int holds fails
  refine ⟨1, _, .one (emits.fetch part stands.isAt) executed, ?_⟩
  cases isTrue with
  | true => exact enters_jump stands holds
  | false => exact enters_jump stands fails

/-! ### Operations -/

variable (site) in
theorem getsTo_arith (ready : state.Ready here pending) (same : state.symbols = site.symbols)
    (op : IR.ArithOp) (left right : Operand) :
    Ensures (Lower.build (IR.Build.arith op left right)) (fun operand state' =>
      state'.builder.ir.Part here.function site.ir → ∀ ⦃memory config x y value⦄,
        site.Stands state here memory config → site.Reads state here left (.int x) config.frame →
          site.Reads state here right (.int y) config.frame → op.evaluate? x y = some value →
            config.GetsTo site.ir site.limits fun last =>
              site.Reaches state here config state' memory last ∧
                site.Reads state' here operand (.int value) last.frame) state := by
  have isHere := function_eq ready same
  unfold IR.Build.arith
  cases folded : op.fold? left right with
  | some operand =>
      refine Lower.ensures_build.2 fun part memory config x y value stands readsLeft readsRight
        isValue => ?_
      obtain ⟨result, isResult, reads⟩ := Scene.reads_foldArith folded readsLeft readsRight
      obtain rfl := Option.some.inj (isResult.symm.trans isValue)
      exact .here ⟨.refl stands, reads⟩
  | none =>
      refine (ready.emitsValue _).mono ?_
      rintro _ state' ⟨rfl, emits⟩ part memory config x y value stands readsLeft readsRight isValue
      have executed := Machine.Run.execute_arith site.limits config.state.counted op readsLeft.int
        readsRight.int (room emits isHere part stands)
      rw [isValue] at executed
      exact getsTo_define emits isHere part stands executed stands.counted

variable (site) in
theorem getsTo_compare (ready : state.Ready here pending) (same : state.symbols = site.symbols)
    (predicate : IR.Predicate) (left right : Operand) :
    Ensures (Lower.build (IR.Build.compare predicate left right)) (fun operand state' =>
      state'.builder.ir.Part here.function site.ir → ∀ ⦃memory config x y⦄,
        site.Stands state here memory config → site.Reads state here left (.int x) config.frame →
          site.Reads state here right (.int y) config.frame →
            config.GetsTo site.ir site.limits fun last =>
              site.Reaches state here config state' memory last ∧
                site.Reads state' here operand (.int (truth (predicate.evaluate x y))) last.frame)
      state := by
  have isHere := function_eq ready same
  unfold IR.Build.compare
  cases folded : predicate.fold? left right with
  | some operand =>
      refine Lower.ensures_build.2 fun part memory config x y stands readsLeft readsRight => ?_
      exact .here ⟨.refl stands, Scene.reads_foldCompare folded readsLeft readsRight⟩
  | none =>
      refine (ready.emitsValue _).mono ?_
      rintro _ state' ⟨rfl, emits⟩ part memory config x y stands readsLeft readsRight
      exact getsTo_define emits isHere part stands
        (Machine.Run.execute_compare site.limits config.state.counted predicate readsLeft.int
          readsRight.int (room emits isHere part stands)) stands.counted

variable (site) in
theorem getsTo_element (ready : state.Ready here pending) (same : state.symbols = site.symbols)
    (base index : Operand) :
    Ensures (Lower.build (IR.Build.element base index)) (fun operand state' =>
      state'.builder.ir.Part here.function site.ir → ∀ ⦃memory config id offset⦄,
        site.Stands state here memory config →
          site.Reads state here base (.pointer (.global id 0)) config.frame →
            site.Reads state here index (.int offset) config.frame →
              config.GetsTo site.ir site.limits fun last =>
                site.Reaches state here config state' memory last ∧
                  site.Reads state' here operand (.pointer (.global id offset.toInt)) last.frame)
      state := by
  have isHere := function_eq ready same
  refine (ready.emitsValue _).mono ?_
  rintro _ state' ⟨rfl, emits⟩ part memory config id offset stands readsBase readsIndex
  have executed := Machine.Run.execute_element site.limits config.state.counted readsBase.pointer
    readsIndex.int (room emits isHere part stands)
  rw [Int.zero_add] at executed
  exact getsTo_define emits isHere part stands executed stands.counted

/-! ### Loads and stores -/

theorem getsTo_loaded {operand : Operand} {pointer : Pointer} {value : Int32}
    (emits : state.Emits here (.load (state.builder.ir.registers here.function) operand) 1 state')
    (isHere : here.function = site.frame.function)
    (part : state'.builder.ir.Part here.function site.ir)
    (stands : site.Stands state here memory config)
    (reads : site.Reads state here operand (.pointer pointer) config.frame)
    (isValue : memory.value? pointer = some value) :
    config.GetsTo site.ir site.limits fun last =>
      site.Reaches state here config state' memory last ∧
        site.Reads state' here (.register (state.builder.ir.registers here.function)) (.int value)
          last.frame := by
  have isThere : config.state.counted.value? pointer = some value := by
    rw [← State.value?_uncounted, stands.counted, isValue]
  have executed := Machine.Run.execute_load site.limits config.state.counted reads.pointer
    (room emits isHere part stands)
  rw [Machine.Run.load_of_value isThere] at executed
  exact getsTo_define emits isHere part stands executed stands.counted

theorem getsTo_stored {source target : Operand} {pointer : Pointer} {value old : Int32}
    (emits : state.Emits here (.store source target) 0 state')
    (part : state'.builder.ir.Part here.function site.ir)
    (stands : site.Stands state here memory config)
    (readsValue : site.Reads state here source (.int value) config.frame)
    (reads : site.Reads state here target (.pointer pointer) config.frame)
    (isValue : memory.value? pointer = some old) (writable : pointer.Writable site.ir) :
    config.GetsTo site.ir site.limits fun last =>
      site.Reaches state here config state' (memory.write pointer value) last := by
  have isThere : config.state.counted.value? pointer = some old := by
    rw [← State.value?_uncounted, stands.counted, isValue]
  have executed := Machine.Run.execute_store site.limits config.state.counted readsValue.int
    reads.pointer
  rw [Machine.Run.store_of_value isThere writable] at executed
  exact getsTo_advance emits part stands executed (by rw [State.uncounted_write, stands.counted])

end Site

end MiniPascal
