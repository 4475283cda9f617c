import MiniPascal.Proofs.Execution.Calls
import MiniPascal.Proofs.Simulation.Programs

/-!
# Counting loops

A `for` loop runs its body with each value of its range in turn.  The counter is stepped behind the
last round too, and wraps around there if the limit is the last integer there is in its direction; the
loop does not end then.
-/

namespace MiniPascal

open Machine (Config Pointer State)

/-! ### Ranges -/

namespace Direction

variable {direction : Direction} {first last : Int32}

def step : Direction → Int
  | upward => 1
  | downward => -1

def rounds (direction : Direction) (first last : Int32) : Nat :=
  (direction.step * (last.toInt - first.toInt) + 1).toNat

def values (direction : Direction) (first last : Int32) : List Int32 :=
  (List.range (direction.rounds first last)).map fun (round : Nat) =>
    Int32.ofInt (first.toInt + direction.step * round)

def behind (direction : Direction) (first last : Int32) : Int32 :=
  Int32.ofInt (first.toInt + direction.step * direction.rounds first last)

/-- A limit that there are integers behind. -/
def CanPass : Direction → Int32 → Prop
  | upward, last => last ≠ Int32.maxValue
  | downward, last => last ≠ Int32.minValue

instance (direction : Direction) (last : Int32) : Decidable (direction.CanPass last) := by
  cases direction <;> exact inferInstanceAs (Decidable (_ ≠ _))

example : upward.values 1 3 = [1, 2, 3] ∧ downward.values 1 3 = [] := by decide

/-- The values are consecutive integers: none of them wraps around. -/
theorem map_toInt_values (direction : Direction) (first last : Int32) :
    (direction.values first last).map (·.toInt) =
      (List.range (direction.rounds first last)).map fun (round : Nat) =>
        first.toInt + direction.step * round := by
  rw [values, List.map_map]
  refine List.map_congr_left fun round isRound => ?_
  have low := first.le_toInt
  have high := first.toInt_lt
  have low' := last.le_toInt
  have high' := last.toInt_lt
  rw [List.mem_range, rounds] at isRound
  refine Int32.toInt_ofInt_of_le ?_ ?_ <;> cases direction <;> simp only [step] at * <;> omega

theorem within_iff : direction.within first last ↔ 0 ≤ direction.step * (last.toInt - first.toInt) := by
  cases direction with
  | upward =>
      rw [within, decide_eq_true_iff, Int32.le_iff_toInt_le, step]
      omega
  | downward =>
      rw [within, decide_eq_true_iff, ge_iff_le, Int32.le_iff_toInt_le, step]
      omega

/-- A counter that has not passed its limit does not wrap around. -/
theorem toInt_move (canPass : direction.CanPass last) (within : direction.within first last) :
    (direction.move first).toInt = first.toInt + direction.step := by
  rw [within_iff] at within
  have low := last.le_toInt
  have high := last.toInt_lt
  have low' := first.le_toInt
  have high' := first.toInt_lt
  cases direction with
  | upward =>
      have notLast : last.toInt ≠ 2 ^ 31 - 1 := fun same => canPass (Int32.toInt.inj same)
      rw [move, step, Int32.toInt_add]
      simp only [step] at within
      exact Int.bmod_eq_of_le (by simp; omega) (by simp; omega)
  | downward =>
      have notLast : last.toInt ≠ -2 ^ 31 := fun same => canPass (Int32.toInt.inj same)
      rw [move, step, Int32.toInt_sub]
      simp only [step] at within
      exact Int.bmod_eq_of_le (by simp; omega) (by simp; omega)

theorem rounds_move (canPass : direction.CanPass last) (within : direction.within first last) :
    direction.rounds first last = direction.rounds (direction.move first) last + 1 := by
  have moved := toInt_move canPass within
  rw [within_iff] at within
  rw [rounds, rounds, moved]
  cases direction <;> simp only [step] at * <;> omega

theorem rounds_of_not_within (passed : ¬ direction.within first last) :
    direction.rounds first last = 0 := by
  rw [within_iff] at passed
  rw [rounds]
  omega

theorem values_of_not_within (passed : ¬ direction.within first last) :
    direction.values first last = [] := by
  rw [values, rounds_of_not_within passed]
  rfl

theorem behind_of_not_within (passed : ¬ direction.within first last) :
    direction.behind first last = first := by
  rw [behind, rounds_of_not_within passed]
  simp

theorem step_succ (direction : Direction) (first : Int) (round : Nat) :
    first + direction.step * (round + 1 : Nat) = first + direction.step + direction.step * round := by
  cases direction <;> simp only [step] <;> omega

theorem values_move (canPass : direction.CanPass last) (within : direction.within first last) :
    direction.values first last = first :: direction.values (direction.move first) last := by
  rw [values, values, rounds_move canPass within, toInt_move canPass within,
    List.range_succ_eq_map, List.map_cons, List.map_map]
  congr 1
  · simp
  · refine List.map_congr_left fun round _ => ?_
    rw [Function.comp_apply, step_succ]

theorem behind_move (canPass : direction.CanPass last) (within : direction.within first last) :
    direction.behind (direction.move first) last = direction.behind first last := by
  rw [behind, behind, rounds_move canPass within, toInt_move canPass within, step_succ]

end Direction

/-! ### Loops -/

namespace Site

variable {site : Site} {loop : Option LoopId} {next : Nat} {name : String} {position : Position}
  {direction : Direction} {limit : Expr} {body : Statement} {counter : Pointer}
  {first last : Int32} {before after : State}

/-- Rounds of a loop, with the counter at each of the values in turn, and at the value behind them in
the end.  Each round evaluates the limit and runs the body, and both leave the counter as it is. -/
inductive Counts (site : Site) (limit : Expr) (last : Int32) (next : Nat) (body : Statement)
    (counter : Pointer) (behind : Int32) : List Int32 → State → State → Prop
  | done {before after : State} (gives : site.Gives limit (before.write counter behind) last after)
      (kept : after.value? counter = some behind) :
      Counts site limit last next body counter behind [] before after
  | round {value : Int32} {values : List Int32} {before tested between after : State}
      (gives : site.Gives limit (before.write counter value) last tested)
      (isSet : tested.value? counter = some value)
      (does : site.Does (some ⟨next⟩) (next + 1) (Lower.statement body) tested between)
      (kept : between.value? counter = some value)
      (others : Counts site limit last next body counter behind values between after) :
      Counts site limit last next body counter behind (value :: values) before after

/-- Rounds over the range of a loop are the turns that the loop makes. -/
theorem turns_of_counts (isVariable : site.IsVariable name counter)
    (isBody : body.IsAction (some ⟨next⟩) (next + 1)) (canPass : direction.CanPass last)
    (counts : site.Counts limit last next body counter (direction.behind first last)
      (direction.values first last) before after) :
    site.Turns (Lower.withinLimit (.ident name position) direction limit) next (do
      let ending ← Lower.statement body
      if ending.isNone then Lower.advanceCounter (.ident name position) direction
      return ending) (before.write counter first) after := by
  generalize isValues : direction.values first last = values at counts
  generalize isBehind : direction.behind first last = behind at counts
  induction counts generalizing first with
  | done gives kept =>
      have passed : ¬ direction.within first last := fun within => by
        rw [Direction.values_move canPass within] at isValues
        cases isValues
      obtain rfl := (Direction.behind_of_not_within passed).symm.trans isBehind
      have tests := tests_withinLimit direction gives (gives_ident isVariable kept position)
      rw [Bool.eq_false_iff.2 passed] at tests
      exact .stop tests
  | @round value values before tested between after gives isSet does kept _ ih =>
      have within : direction.within first last := by
        by_contra passed
        rw [Direction.values_of_not_within passed] at isValues
        cases isValues
      rw [Direction.values_move canPass within, List.cons.injEq] at isValues
      obtain ⟨rfl, isValues⟩ := isValues
      have tests := tests_withinLimit direction gives (gives_ident isVariable isSet position)
      rw [within] at tests
      have advances := carries_advance direction (points_ident isVariable position between)
        (gives_ident isVariable kept position) kept isVariable.writable
      exact .turn tests (does_advance (Lower.runs_statement body isBody) does advances)
        (ih isValues ((Direction.behind_move canPass within).trans isBehind))

/-- A `for` loop over an integer variable runs its body once with each value from the first to the
last, in order, and goes on behind the loop. -/
theorem does_for {id : LoopId} {initial : Assignment} {entry : Entry}
    (isAction : (Statement.forLoop id initial direction limit body position).IsAction loop next)
    (isTarget : initial.target.target? = some name) (isEntry : site.symbols.get? name = some entry)
    (isInteger : entry.shape = .integer) (notConstant : entry.constant = none) :
    ∃ counter, site.IsVariable name counter ∧
      ∀ ⦃first last : Int32⦄ ⦃start before after : State⦄, direction.CanPass last →
        site.Gives initial.value start first before → site.Sees before →
          site.Counts limit last next body counter (direction.behind first last)
            (direction.values first last) before after →
            site.Does loop next
              (Lower.statement (.forLoop id initial direction limit body position)) start after := by
  obtain ⟨rfl, ⟨other, at_, isIdent, -⟩, -, -, isBody⟩ := isAction
  obtain rfl : other = name := by simpa [isIdent, Expr.target?] using isTarget
  obtain ⟨counter, isVariable⟩ := exists_stores isEntry (by simp [isInteger]) notConstant
  rw [isInteger] at isVariable
  refine ⟨counter, isVariable, fun first last start before after canPass gives sees counts => ?_⟩
  obtain ⟨old, isThere⟩ := isVariable.exists_value sees
  have points := points_ident isVariable at_ start
  rw [← isIdent] at points
  refine does_forLoop isBody (carries_assign points gives isThere isVariable.writable) ?_
  rw [isIdent]
  exact turns_of_counts isVariable isBody canPass counts

/-- The theorem at a loop from one to three over a variable of a procedure that is called. -/
theorem does_for_local :
    ∃ (site : Site) (first : Config) (before after : State) (counter last : Pointer),
      site.source =
        "procedure p; var v, s: integer; begin for v := 1 to 3 do begin s := v end end; begin end." ∧
      first.Starts site.ir site.frame.function site.heading.parameterCount ∧
      first.state = State.start site.ir (.withInput []) ∧
      first.GetsTo site.ir .standard (site.Stands site.entered ⟨site.frame.function, 0⟩ before) ∧
      site.IsVariable "v" counter ∧ site.IsVariable "s" last ∧
      site.Does none 0 (Lower.statement (.forLoop ⟨0⟩
        ⟨.ident "v" .nowhere, .number 1 .nowhere, .nowhere⟩ .upward (.number 3 .nowhere)
        (.block [.assign ⟨.ident "s" .nowhere, .ident "v" .nowhere, .nowhere⟩]) .nowhere))
        before after ∧
      after.value? counter = some 4 ∧ after.value? last = some 3 := by
  obtain ⟨site, first, before, isSource, starts, isStart, gets, sees, areSlots⟩ := exists_of_opening
    "procedure p; var v, s: integer; begin for v := 1 to 3 do begin s := v end end; begin end."
    .standard (fun symbols => (symbols.get? "v").any (fun entry => entry.IsSlot 0) &&
      (symbols.get? "s").any fun entry => entry.IsSlot 1)
    (by decide +kernel) (by decide +kernel)
  simp only [Bool.and_eq_true, Option.any_eq_true, decide_eq_true_eq] at areSlots
  obtain ⟨⟨entry, isEntry, isSlot⟩, other, isOther, isNext⟩ := areSlots
  have isCounter := isVariable_of_isSlot isEntry isSlot
  have isLast := isVariable_of_isSlot isOther isNext
  have apart : Pointer.slot (site.frame.base + 0) ≠ .slot (site.frame.base + 1) := by simp
  generalize Pointer.slot (site.frame.base + 0) = counter at isCounter apart
  generalize Pointer.slot (site.frame.base + 1) = last at isLast apart
  have areIdentifiers : IsIdentifier "v" ∧ IsIdentifier "s" :=
    ⟨⟨⟨by decide, 'v', [], rfl, by decide, by simp⟩, by decide⟩,
      ⟨⟨by decide, 's', [], rfl, by decide, by simp⟩, by decide⟩⟩
  have areActions : Statement.AreActions (some ⟨0⟩) 1
      [.assign ⟨.ident "s" .nowhere, .ident "v" .nowhere, .nowhere⟩] :=
    ⟨⟨rfl, areIdentifiers.2, areIdentifiers.1⟩, trivial⟩
  have isAction : (Statement.forLoop ⟨0⟩ ⟨.ident "v" .nowhere, .number 1 .nowhere, .nowhere⟩ .upward
      (.number 3 .nowhere) (.block [.assign ⟨.ident "s" .nowhere, .ident "v" .nowhere, .nowhere⟩])
      .nowhere).IsAction none 0 :=
    ⟨rfl, ⟨"v", .nowhere, rfl, areIdentifiers.1⟩, trivial, trivial, areActions⟩
  obtain ⟨other, isVariable, does⟩ := does_for isAction rfl isEntry isSlot.1 isSlot.2.1
  obtain rfl := isVariable.unique isCounter
  -- a step of the counter leaves the other variable as it is, and a round copies the counter to it
  have steps {memory : State} {v s : Int32}
      (values : memory.value? counter = some v ∧ memory.value? last = some s) (value : Int32) :
      (memory.write counter value).value? counter = some value ∧
        (memory.write counter value).value? last = some s :=
    ⟨State.value?_write_self values.1, (State.value?_write_of_ne values.1 apart.symm).trans values.2⟩
  have copies {memory : State} {v s : Int32}
      (values : memory.value? counter = some v ∧ memory.value? last = some s) :
      (memory.write last v).value? counter = some v ∧ (memory.write last v).value? last = some v :=
    ⟨(State.value?_write_of_ne values.2 apart).trans values.1, State.value?_write_self values.2⟩
  have round {memory : State} {v s : Int32}
      (values : memory.value? counter = some v ∧ memory.value? last = some s) :
      site.Does (some ⟨0⟩) 1
        (Lower.statement (.block [.assign ⟨.ident "s" .nowhere, .ident "v" .nowhere, .nowhere⟩]))
        memory (memory.write last v) := by
    rw [Lower.statement]
    refine does_cons areActions ?_ (does_none site _ _ _)
    rw [Lower.statement]
    exact does_straight (carries_assign (points_ident isLast .nowhere memory)
      (gives_ident isVariable values.1 .nowhere) values.2 isLast.writable)
      fun state here pending ready => Lower.ready_assign ready _
  have limit (memory : State) : site.Gives (.number 3 .nowhere) memory 3 memory :=
    gives_number 3 .nowhere memory
  obtain ⟨v, isThere⟩ := isVariable.exists_value sees
  obtain ⟨s, isThere'⟩ := isLast.exists_value sees
  have one := steps ⟨isThere, isThere'⟩ 1
  have two := steps (copies one) 2
  have three := steps (copies two) 3
  have four := steps (copies three) 4
  have counts : site.Counts (.number 3 .nowhere) 3 0
      (.block [.assign ⟨.ident "s" .nowhere, .ident "v" .nowhere, .nowhere⟩]) counter
      (Direction.upward.behind 1 3) (Direction.upward.values 1 3) before _ :=
    .round (limit _) one.1 (round one) (copies one).1 <|
      .round (limit _) two.1 (round two) (copies two).1 <|
        .round (limit _) three.1 (round three) (copies three).1 <| .done (limit _) four.1
  exact ⟨site, first, before, _, counter, last, isSource, starts, isStart, gets, isVariable, isLast,
    does (by decide) (gives_number 1 .nowhere _) sees counts, four⟩

end Site

/-- The last integer there is does not end a loop: the counter wraps around behind it, and the body
runs again with a value outside of the range. -/
theorem compile_for_wraps :
    Direction.upward.values 2147483647 2147483647 = [2147483647] ∧ ∃ ir,
      compile "var v: integer; begin for v := 2147483647 to 2147483647 do writeln(v) end." "example" =
        .ok ir ∧
      (ir.run ⟨20, 1000⟩ []).1 = .error (.failed (.stepLimit 20)) ∧
      (ir.run ⟨20, 1000⟩ []).2.console.output = "2147483647\n-2147483648\n" := by
  have wraps : (compile "var v: integer; begin for v := 2147483647 to 2147483647 do writeln(v) end."
      "example").toOption.any (fun ir => (ir.run ⟨20, 1000⟩ []).1 = .error (.failed (.stepLimit 20)) ∧
        (ir.run ⟨20, 1000⟩ []).2.console.output = "2147483647\n-2147483648\n") = true := by
    decide +kernel
  cases compiled : compile
      "var v: integer; begin for v := 2147483647 to 2147483647 do writeln(v) end." "example" with
  | error error => simp [compiled, Except.toOption] at wraps
  | ok ir =>
      rw [compiled] at wraps
      exact ⟨by decide, ir, rfl, of_decide_eq_true wraps⟩

end MiniPascal
