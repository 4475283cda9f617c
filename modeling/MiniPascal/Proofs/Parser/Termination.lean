import Mathlib.Control.Monad.Basic
import MiniPascal.Proofs.Lexical.Drawing
import MiniPascal.Proofs.Parser.PassingRules

/-!
# Parsing ends

Every round of a loop passes a token, and a rule that comes back to itself does so only behind a token
that it has passed.  A parser has only so many tokens ahead, whatever its input is and whatever became of
the calls before.  So each call comes to a program or to a fault of the text, and its fuel, of which
every round and every level takes one, makes no difference to the outcome.
-/

namespace MiniPascal

namespace Parse

variable {α β γ : Type} {start s s' : Parser} {count fuel : Nat}

def MovesOn (rule : Parse α) (s : Parser) : Prop := GetsPast s (fun _ => 1) rule s

/-- A round of a loop passes a token, unless it is the last one.  That one may pass none, but leaves all
behind that was behind before. -/
def RoundMovesOn (item : Parse (Option α)) (s : Parser) : Prop := GetsPast s (behind 0) item s

/-- A rule calls the rules inside of it only behind a token that it has passed: what they do elsewhere
makes no difference to it. -/
def CallsBehindToken (rule : (β → Parse α) → Parse γ) (s : Parser) : Prop :=
  ∀ inner inner' : β → Parse α,
    (∀ b s', s.Passes 1 s' → MovesOn (inner b) s' ∧ inner b s' = inner' b s') →
      rule inner s = rule inner' s

structure LoopsMoveOn (fuel : Nat) (s : Parser) : Prop where
  header : GetsPast s List.length programHeader s
  declarations : RoundMovesOn (topLevel? (fuel + 1)) s
  storage : RoundMovesOn (storageBlock? (fuel + 1)) s
  varGroups : RoundMovesOn (nextVarGroup? (fuel + 1)) s
  names : RoundMovesOn nextName? s
  constants : RoundMovesOn (nextConstant? (fuel + 1)) s
  firstParameters : MovesOn (parameterGroup (fuel + 1)) s
  parameters : RoundMovesOn (nextParameterGroup? (fuel + 1)) s
  actions : RoundMovesOn (statement? (fuel + 1) none) s
  block : ∀ loop, RoundMovesOn (nextStatement? (required (statement? (fuel + 1) loop))) s
  firstArgument : ∀ callee, MovesOn (argument (nested (fuel + 1)) callee) s
  arguments : ∀ callee, RoundMovesOn (nextArgument? (argument (nested (fuel + 1)) callee)) s
  sums : ∀ grammar,
    RoundMovesOn (operation? BinaryOp.ofAdditive? (term (fuel + 1) (nested fuel) grammar)) s
  terms : ∀ grammar,
    RoundMovesOn (operation? BinaryOp.ofMultiplicative? (factor (fuel + 1) (nested fuel) grammar)) s
  disjunctions :
    RoundMovesOn (operation? BinaryOp.ofDisjunction? (conjunction (fuel + 1) (nested fuel))) s
  conjunctions : RoundMovesOn
    (operation? BinaryOp.ofConjunction? (negation (fuel + 1) (nested fuel) (fuel + 1))) s

structure RulesMoveOn (fuel : Nat) (s : Parser) : Prop where
  expression : ∀ grammar, MovesOn (nested (fuel + 1) grammar) s
  negation : MovesOn (negation (fuel + 1) (nested fuel) (fuel + 1)) s
  statement : ∀ loop, MovesOn (required (statement? (fuel + 1) loop)) s
  callable : MovesOn (callable (fuel + 1)) s
  body : ∀ heading, MovesOn (callableBody (fuel + 1) heading) s
  dataType : MovesOn (dataType (fuel + 1)) s

/-- All rules of the grammar that contain themselves, each with what it contains left open. -/
structure RecursionMovesOn (fuel : Nat) (s : Parser) : Prop where
  arithmetic : CallsBehindToken (fun nested => sum (fuel + 1) nested .arithmetic) s
  condition : CallsBehindToken (fun nested => disjunction (fuel + 1) nested) s
  negation : CallsBehindToken (negationOf (fuel + 1) (nested fuel)) s
  statement : ∀ loop, CallsBehindToken (fun inner => statementWith (fuel + 1) inner loop) s
  callable : CallsBehindToken (callableOf (fuel + 1)) s
  dataType : CallsBehindToken (dataTypeOf (fuel + 1)) s

/-! ### Rounds and calls -/

theorem GetsPast.behind {reach : α → Nat} {rule : Parse α} (past : GetsPast s reach rule s)
    (passes : start.Passes count s) : GetsPast start (fun a => count + reach a) rule s := by
  unfold GetsPast at past ⊢
  cases outcome : rule s with
  | ok a s' =>
      rw [outcome] at past
      exact passes.trans past
  | error error s' =>
      rw [outcome] at past
      exact past

theorem callsBehindToken {rule : (β → Parse α) → Parse γ} {reach : γ → Nat}
    (advances : ∀ inner inner', Inner s 0 inner inner' →
      Advances s 0 anyKind reach (rule inner) (rule inner')) :
    CallsBehindToken rule s := by
  intro inner inner' calls
  have isInner : Inner s 0 inner inner' := by
    intro b count lt s' passes _
    obtain ⟨movesOn, same⟩ := calls b s' (passes.fewer lt)
    exact ⟨same, movesOn.behind passes⟩
  exact (advances inner inner' isInner s .here trivial).1

theorem Advances.here {reach : α → Nat} {rule rule' : Parse α}
    (advances : Advances s 0 anyKind reach rule rule') : GetsPast s reach rule s :=
  (advances s .here trivial).2

/-- With fuel for all that is ahead, every round of every loop passes a token. -/
theorem loopsMoveOn (enough : s.ahead ≤ fuel) : LoopsMoveOn fuel s := by
  have lt (count : Nat) : s.ahead < fuel + 1 + count := by omega
  have isNested : Inner s 0 (nested fuel) (nested fuel) := inner_nested enough enough
  have isArgument (callee : String) (count : Nat) :
      Advances s count anyKind (fun _ => count + 1) (argument (nested (fuel + 1)) callee)
        (argument (nested (fuel + 1)) callee) :=
    advances_argument (inner_nested (Nat.le_of_lt (lt count)) (Nat.le_of_lt (lt count)))
      (advances_nested (lt count) (lt count) .arithmetic) callee
  exact {
    header := (advances_programHeader.weaken fun found => Nat.le_add_left found.length 0).here
    declarations := (advances_topLevel? (lt 0) (lt 0)).here
    storage := (advances_storageBlock? (lt 0) (lt 0)).here
    varGroups := (advances_nextVarGroup? (lt 0) (lt 0)).here
    names := advances_nextName?.here
    constants := (advances_nextConstant? (lt 0) (lt 0)).here
    firstParameters := (advances_parameterGroup (lt 0) (lt 0)).here
    parameters := (advances_nextParameterGroup? (lt 0) (lt 0)).here
    actions := (advances_statement? (lt 0) (lt 0) none).here
    block := fun loop =>
      (advances_nextStatement? (advances_required (advances_statement? (lt 0) (lt 0) loop))).here
    firstArgument := fun callee => (isArgument callee 0).here
    arguments := fun callee => (advances_nextArgument? (isArgument callee 1)).here
    sums := fun grammar => (advances_operation? rfl fun count le =>
      advances_term (isNested.mono (Nat.zero_le count)) (lt count) (lt count) grammar).here
    terms := fun grammar => (advances_operation? rfl fun count le =>
      advances_factor (isNested.mono (Nat.zero_le count)) (lt count) (lt count) grammar).here
    disjunctions := (advances_operation? rfl fun count le =>
      advances_conjunction (isNested.mono (Nat.zero_le count)) (lt count) (lt count)).here
    conjunctions := (advances_operation? rfl fun count le =>
      advances_negation (isNested.mono (Nat.zero_le count)) (lt count) (lt count) (lt count)
        (lt count)).here }

/-- With fuel for all that is ahead, every rule passes a token. -/
theorem rulesMoveOn (enough : s.ahead ≤ fuel) : RulesMoveOn fuel s := by
  have lt : s.ahead < fuel + 1 + 0 := by omega
  have isNested : Inner s 0 (nested fuel) (nested fuel) := inner_nested enough enough
  exact {
    expression := fun grammar => (advances_nested lt lt grammar).here
    negation := (advances_negation isNested lt lt lt lt).here
    statement := fun loop => (advances_required (advances_statement? lt lt loop)).here
    callable := (advances_callable lt lt).here
    body := fun heading => (advances_callableBody lt lt heading).here
    dataType := (advances_dataType lt lt).here }

/-- With fuel for all that is ahead, every rule comes back to itself only behind a token. -/
theorem recursionMovesOn (enough : s.ahead ≤ fuel) : RecursionMovesOn fuel s := by
  have lt : s.ahead < fuel + 1 + 0 := by omega
  have isNested : Inner s 0 (nested fuel) (nested fuel) := inner_nested enough enough
  exact {
    arithmetic := callsBehindToken fun _ _ isInner => advances_sum isInner lt lt .arithmetic
    condition := callsBehindToken fun _ _ isInner => advances_disjunction isInner lt lt
    negation := callsBehindToken fun _ _ isInner => advances_negationOf isNested lt lt isInner
    statement := fun loop =>
      callsBehindToken fun _ _ isInner => advances_statementWith lt lt isInner loop
    callable := callsBehindToken fun _ _ isInner => advances_callableOf lt lt isInner
    dataType := callsBehindToken fun _ _ isInner => advances_dataTypeOf lt lt isInner }

/-! ### Whole programs -/

/-- With more fuel than is ahead, it does not matter how much more, and a token is passed. -/
theorem advancesAt_programWith (more : s.ahead < fuel) :
    AdvancesAt s (fun _ => 1) (programWith fuel) (programWith s.fuel) s := by
  have advances : Advances s 0 anyKind (fun _ => 0 + 1) (programWith fuel) (programWith s.fuel) :=
    advances_programWith more s.ahead_lt_fuel
  exact advances s .here trivial

theorem movesOn_program (s : Parser) : MovesOn program s := by
  have past := (advancesAt_programWith s.ahead_lt_fuel).2
  rw [GetsPast] at past
  rwa [MovesOn, GetsPast, program, get_bind]

/-- More fuel than a parser gives itself makes no difference. -/
theorem program_of_more_fuel (extra : Nat) :
    (do programWith ((← get).fuel + extra)) = program := by
  funext s
  rw [program, get_bind, get_bind]
  exact (advancesAt_programWith (Nat.lt_add_right extra s.ahead_lt_fuel)).1

theorem ne_outOfFuel_of_calls {rule : Parse α} (movesOn : ∀ s, MovesOn rule s) (count : Nat)
    (s : Parser) : ∀ outcome ∈ (rule.calls count s).1, outcome ≠ .error .outOfFuel := by
  induction count generalizing s with
  | zero => simp [calls]
  | succ count ih =>
      intro outcome isIn
      have first := movesOn s
      unfold MovesOn GetsPast at first
      rw [calls] at isIn
      cases isFirst : rule s with
      | ok a s' =>
          rw [isFirst] at isIn
          rcases List.mem_cons.1 isIn with rfl | isIn
          · simp
          · exact ih s' outcome isIn
      | error error s' =>
          rw [isFirst] at isIn first
          rcases List.mem_cons.1 isIn with rfl | isIn
          · simpa using first
          · exact ih s' outcome isIn

/-! ### The lexer of a parser -/

theorem coincide_advance_reached (first : Lexer) :
    Coincide (fun s => first.Reached s.lexer) (fun _ _ => True) advance advance := by
  intro s reached
  refine ⟨rfl, ?_⟩
  rw [advance_eq]
  cases isNext : s.lexer.next with
  | ok token lexer => exact ⟨onlyQuotes_of_nil rfl, reached.next isNext⟩
  | error error lexer => exact reached.nextFails isNext

theorem coincide_rawText_reached (first : Lexer) :
    Coincide (fun s => first.Reached s.lexer) (fun _ _ => True) (draw Lexer.rawText)
      (draw Lexer.rawText) := by
  intro s reached
  refine ⟨rfl, ?_⟩
  rw [draw]
  cases isText : s.lexer.rawText with
  | ok text lexer => exact ⟨onlyQuotes_of_nil rfl, reached.rawText isText⟩
  | error error lexer => exact reached.rawTextFails isText

theorem reached_of_advance {first : Lexer} {token : Token} (reached : first.Reached s.lexer)
    (ok : advance s = .ok token s') : first.Reached s'.lexer := by
  obtain ⟨found, lexer, isNext, -, rfl⟩ := advance_eq_ok.1 ok
  exact reached.next isNext

/-- A parser asks its lexer for tokens and raw text and hands tokens back to it, nothing else. -/
theorem suits_reached (first : Lexer) :
    Ports.standard.Suits (fun s => first.Reached s.lexer) fun _ _ => True where
  advance := coincide_advance_reached first
  freshLoop _ reached := ⟨rfl, onlyQuotes_of_nil rfl, reached⟩
  literal _ _ s' reached ok :=
    Ports.coincideAt_literal (coincide_advance_reached first) (reached_of_advance reached ok)
      fun _ => ⟨coincide_rawText_reached first s' (reached_of_advance reached ok), fun _ _ _ => trivial⟩
  backtrack _ _ s' reached ok :=
    ⟨rfl, onlyQuotes_of_nil rfl, (reached_of_advance reached ok).giveBack s'.current⟩

theorem reached_calls {first : Lexer} (reached : first.Reached s.lexer) (count : Nat) :
    first.Reached (program.calls count s).2.lexer := by
  induction count generalizing s with
  | zero => exact reached
  | succ count ih =>
      have kept := ((suits_reached first).program s reached).2
      rw [calls]
      cases isFirst : program s with
      | ok made s' =>
          rw [isFirst] at kept
          exact ih kept.2
      | error error s' =>
          rw [isFirst] at kept
          exact ih kept

theorem reached_ofReader {reader : Reader} {parser : Parser}
    (isMade : Parser.ofReader reader = .ok parser) :
    (Lexer.ofReader reader).Reached parser.lexer := by
  rw [Parser.ofReader] at isMade
  split at isMade <;> cases isMade
  rename_i isNext
  exact .next .here isNext

/-- Parsing an input of any bytes ends, however often it is called.  A token drawn takes a token handed
back, the symbol carried over or a character off the input, as long as that is not at its end.  A token
passed takes something off what a parser has ahead.  With fuel for all that is ahead, each round of each
loop, each rule and each way from a rule back to itself passes a token or fails, but not for want of
fuel.  And with the fuel that a parser has for a program no call runs out of it, so that more would make
no difference, and none does anything to the lexer but ask it for what it may be asked for. -/
theorem program_ends (bytes : List UInt8) :
    (∀ lexer, Lexer.Reached (.ofReader (.ofBytes bytes)) lexer → ¬ lexer.AtEnd →
      ∀ token rest, lexer.next = .ok token rest → rest.remaining < lexer.remaining) ∧
    (∀ (start s : Parser) (count : Nat), start.Passes count s → s.ahead + count ≤ start.ahead) ∧
    (∀ (s : Parser) (fuel : Nat), s.ahead ≤ fuel →
      LoopsMoveOn fuel s ∧ RulesMoveOn fuel s ∧ RecursionMovesOn fuel s) ∧
    ∀ parser, Parser.ofReader (.ofBytes bytes) = .ok parser → ∀ count,
      Lexer.Reached (.ofReader (.ofBytes bytes)) (program.calls count parser).2.lexer ∧
      (∀ outcome ∈ (program.calls count parser).1, outcome ≠ .error .outOfFuel) ∧
      ∀ extra, calls (do programWith ((← get).fuel + extra)) count parser =
        program.calls count parser := by
  refine ⟨fun lexer reached notEnd token rest ok => ?_, fun start s count passes => passes.ahead,
    fun s fuel enough => ⟨loopsMoveOn enough, rulesMoveOn enough, recursionMovesOn enough⟩,
    fun parser isMade count => ⟨reached_calls (reached_ofReader isMade) count, ?_, fun extra => ?_⟩⟩
  · exact Lexer.remaining_next_lt (reached.proper (PhysicalLine.proper_ofBytes bytes)) notEnd ok
  · exact ne_outOfFuel_of_calls movesOn_program count parser
  · rw [program_of_more_fuel]

/-- The theorem at the line `const a=1;b` in front of a single byte `FF`, which the first call comes to
when it has passed the `b`. -/
theorem program_ends_unreadable : ∃ (bytes : List UInt8) (parser : Parser),
    bytes = [0x63, 0x6F, 0x6E, 0x73, 0x74, 0x20, 0x61, 0x3D, 0x31, 0x3B, 0x62, 0x0A, 0xFF] ∧
    Parser.ofReader (.ofBytes bytes) = .ok parser ∧
    (Lexer.Reached (.ofReader (.ofBytes bytes)) parser.lexer ∧ ¬ parser.lexer.AtEnd ∧
      ∃ token rest, parser.lexer.next = .ok token rest ∧ rest.remaining < parser.lexer.remaining) ∧
    (∃ s, parser.Passes 1 s ∧ s.ahead + 1 ≤ parser.ahead) ∧
    (parser.ahead = 8 ∧ LoopsMoveOn 8 parser ∧ RulesMoveOn 8 parser ∧ RecursionMovesOn 8 parser) ∧
    (program.calls 2 parser).1.map (·.map fun _ => ()) =
      [.error (.lexical (.unreadable ⟨1, 13⟩)), .error (.expected .beginWord .ident ⟨1, 11⟩)] ∧
    ∀ outcome ∈ (program.calls 2 parser).1, outcome ≠ .error .outOfFuel := by
  let bytes : List UInt8 :=
    [0x63, 0x6F, 0x6E, 0x73, 0x74, 0x20, 0x61, 0x3D, 0x31, 0x3B, 0x62, 0x0A, 0xFF]
  let line := "const a=1;b\n".toList
  let lexer : Lexer := ⟨⟨[.undecodable], line, line.drop 6, [], 1, 6⟩, some ⟨some ' ', ⟨1, 6⟩⟩, []⟩
  let parser : Parser := ⟨lexer, .plain .constWord ⟨1, 1⟩, 0⟩
  let rest : Lexer := ⟨⟨[.undecodable], line, line.drop 8, [], 1, 8⟩, some ⟨some '=', ⟨1, 8⟩⟩, []⟩
  have isFirst : (Lexer.ofReader (.ofBytes bytes)).next = .ok (.plain .constWord ⟨1, 1⟩) lexer := by
    decide +kernel
  have isMade : Parser.ofReader (.ofBytes bytes) = .ok parser := by
    rw [Parser.ofReader, isFirst]
  have isNext : lexer.next = .ok (.ident "a" ⟨1, 7⟩) rest := by decide +kernel
  have reached : Lexer.Reached (.ofReader (.ofBytes bytes)) lexer := .next .here isFirst
  have notEnd : ¬ lexer.AtEnd := fun atEnd => nomatch atEnd.2.1
  have passes : parser.Passes 1 ⟨rest, .ident "a" ⟨1, 7⟩, 0⟩ :=
    .token .here (by decide) (advance_eq_ok.2 ⟨_, _, isNext, rfl, rfl⟩)
  obtain ⟨draws, passing, moving, calling⟩ := program_ends bytes
  refine ⟨bytes, parser, rfl, isMade, ⟨reached, notEnd, _, rest, isNext, ?_⟩, ⟨_, passes, ?_⟩, ⟨?_, ?_⟩,
    ?_, ?_⟩
  · exact draws lexer reached notEnd _ rest isNext
  · exact passing parser _ 1 passes
  · decide +kernel
  · exact moving parser 8 (by decide +kernel)
  · decide +kernel
  · exact (calling parser isMade 2).2.1

end Parse

end MiniPascal
