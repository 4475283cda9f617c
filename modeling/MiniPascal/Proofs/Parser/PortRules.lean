import MiniPascal.Proofs.Acceptance.Basic
import MiniPascal.Proofs.Parser.Ports
import MiniPascal.Proofs.Tree.Quotes

/-!
# What ports have to do

Rules with open ports are the rules of the parser wherever what is done at the ports is what the parser
does there.  `Ports.Suits` asks for no more than that: from states with an invariant, where literal text
is read just behind a token, and where the token is handed back that was just passed.  The invariant is
kept by all rules, also by those that fail.
-/

namespace MiniPascal

namespace Parse

section

variable {α β : Type} [Quoting α] [Quoting β]

/-- From a state, two steps come to the same, with literal text of one kind, and to a state with the
invariant, whether they succeed or fail. -/
def CoincideAt (invariant : Parser → Prop) (good : String → Position → Prop) (ported rule : Parse α)
    (s : Parser) : Prop :=
  ported s = rule s ∧
    match rule s with
    | .ok a s' => OnlyQuotes good a ∧ invariant s'
    | .error _ s' => invariant s'

def Coincide (invariant : Parser → Prop) (good : String → Position → Prop)
    (ported rule : Parse α) : Prop :=
  ∀ s, invariant s → CoincideAt invariant good ported rule s

variable {invariant : Parser → Prop} {good : String → Position → Prop} {ported rule : Parse α}
  {portedNext next : α → Parse β} {s : Parser}

theorem coincideAt_pure {a : α} (only : OnlyQuotes good a) (holds : invariant s) :
    CoincideAt invariant good (pure a) (pure a) s :=
  ⟨rfl, only, holds⟩

theorem coincide_pure {a : α} (only : OnlyQuotes good a) :
    Coincide invariant good (pure a) (pure a) :=
  fun _ => coincideAt_pure only

theorem coincide_throw (error : ParseError) :
    Coincide invariant good (throw error : Parse α) (throw error) :=
  fun _ holds => ⟨rfl, holds⟩

theorem CoincideAt.bind (first : CoincideAt invariant good ported rule s)
    (second : ∀ a s', rule s = .ok a s' → OnlyQuotes good a → invariant s' →
      CoincideAt invariant good (portedNext a) (next a) s') :
    CoincideAt invariant good (ported >>= portedNext) (rule >>= next) s := by
  obtain ⟨same, outcome⟩ := first
  cases isRule : rule s with
  | ok a s' =>
      rw [isRule] at same outcome
      have rest := second a s' isRule outcome.1 outcome.2
      rw [CoincideAt, bind_of_ok next isRule, bind_of_ok portedNext same]
      exact rest
  | error error s' =>
      rw [isRule] at same outcome
      rw [CoincideAt, bind_of_error next isRule, bind_of_error portedNext same]
      exact ⟨rfl, outcome⟩

theorem Coincide.bind (first : Coincide invariant good ported rule)
    (second : ∀ a, OnlyQuotes good a → Coincide invariant good (portedNext a) (next a)) :
    Coincide invariant good (ported >>= portedNext) (rule >>= next) :=
  fun s holds => (first s holds).bind fun a s' _ only holds => second a only s' holds

theorem coincide_current : Coincide invariant good current current :=
  fun _ holds => ⟨rfl, onlyQuotes_of_nil rfl, holds⟩

theorem coincide_kind : Coincide invariant good kind kind :=
  fun _ holds => ⟨rfl, onlyQuotes_of_nil rfl, holds⟩

theorem coincide_position : Coincide invariant good position position :=
  fun _ holds => ⟨rfl, onlyQuotes_of_nil rfl, holds⟩

theorem coincide_unexpected (wanted : TokenKind) :
    Coincide invariant good (unexpected wanted : Parse α) (unexpected wanted) :=
  coincide_current.bind fun _ _ => coincide_throw _

theorem coincide_cannotExpand (rule : Nonterminal) :
    Coincide invariant good (cannotExpand rule : Parse α) (cannotExpand rule) :=
  coincide_current.bind fun _ _ => coincide_throw _

theorem coincide_expect (isAdvance : Coincide invariant good advance advance) (wanted : TokenKind) :
    Coincide invariant good (expect wanted) (expect wanted) := by
  refine coincide_kind.bind fun found _ => ?_
  split
  · exact isAdvance
  · exact coincide_unexpected wanted

theorem coincide_many {ported item : Parse (Option α)}
    (isItem : Coincide invariant good ported item) (fuel : Nat) :
    Coincide invariant good (many fuel ported) (many fuel item) := by
  induction fuel with
  | zero => exact coincide_throw _
  | succ fuel ih =>
      refine isItem.bind fun found only => ?_
      cases found with
      | none => exact coincide_pure onlyQuotes_nil
      | some first =>
          exact ih.bind fun others onlyOthers => coincide_pure (onlyQuotes_cons.2 ⟨only, onlyOthers⟩)

end

end Parse

namespace Parse

/-- Calls of a rule on one parser, one after the other whatever becomes of each: the outcomes, and the
parser behind the last. -/
def calls {α : Type} (rule : Parse α) : Nat → Parser → List (Except ParseError α) × Parser
  | 0, parser => ([], parser)
  | count + 1, parser =>
      match rule parser with
      | .ok a rest => (.ok a :: (rule.calls count rest).1, (rule.calls count rest).2)
      | .error error rest => (.error error :: (rule.calls count rest).1, (rule.calls count rest).2)

/-- However often a parser is called, each call finds the invariant. -/
theorem Coincide.calls {α : Type} [Quoting α] {invariant : Parser → Prop}
    {good : String → Position → Prop} {ported rule : Parse α}
    (coincide : Coincide invariant good ported rule) (count : Nat) {s : Parser}
    (holds : invariant s) :
    ported.calls count s = rule.calls count s ∧
      ∀ a, .ok a ∈ (rule.calls count s).1 → OnlyQuotes good a := by
  induction count generalizing s with
  | zero => exact ⟨rfl, by simp [Parse.calls]⟩
  | succ count ih =>
      obtain ⟨same, outcome⟩ := coincide s holds
      rw [Parse.calls, Parse.calls, same]
      cases isFirst : rule s with
      | ok first s' =>
          rw [isFirst] at outcome
          obtain ⟨sameOthers, onlyOthers⟩ := ih outcome.2
          refine ⟨by simp only [sameOthers], fun a isIn => ?_⟩
          rcases List.mem_cons.1 isIn with isFirst | isIn
          · cases isFirst
            exact outcome.1
          · exact onlyOthers a isIn
      | error error s' =>
          rw [isFirst] at outcome
          obtain ⟨sameOthers, onlyOthers⟩ := ih outcome
          refine ⟨by simp only [sameOthers], fun a isIn => ?_⟩
          rcases List.mem_cons.1 isIn with isFirst | isIn
          · cases isFirst
          · exact onlyOthers a isIn

theorem exists_of_calls {α : Type} (made : Except ParseError Parser) (rule : Parse α) (count : Nat)
    (holds : α → Bool) (isAny : (made.toOption.any fun parser => (rule.calls count parser).1.any
      fun outcome => outcome.toOption.any holds) = true) :
    ∃ parser, made = .ok parser ∧ ∃ a, .ok a ∈ (rule.calls count parser).1 ∧ holds a = true := by
  cases made with
  | error error => cases isAny
  | ok parser =>
      obtain ⟨outcome, isIn, isAny⟩ := List.any_eq_true.1 isAny
      cases outcome with
      | error error => cases isAny
      | ok a => exact ⟨parser, rfl, a, isIn, isAny⟩

theorem advance_eq (parser : Parser) : advance parser =
    match parser.lexer.next with
    | .ok token lexer => .ok parser.current ⟨lexer, token, parser.nextLoop⟩
    | .error error lexer => .error (.lexical error) { parser with lexer := lexer } := by
  obtain ⟨lexer, token, nextLoop⟩ := parser
  change (draw Lexer.next >>= fun found => _) _ = _
  cases isNext : lexer.next with
  | ok found rest =>
      have isDrawn : draw Lexer.next ⟨lexer, token, nextLoop⟩ = .ok found ⟨rest, token, nextLoop⟩ := by
        simp only [draw, isNext]
      rw [bind_of_ok _ isDrawn]
      rfl
  | error error rest =>
      have isDrawn : draw Lexer.next ⟨lexer, token, nextLoop⟩ =
          .error (.lexical error) ⟨rest, token, nextLoop⟩ := by
        simp only [draw, isNext]
      rw [bind_of_error _ isDrawn]

theorem backtrack_eq (passed : Token) (parser : Parser) :
    backtrack passed parser = .ok ()
      { parser with
        lexer := { parser.lexer with returned := parser.current :: parser.lexer.returned }
        current := passed } :=
  rfl

end Parse

open Parse (Coincide CoincideAt coincide_pure coincide_throw coincide_kind coincide_current
  coincide_position coincide_unexpected coincide_cannotExpand coincide_many)

theorem Ports.coincideAt_literal {ports : Ports} {invariant : Parser → Prop}
    {good : String → Position → Prop} {s : Parser}
    (isAdvance : Coincide invariant good Parse.advance Parse.advance) (holds : invariant s)
    (isRaw : s.current.kind = .apostrophe →
      CoincideAt invariant good ports.rawText (Parse.draw Lexer.rawText) s ∧
        ∀ text s', Parse.draw Lexer.rawText s = .ok text s' → good text s.current.position) :
    CoincideAt invariant good ports.literal Parse.literal s := by
  refine (coincide_kind s holds).bind fun found same isKind _ _ => ?_
  cases isKind
  by_cases isQuote : s.current.kind = .apostrophe
  · obtain ⟨reads, isGood⟩ := isRaw isQuote
    simp only [isQuote, ne_eq, not_true_eq_false, if_false]
    refine (coincide_position s holds).bind fun position same isPosition _ _ => ?_
    cases isPosition
    refine reads.bind fun text s₁ isText _ holds₁ => ?_
    refine (isAdvance s₁ holds₁).bind fun _ s₂ _ _ holds₂ => ?_
    refine (Parse.coincide_expect isAdvance .apostrophe s₂ holds₂).bind fun _ s₃ _ _ holds₃ => ?_
    refine Parse.coincideAt_pure (fun quote isIn => ?_) holds₃
    obtain rfl := List.mem_singleton.1 isIn
    exact isGood text s₁ isText
  · simp only [ne_eq, isQuote, not_false_eq_true, if_true]
    refine (coincide_unexpected (α := Unit) .apostrophe s holds).bind ?_
    intro _ _ impossible
    cases impossible

/-- What is done at the ports is what the parser does there, and the rest of a parser keeps the
invariant. -/
structure Ports.Suits (ports : Ports) (invariant : Parser → Prop)
    (good : String → Position → Prop) : Prop where
  advance : Coincide invariant good Parse.advance Parse.advance
  freshLoop : Coincide invariant good Parse.freshLoop Parse.freshLoop
  literal : ∀ s token s', invariant s → Parse.advance s = .ok token s' →
    CoincideAt invariant good ports.literal Parse.literal s'
  backtrack : ∀ s token s', invariant s → Parse.advance s = .ok token s' →
    CoincideAt invariant good (ports.backtrack token) (Parse.backtrack token) s'

namespace Ports.Suits

variable {ports : Ports} {invariant : Parser → Prop} {good : String → Position → Prop}
  (suits : ports.Suits invariant good)
include suits

/-! ### Expressions -/

theorem expect (wanted : TokenKind) :
    Coincide invariant good (Parse.expect wanted) (Parse.expect wanted) :=
  Parse.coincide_expect suits.advance wanted

theorem name : Coincide invariant good Parse.name Parse.name :=
  (suits.expect .ident).bind fun _ _ => coincide_pure (onlyQuotes_of_nil rfl)

theorem operation? {operator? : TokenKind → Option BinaryOp} {ported operand : Parse Expr}
    (isOperand : Coincide invariant good ported operand) :
    Coincide invariant good (Parse.operation? operator? ported)
      (Parse.operation? operator? operand) := by
  refine coincide_kind.bind fun found _ => ?_
  split
  · exact coincide_pure onlyQuotes_none
  · refine suits.advance.bind fun token _ => ?_
    refine isOperand.bind fun right onlyRight => coincide_pure ?_
    refine onlyQuotes_pair.2 ⟨onlyQuotes_of_nil rfl, ?_⟩
    exact onlyQuotes_pair.2 ⟨onlyQuotes_of_nil rfl, onlyRight⟩

omit suits in
theorem onlyQuotes_chain {left : Expr} (onlyLeft : OnlyQuotes good left)
    {operations : List (BinaryOp × Position × Expr)} (only : OnlyQuotes good operations) :
    OnlyQuotes good (Parse.chain left operations) := by
  induction operations generalizing left with
  | nil => exact onlyLeft
  | cons first others ih =>
      obtain ⟨onlyFirst, onlyOthers⟩ := onlyQuotes_cons.1 only
      exact ih (onlyQuotes_of_append rfl onlyLeft onlyFirst) onlyOthers

theorem operations (fuel : Nat) {operator? : TokenKind → Option BinaryOp}
    {portedFirst first portedOperand operand : Parse Expr}
    (isFirst : Coincide invariant good portedFirst first)
    (isOperand : Coincide invariant good portedOperand operand) :
    Coincide invariant good (Parse.operations fuel operator? portedFirst portedOperand)
      (Parse.operations fuel operator? first operand) := by
  refine isFirst.bind fun left onlyLeft => ?_
  refine (coincide_many (suits.operation? isOperand) fuel).bind fun others onlyOthers => ?_
  exact coincide_pure (onlyQuotes_chain onlyLeft onlyOthers)

section

variable {ported nested : Grammar → Parse Expr}
  (isNested : ∀ grammar, Coincide invariant good (ported grammar) (nested grammar))
include isNested

theorem element (array : Token) :
    Coincide invariant good (Parse.element ported array) (Parse.element nested array) := by
  refine suits.advance.bind fun _ _ => ?_
  refine (isNested .arithmetic).bind fun index onlyIndex => ?_
  exact (suits.expect .rightBracket).bind fun _ _ => coincide_pure onlyIndex

theorem assignable :
    Coincide invariant good (Parse.assignable ported) (Parse.assignable nested) := by
  refine (suits.expect .ident).bind fun token _ => ?_
  refine coincide_kind.bind fun found _ => ?_
  split
  · exact suits.element isNested token
  · exact coincide_pure (onlyQuotes_of_nil rfl)

theorem argument (callee : String) :
    Coincide invariant good (Parse.argument ported callee) (Parse.argument nested callee) := by
  unfold Parse.argument
  split
  · exact suits.assignable isNested
  · exact suits.assignable isNested
  · exact isNested .arithmetic

omit isNested in
theorem argumentList (fuel : Nat) {ported item : Parse Expr}
    (isItem : Coincide invariant good ported item) :
    Coincide invariant good (Parse.argumentList fuel ported) (Parse.argumentList fuel item) := by
  refine coincide_kind.bind fun found _ => ?_
  split
  · exact coincide_pure onlyQuotes_nil
  · refine isItem.bind fun first onlyFirst => ?_
    refine (coincide_many ?further fuel).bind fun others onlyOthers => ?_
    case further =>
      refine coincide_kind.bind fun found _ => ?_
      split
      · exact coincide_pure onlyQuotes_none
      · refine (suits.expect .comma).bind fun _ _ => ?_
        exact isItem.bind fun next onlyNext => coincide_pure onlyNext
    exact coincide_pure (onlyQuotes_cons.2 ⟨onlyFirst, onlyOthers⟩)

theorem arguments (fuel : Nat) (callee : String) :
    Coincide invariant good (ports.arguments fuel ported callee)
      (Parse.arguments fuel nested callee) := by
  have close (found : List Expr) (only : OnlyQuotes good found) :
      Coincide invariant good (do
        let _ ← Parse.expect .rightParen
        return found) (do
        let _ ← Parse.expect .rightParen
        return found) :=
    (suits.expect .rightParen).bind fun _ _ => coincide_pure only
  intro s holds
  -- literal text is read just behind the opening parenthesis
  refine (suits.expect .leftParen s holds).bind fun paren s' isPassed _ holds' => ?_
  have isAdvance := (Parse.expect_eq_ok.1 isPassed).2
  split
  · have isLiteral := suits.literal s paren s' holds isAdvance
    refine isLiteral.bind fun only s'' _ onlyText holds'' => ?_
    exact close [only] (onlyQuotes_cons.2 ⟨onlyText, onlyQuotes_nil⟩) s'' holds''
  · exact (suits.argumentList fuel (suits.argument isNested callee)).bind close s' holds'

theorem factor (fuel : Nat) (grammar : Grammar) :
    Coincide invariant good (ports.factor fuel ported grammar)
      (Parse.factor fuel nested grammar) := by
  refine coincide_kind.bind fun found _ => ?_
  cases found with
  | ident =>
      refine suits.advance.bind fun token _ => ?_
      refine coincide_kind.bind fun found _ => ?_
      cases found with
      | leftBracket => exact suits.element isNested token
      | leftParen =>
          refine (suits.arguments isNested fuel token.text).bind fun found only => coincide_pure ?_
          exact Expr.onlyQuotes_all only
      | _ => exact coincide_pure (onlyQuotes_of_nil rfl)
  | number => exact suits.advance.bind fun token _ => coincide_pure (onlyQuotes_of_nil rfl)
  | leftParen =>
      refine suits.advance.bind fun _ _ => ?_
      refine (isNested grammar).bind fun inner onlyInner => ?_
      exact (suits.expect .rightParen).bind fun _ _ => coincide_pure onlyInner
  | _ => exact coincide_cannotExpand .factor

end

section

variable {ported nested : Grammar → Parse Expr}
  (isNested : ∀ grammar, Coincide invariant good (ported grammar) (nested grammar))
include isNested

theorem term (fuel : Nat) (grammar : Grammar) :
    Coincide invariant good (ports.term fuel ported grammar) (Parse.term fuel nested grammar) :=
  suits.operations fuel (suits.factor isNested fuel grammar) (suits.factor isNested fuel grammar)

theorem signedTerm (fuel : Nat) (grammar : Grammar) :
    Coincide invariant good (ports.signedTerm fuel ported grammar)
      (Parse.signedTerm fuel nested grammar) := by
  refine coincide_kind.bind fun found _ => ?_
  split
  · refine suits.advance.bind fun token _ => ?_
    exact (suits.term isNested fuel grammar).bind fun operand only => coincide_pure only
  · exact suits.term isNested fuel grammar

theorem sum (fuel : Nat) (grammar : Grammar) :
    Coincide invariant good (ports.sum fuel ported grammar) (Parse.sum fuel nested grammar) :=
  suits.operations fuel (suits.signedTerm isNested fuel grammar) (suits.term isNested fuel grammar)

theorem comparison (fuel : Nat) :
    Coincide invariant good (ports.comparison fuel ported) (Parse.comparison fuel nested) := by
  refine (suits.sum isNested fuel .condition).bind fun left onlyLeft => ?_
  refine (suits.operation? (suits.sum isNested fuel .condition)).bind fun found only => ?_
  cases found with
  | none => exact coincide_pure onlyLeft
  | some operation =>
      exact coincide_pure (onlyQuotes_chain onlyLeft (onlyQuotes_cons.2 ⟨only, onlyQuotes_nil⟩))

theorem negation (fuel depth : Nat) :
    Coincide invariant good (ports.negation fuel ported depth) (Parse.negation fuel nested depth) := by
  induction depth with
  | zero => exact coincide_throw _
  | succ depth ih =>
      refine coincide_kind.bind fun found _ => ?_
      split
      · refine suits.advance.bind fun token _ => ?_
        exact ih.bind fun operand only => coincide_pure only
      · exact suits.comparison isNested fuel

theorem disjunction (fuel : Nat) :
    Coincide invariant good (ports.disjunction fuel ported) (Parse.disjunction fuel nested) := by
  have isNegation := suits.negation isNested fuel fuel
  have isConjunction : Coincide invariant good (ports.conjunction fuel ported)
      (Parse.conjunction fuel nested) := suits.operations fuel isNegation isNegation
  exact suits.operations fuel isConjunction isConjunction

end

theorem nested (fuel : Nat) (grammar : Grammar) :
    Coincide invariant good (ports.nested fuel grammar) (Parse.nested fuel grammar) := by
  induction fuel generalizing grammar with
  | zero => exact coincide_throw _
  | succ fuel ih =>
      cases grammar with
      | arithmetic => exact suits.sum ih (fuel + 1) .arithmetic
      | condition => exact suits.disjunction ih (fuel + 1)

/-! ### Statements -/

theorem separator : Coincide invariant good Parse.separator Parse.separator := by
  refine coincide_kind.bind fun found _ => ?_
  split
  · exact coincide_pure (onlyQuotes_of_nil rfl)
  · exact coincide_pure (onlyQuotes_of_nil rfl)
  · exact (suits.expect .semicolon).bind fun _ _ => coincide_pure (onlyQuotes_of_nil rfl)

theorem assignTo (fuel : Nat) {target : Expr} (onlyTarget : OnlyQuotes good target) :
    Coincide invariant good (ports.assignTo fuel target) (Parse.assignTo fuel target) := by
  refine (suits.expect .assign).bind fun sign _ => ?_
  refine (suits.nested fuel .arithmetic).bind fun value onlyValue => ?_
  exact coincide_pure (onlyQuotes_of_append rfl onlyTarget onlyValue)

theorem identStatement (fuel : Nat) :
    Coincide invariant good (ports.identStatement fuel) (Parse.identStatement fuel) := by
  refine suits.advance.bind fun token _ => ?_
  refine coincide_kind.bind fun found _ => ?_
  cases found with
  | assign =>
      exact (suits.assignTo fuel (onlyQuotes_of_nil rfl)).bind fun _ only => coincide_pure only
  | leftBracket =>
      refine (suits.element (suits.nested fuel) token).bind fun target onlyTarget => ?_
      exact (suits.assignTo fuel onlyTarget).bind fun _ only => coincide_pure only
  | leftParen =>
      refine (suits.arguments (suits.nested fuel) fuel token.text).bind fun found only => ?_
      exact coincide_pure (Expr.onlyQuotes_all only)
  | semicolon | endWord | elseWord => exact coincide_pure (onlyQuotes_of_nil rfl)
  | _ => exact coincide_throw _

theorem breakStatement (loop : Option LoopId) :
    Coincide invariant good (Parse.breakStatement loop) (Parse.breakStatement loop) := by
  refine suits.advance.bind fun token _ => ?_
  cases loop with
  | some loop => exact coincide_pure (onlyQuotes_of_nil rfl)
  | none => exact coincide_throw _

theorem blockStatement (fuel : Nat) {ported inner : Parse Statement}
    (isInner : Coincide invariant good ported inner) :
    Coincide invariant good (Parse.blockStatement fuel ported) (Parse.blockStatement fuel inner) := by
  refine (suits.expect .beginWord).bind fun _ _ => ?_
  refine (coincide_many ?item fuel).bind fun statements only => ?_
  case item =>
    refine coincide_kind.bind fun found _ => ?_
    split
    · exact coincide_pure onlyQuotes_none
    · exact coincide_unexpected .endWord
    · exact isInner.bind fun next only => coincide_pure only
  refine suits.advance.bind fun _ _ => ?_
  exact suits.separator.bind fun _ _ => coincide_pure (Statement.onlyQuotes_all only)

theorem ifStatement (fuel : Nat) {ported inner : Parse Statement}
    (isInner : Coincide invariant good ported inner) :
    Coincide invariant good (ports.ifStatement fuel ported) (Parse.ifStatement fuel inner) := by
  refine suits.advance.bind fun token _ => ?_
  refine (suits.nested fuel .condition).bind fun condition onlyCondition => ?_
  refine (suits.expect .thenWord).bind fun _ _ => ?_
  refine isInner.bind fun holds onlyHolds => ?_
  refine coincide_kind.bind fun found _ => ?_
  split
  · refine suits.advance.bind fun _ _ => ?_
    refine isInner.bind fun fails onlyFails => coincide_pure ?_
    exact onlyQuotes_of_append rfl onlyCondition (onlyQuotes_pair.2 ⟨onlyHolds, onlyFails⟩)
  · exact coincide_pure (onlyQuotes_of_append rfl onlyCondition onlyHolds)

theorem whileStatement (fuel : Nat) {ported inner : LoopId → Parse Statement}
    (isInner : ∀ id, Coincide invariant good (ported id) (inner id)) :
    Coincide invariant good (ports.whileStatement fuel ported)
      (Parse.whileStatement fuel inner) := by
  refine suits.advance.bind fun token _ => ?_
  refine (suits.nested fuel .condition).bind fun condition onlyCondition => ?_
  refine (suits.expect .doWord).bind fun _ _ => ?_
  refine suits.freshLoop.bind fun id _ => ?_
  refine (isInner id).bind fun body onlyBody => ?_
  exact coincide_pure (onlyQuotes_of_append rfl onlyCondition onlyBody)

theorem direction : Coincide invariant good Parse.direction Parse.direction := by
  refine coincide_kind.bind fun found _ => ?_
  split
  · exact suits.advance.bind fun _ _ => coincide_pure (onlyQuotes_of_nil rfl)
  · exact suits.advance.bind fun _ _ => coincide_pure (onlyQuotes_of_nil rfl)
  · exact coincide_unexpected .toWord

theorem forStatement (fuel : Nat) {ported inner : LoopId → Parse Statement}
    (isInner : ∀ id, Coincide invariant good (ported id) (inner id)) :
    Coincide invariant good (ports.forStatement fuel ported) (Parse.forStatement fuel inner) := by
  refine suits.advance.bind fun token _ => ?_
  refine (suits.expect .ident).bind fun counter _ => ?_
  refine (suits.assignTo fuel (onlyQuotes_of_nil rfl)).bind fun initial onlyInitial => ?_
  refine suits.direction.bind fun direction _ => ?_
  refine (suits.nested fuel .arithmetic).bind fun limit onlyLimit => ?_
  refine (suits.expect .doWord).bind fun _ _ => ?_
  refine suits.freshLoop.bind fun id _ => ?_
  refine (isInner id).bind fun body onlyBody => coincide_pure ?_
  exact onlyQuotes_of_append rfl onlyInitial (onlyQuotes_pair.2 ⟨onlyLimit, onlyBody⟩)

theorem statementWith (fuel : Nat) {ported inner : Option LoopId → Parse Statement}
    (isInner : ∀ loop, Coincide invariant good (ported loop) (inner loop)) (loop : Option LoopId) :
    Coincide invariant good (ports.statementWith fuel ported loop)
      (Parse.statementWith fuel inner loop) := by
  have found {ported rule : Parse Statement} (isRule : Coincide invariant good ported rule) :
      Coincide invariant good (do return some (← ported)) (do return some (← rule)) :=
    isRule.bind fun statement only => coincide_pure only
  have separated {ported rule : Parse Statement} (isRule : Coincide invariant good ported rule) :
      Coincide invariant good (do
        let statement ← ported
        Parse.separator
        return some statement) (do
        let statement ← rule
        Parse.separator
        return some statement) :=
    isRule.bind fun statement only => suits.separator.bind fun _ _ => coincide_pure only
  refine coincide_kind.bind fun kind _ => ?_
  cases kind with
  | ifWord => exact found (suits.ifStatement fuel (isInner loop))
  | whileWord => exact found (suits.whileStatement fuel fun id => isInner (some id))
  | forWord => exact found (suits.forStatement fuel fun id => isInner (some id))
  | beginWord => exact found (suits.blockStatement fuel (isInner loop))
  | ident => exact separated (suits.identStatement fuel)
  | breakWord => exact separated (suits.breakStatement loop)
  | _ => exact coincide_pure onlyQuotes_none

omit suits in
theorem required {ported statement? : Parse (Option Statement)}
    (isStatement : Coincide invariant good ported statement?) :
    Coincide invariant good (Parse.required ported) (Parse.required statement?) := by
  refine isStatement.bind fun found only => ?_
  cases found with
  | some statement => exact coincide_pure only
  | none => exact coincide_cannotExpand .statement

theorem statement? (fuel : Nat) (loop : Option LoopId) :
    Coincide invariant good (ports.statement? fuel loop) (Parse.statement? fuel loop) := by
  induction fuel generalizing loop with
  | zero => exact coincide_throw _
  | succ fuel ih => exact suits.statementWith (fuel + 1) (fun loop => required (ih loop)) loop

/-! ### Declarations and programs -/

theorem ordinaryType : Coincide invariant good Parse.ordinaryType Parse.ordinaryType := by
  refine coincide_current.bind fun token _ => ?_
  split
  · exact suits.advance.bind fun _ _ => coincide_pure (onlyQuotes_of_nil rfl)
  · split <;> exact coincide_throw _

theorem dataType (fuel : Nat) :
    Coincide invariant good (ports.dataType fuel) (Parse.dataType fuel) := by
  refine coincide_current.bind fun token _ => ?_
  split
  · refine suits.advance.bind fun _ _ => ?_
    refine (suits.expect .leftBracket).bind fun _ _ => ?_
    refine (suits.nested fuel .arithmetic).bind fun low onlyLow => ?_
    refine (suits.expect .dot).bind fun _ _ => ?_
    refine (suits.expect .dot).bind fun _ _ => ?_
    refine (suits.nested fuel .arithmetic).bind fun high onlyHigh => ?_
    refine (suits.expect .rightBracket).bind fun _ _ => ?_
    refine (suits.expect .ofWord).bind fun _ _ => ?_
    refine suits.ordinaryType.bind fun _ _ => ?_
    exact coincide_pure (onlyQuotes_of_append rfl onlyLow onlyHigh)
  · exact suits.ordinaryType

theorem varGroup (fuel : Nat) {ported type : Parse DataType}
    (isType : Coincide invariant good ported type) (first : Token) :
    Coincide invariant good (Parse.varGroup fuel ported first) (Parse.varGroup fuel type first) := by
  refine (coincide_many ?further fuel).bind fun _ _ => ?_
  case further =>
    refine coincide_kind.bind fun found _ => ?_
    split
    · refine suits.advance.bind fun _ _ => ?_
      exact suits.name.bind fun _ _ => coincide_pure (onlyQuotes_of_nil rfl)
    · exact coincide_pure onlyQuotes_none
  refine (suits.expect .colon).bind fun _ _ => ?_
  exact isType.bind fun made only => coincide_pure only

theorem nextVarGroup? (fuel : Nat) :
    Coincide invariant good (ports.nextVarGroup? fuel) (Parse.nextVarGroup? fuel) := by
  have group (token : Token) : Coincide invariant good
      (do return some (← Parse.varGroup fuel (ports.dataType fuel) token))
      (do return some (← Parse.varGroup fuel (Parse.dataType fuel) token)) :=
    (suits.varGroup fuel (suits.dataType fuel) token).bind fun made only => coincide_pure only
  refine (suits.expect .semicolon).bind fun _ _ => ?_
  refine coincide_kind.bind fun found _ => ?_
  split
  · exact coincide_pure onlyQuotes_none
  · intro s holds
    -- what is handed back has just been passed
    refine (suits.advance s holds).bind fun token s' isPassed _ holds' => ?_
    refine (coincide_kind s' holds').bind fun found same isKind _ _ => ?_
    obtain rfl : s' = same := by
      cases isKind
      rfl
    cases found with
    | comma | colon => exact group token s' holds'
    | _ =>
        refine (suits.backtrack s token s' holds isPassed).bind fun _ s'' _ _ holds'' => ?_
        exact coincide_pure onlyQuotes_none s'' holds''

theorem varBlock (fuel : Nat) :
    Coincide invariant good (ports.varBlock fuel) (Parse.varBlock fuel) := by
  refine (suits.expect .varWord).bind fun _ _ => ?_
  refine (suits.expect .ident).bind fun first _ => ?_
  refine (suits.varGroup fuel (suits.dataType fuel) first).bind fun group onlyGroup => ?_
  refine (coincide_many (suits.nextVarGroup? fuel) fuel).bind fun groups onlyGroups => ?_
  refine coincide_pure fun quote isIn => onlyQuotes_cons.2 ⟨onlyGroup, onlyGroups⟩ quote ?_
  simpa [Quoting.quotes, List.flatMap_map, Statement.quotes] using isIn

theorem constantItem (fuel : Nat) (token : Token) :
    Coincide invariant good (ports.constantItem fuel token) (Parse.constantItem fuel token) := by
  refine (suits.expect .equal).bind fun _ _ => ?_
  refine (suits.nested fuel .arithmetic).bind fun value only => ?_
  exact (suits.expect .semicolon).bind fun _ _ => coincide_pure only

theorem nextConstant? (fuel : Nat) :
    Coincide invariant good (ports.nextConstant? fuel) (Parse.nextConstant? fuel) := by
  refine coincide_kind.bind fun found _ => ?_
  split
  · exact coincide_pure onlyQuotes_none
  · intro s holds
    refine (suits.advance s holds).bind fun token s' isPassed _ holds' => ?_
    refine (coincide_kind s' holds').bind fun found same isKind _ _ => ?_
    obtain rfl : s' = same := by
      cases isKind
      rfl
    split
    · refine (suits.constantItem fuel token s' holds').bind fun made s'' _ only holds'' => ?_
      exact coincide_pure (onlyQuotes_some.2 only) s'' holds''
    · refine (suits.backtrack s token s' holds isPassed).bind fun _ s'' _ _ holds'' => ?_
      exact coincide_pure onlyQuotes_none s'' holds''

theorem constBlock (fuel : Nat) :
    Coincide invariant good (ports.constBlock fuel) (Parse.constBlock fuel) := by
  refine (suits.expect .constWord).bind fun _ _ => ?_
  refine (suits.expect .ident).bind fun token _ => ?_
  refine (suits.constantItem fuel token).bind fun first onlyFirst => ?_
  refine (coincide_many (suits.nextConstant? fuel) fuel).bind fun others onlyOthers => ?_
  exact coincide_pure (onlyQuotes_cons.2 ⟨onlyFirst, onlyOthers⟩)

theorem storageBlock? (fuel : Nat) :
    Coincide invariant good (ports.storageBlock? fuel) (Parse.storageBlock? fuel) := by
  refine coincide_kind.bind fun found _ => ?_
  cases found with
  | varWord => exact (suits.varBlock fuel).bind fun made only => coincide_pure only
  | constWord => exact (suits.constBlock fuel).bind fun made only => coincide_pure only
  | _ => exact coincide_pure onlyQuotes_none

theorem parameterGroup (fuel : Nat) :
    Coincide invariant good (Parse.parameterGroup fuel) (Parse.parameterGroup fuel) :=
  (suits.expect .ident).bind fun first _ => suits.varGroup fuel suits.ordinaryType first

theorem parameters (fuel : Nat) :
    Coincide invariant good (Parse.parameters fuel) (Parse.parameters fuel) := by
  refine (suits.expect .leftParen).bind fun _ _ => ?_
  refine coincide_kind.bind fun found _ => ?_
  split
  · exact suits.advance.bind fun _ _ => coincide_pure onlyQuotes_nil
  · refine (suits.parameterGroup fuel).bind fun first onlyFirst => ?_
    refine (coincide_many ?further fuel).bind fun others onlyOthers => ?_
    case further =>
      refine coincide_kind.bind fun found _ => ?_
      split
      · refine suits.advance.bind fun _ _ => ?_
        exact (suits.parameterGroup fuel).bind fun made only => coincide_pure only
      · exact coincide_pure onlyQuotes_none
    refine (suits.expect .rightParen).bind fun _ _ => ?_
    exact coincide_pure (onlyQuotes_cons.2 ⟨onlyFirst, onlyOthers⟩)

theorem heading (fuel : Nat) :
    Coincide invariant good (Parse.heading fuel) (Parse.heading fuel) := by
  refine suits.advance.bind fun keyword _ => ?_
  refine suits.name.bind fun name _ => ?_
  have result (groups : List VarGroup) (only : OnlyQuotes good groups) :
      Coincide invariant good (do
        if keyword.kind = .procedureWord then
          return (⟨name, groups, none, keyword.position⟩ : Heading)
        let _ ← Parse.expect .colon
        return ⟨name, groups, some (← Parse.ordinaryType), keyword.position⟩) (do
        if keyword.kind = .procedureWord then
          return (⟨name, groups, none, keyword.position⟩ : Heading)
        let _ ← Parse.expect .colon
        return ⟨name, groups, some (← Parse.ordinaryType), keyword.position⟩) := by
    split
    · exact coincide_pure (onlyQuotes_of_append rfl only (onlyQuotes_none (α := DataType)))
    · refine (suits.expect .colon).bind fun _ _ => ?_
      refine suits.ordinaryType.bind fun type onlyType => ?_
      exact coincide_pure (onlyQuotes_of_append rfl only (onlyQuotes_some.2 onlyType))
  refine coincide_kind.bind fun found _ => ?_
  by_cases isParen : found = .leftParen
  · rw [if_pos isParen]
    exact (suits.parameters fuel).bind result
  · rw [if_neg isParen]
    exact result [] onlyQuotes_nil

theorem actions (fuel : Nat) :
    Coincide invariant good (ports.actions fuel) (Parse.actions fuel) := by
  refine (suits.expect .beginWord).bind fun token _ => ?_
  refine (coincide_many (suits.statement? fuel none) fuel).bind fun statements only => ?_
  refine (suits.expect .endWord).bind fun _ _ => ?_
  exact coincide_pure (onlyQuotes_pair.2 ⟨onlyQuotes_of_nil rfl, only⟩)

theorem callable (fuel : Nat) :
    Coincide invariant good (ports.callable fuel) (Parse.callable fuel) := by
  refine (suits.heading fuel).bind fun heading onlyHeading => ?_
  refine (suits.expect .semicolon).bind fun _ _ => ?_
  refine coincide_kind.bind fun found _ => ?_
  split
  · refine suits.advance.bind fun _ _ => ?_
    exact (suits.expect .semicolon).bind fun _ _ => coincide_pure onlyHeading
  · refine (coincide_many (suits.storageBlock? fuel) fuel).bind fun blocks onlyBlocks => ?_
    refine (suits.actions fuel).bind fun body onlyBody => ?_
    refine (suits.expect .semicolon).bind fun _ _ => coincide_pure ?_
    have onlyAll := onlyQuotes_append (onlyQuotes_flatten onlyBlocks) (onlyQuotes_pair.1 onlyBody).2
    intro quote isIn
    rcases List.mem_append.1 isIn with isIn | isIn
    · exact onlyHeading quote isIn
    · exact Statement.onlyQuotes_all onlyAll quote isIn

theorem programHeader : Coincide invariant good Parse.programHeader Parse.programHeader := by
  refine coincide_kind.bind fun found _ => ?_
  split
  · refine suits.advance.bind fun _ _ => ?_
    refine suits.name.bind fun _ _ => ?_
    exact (suits.expect .semicolon).bind fun _ _ => coincide_pure (onlyQuotes_of_nil rfl)
  · exact coincide_pure onlyQuotes_nil

theorem topLevel? (fuel : Nat) :
    Coincide invariant good (ports.topLevel? fuel) (Parse.topLevel? fuel) := by
  have only : Coincide invariant good (do return some [← ports.callable fuel])
      (do return some [← Parse.callable fuel]) :=
    (suits.callable fuel).bind fun made onlyMade =>
      coincide_pure (onlyQuotes_cons.2 ⟨onlyMade, onlyQuotes_nil⟩)
  refine coincide_kind.bind fun found _ => ?_
  cases found with
  | functionWord | procedureWord => exact only
  | _ => exact suits.storageBlock? fuel

theorem programWith (fuel : Nat) :
    Coincide invariant good (ports.programWith fuel) (Parse.programWith fuel) := by
  refine suits.programHeader.bind fun header onlyHeader => ?_
  refine (coincide_many (suits.topLevel? fuel) fuel).bind fun items onlyItems => ?_
  refine (suits.actions fuel).bind fun body onlyBody => ?_
  refine (suits.expect .dot).bind fun _ _ => ?_
  refine (suits.expect .endOfInput).bind fun _ _ => coincide_pure ?_
  have onlyMain : OnlyQuotes good (Parse.mainCallable body.1 body.2) :=
    Statement.onlyQuotes_all (onlyQuotes_pair.1 onlyBody).2
  exact Statement.onlyQuotes_all (onlyQuotes_append
    (onlyQuotes_append onlyHeader (onlyQuotes_flatten onlyItems))
    (onlyQuotes_cons.2 ⟨onlyMain, onlyQuotes_nil⟩))

theorem program : Coincide invariant good ports.program Parse.program := by
  intro s holds
  rw [CoincideAt, Ports.program, Parse.program, get_bind, get_bind]
  exact suits.programWith s.fuel s holds

end Ports.Suits

end MiniPascal
