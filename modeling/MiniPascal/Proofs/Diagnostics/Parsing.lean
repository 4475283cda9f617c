import MiniPascal.Parser.Declaration
import MiniPascal.Proofs.Diagnostics.Basic
import MiniPascal.Proofs.Diagnostics.Lexical

/-!
# Where parsers point

A parser puts the positions of its tokens into trees and errors.  All rules keep the parser in its
text: what they give and the errors they fail with point into it.
-/

namespace MiniPascal

def Parser.Within (text : List Char) (parser : Parser) : Prop :=
  parser.lexer.Within text ∧ PointsInto text parser.current.position

namespace Parse

def Points {α : Type} [Located α] (text : List Char) (rule : Parse α) : Prop :=
  Guarded (Parser.Within text) (fun error => error = .outOfFuel ∨ PointsInto text error.position)
    (Located.within (PointsInto text)) rule

variable {text : List Char} {α : Type} [Located α]

/-! ### Steps of a parser -/

theorem points_outOfFuel : Points text (throw .outOfFuel : Parse α) := guarded_throw (.inl rfl)

theorem points_throw {error : ParseError} (points : PointsInto text error.position) :
    Points text (throw error : Parse α) := guarded_throw (.inr points)

theorem points_draw {action : EStateM LexError Lexer α}
    (points : ∀ lexer : Lexer, lexer.Within text →
      Lexer.Points text (Located.within (PointsInto text)) (action lexer)) :
    Points text (draw action) := by
  intro parser within
  have outcome := points parser.lexer within.1
  unfold draw
  cases isAction : action parser.lexer with
  | ok result lexer =>
      rw [isAction] at outcome
      exact ⟨outcome.1, outcome.2, within.2⟩
  | error error lexer =>
      rw [isAction] at outcome
      exact .inr outcome

theorem points_next : Points text (draw Lexer.next) := points_draw fun _ => Lexer.points_next

theorem points_rawText : Points text (draw Lexer.rawText) :=
  points_draw fun _ => Lexer.points_rawText

theorem points_current : Points text current :=
  guarded_get.bind fun _ within => guarded_pure within.2

theorem points_kind : Points text kind :=
  Guarded.bind points_current fun _ _ => guarded_pure trivial

theorem points_position : Points text position :=
  Guarded.bind points_current fun _ isCurrent => guarded_pure isCurrent

theorem points_setCurrent {token : Token} (isToken : Located.within (PointsInto text) token) :
    Points text (modify fun parser => { parser with current := token }) :=
  guarded_modify fun _ within => ⟨within.1, isToken⟩

theorem points_advance : Points text advance := by
  refine Guarded.bind points_current fun passed isPassed => ?_
  refine Guarded.bind points_next fun token isToken => ?_
  refine Guarded.bind (points_setCurrent isToken) fun _ _ => ?_
  exact guarded_pure isPassed

theorem points_unexpected (wanted : TokenKind) : Points text (unexpected wanted : Parse α) :=
  Guarded.bind points_current fun _ isToken => points_throw isToken

theorem points_cannotExpand (rule : Nonterminal) : Points text (cannotExpand rule : Parse α) :=
  Guarded.bind points_current fun _ isToken => points_throw isToken

theorem points_expect (wanted : TokenKind) : Points text (expect wanted) := by
  refine Guarded.bind points_kind fun found _ => ?_
  split
  · exact points_advance
  · exact points_unexpected wanted

theorem points_name : Points text name :=
  Guarded.bind (points_expect .ident) fun _ _ => guarded_pure trivial

theorem points_backtrack {passed : Token} (isPassed : Located.within (PointsInto text) passed) :
    Points text (backtrack passed) := by
  refine Guarded.bind points_current fun token isToken => ?_
  refine Guarded.bind (guarded_modify fun parser within => ?_) fun _ _ => ?_
  · exact ⟨Lexer.within_giveBack (Lexer.within_giveBack within.1 isToken) isPassed, within.2⟩
  · refine Guarded.bind points_next fun token isToken => ?_
    exact points_setCurrent isToken

theorem points_freshLoop : Points text freshLoop := by
  refine guarded_get.bind fun parser within => ?_
  refine Guarded.bind (guarded_modify fun parser within => ⟨within.1, within.2⟩) fun _ _ => ?_
  exact guarded_pure trivial

theorem points_many {item : Parse (Option α)} (isItem : Points text item) (fuel : Nat) :
    Points text (many fuel item) := by
  induction fuel with
  | zero => exact points_outOfFuel
  | succ fuel ih =>
      refine Guarded.bind isItem fun found isFound => ?_
      cases found with
      | none => exact guarded_pure located_nil
      | some first =>
          refine Guarded.bind ih fun others areOthers => ?_
          exact guarded_pure (located_cons.2 ⟨located_some.1 isFound, areOthers⟩)

/-! ### Expressions -/

theorem points_operation? {operator? : TokenKind → Option BinaryOp} {operand : Parse Expr}
    (isOperand : Points text operand) : Points text (operation? operator? operand) := by
  refine Guarded.bind points_kind fun found _ => ?_
  split
  · exact guarded_pure located_none
  · refine Guarded.bind points_advance fun token isToken => ?_
    refine Guarded.bind isOperand fun right isRight => ?_
    exact guarded_pure (located_some.2 ⟨trivial, isToken, isRight⟩)

theorem within_chain {good : Position → Prop} {left : Expr} (isLeft : left.Within good)
    {operations : List (BinaryOp × Position × Expr)}
    (areOperations : Located.within good operations) : (chain left operations).Within good := by
  induction operations generalizing left with
  | nil => exact isLeft
  | cons first others ih =>
      obtain ⟨⟨-, isPosition, isRight⟩, areOthers⟩ := located_cons.1 areOperations
      have isFirst : (Expr.binary first.1 left first.2.2 first.2.1).Within good :=
        ⟨isLeft, isRight, isPosition⟩
      exact ih isFirst areOthers

theorem points_operations (fuel : Nat) {operator? : TokenKind → Option BinaryOp}
    {first operand : Parse Expr} (isFirst : Points text first) (isOperand : Points text operand) :
    Points text (operations fuel operator? first operand) := by
  refine Guarded.bind isFirst fun left isLeft => ?_
  refine Guarded.bind (points_many (points_operation? isOperand) fuel) fun others areOthers => ?_
  exact guarded_pure (within_chain isLeft areOthers)

section

variable {nested : Grammar → Parse Expr} (isNested : ∀ grammar, Points text (nested grammar))
include isNested

theorem points_element {array : Token} (isArray : Located.within (PointsInto text) array) :
    Points text (element nested array) := by
  refine Guarded.bind points_advance fun _ _ => ?_
  refine Guarded.bind (isNested .arithmetic) fun index isIndex => ?_
  refine Guarded.bind (points_expect .rightBracket) fun _ _ => ?_
  exact guarded_pure ⟨isIndex, isArray⟩

theorem points_assignable : Points text (assignable nested) := by
  refine Guarded.bind (points_expect .ident) fun token isToken => ?_
  refine Guarded.bind points_kind fun found _ => ?_
  split
  · exact points_element isNested isToken
  · exact guarded_pure isToken

omit isNested in
theorem points_literal : Points text literal := by
  refine Guarded.bind points_kind fun found _ => ?_
  have quoted : Points text (do
      let position ← position
      let text ← draw Lexer.rawText
      let _ ← advance
      let _ ← expect .apostrophe
      return Expr.literal text position) := by
    refine Guarded.bind points_position fun start isStart => ?_
    refine Guarded.bind points_rawText fun _ _ => ?_
    refine Guarded.bind points_advance fun _ _ => ?_
    refine Guarded.bind (points_expect .apostrophe) fun _ _ => ?_
    exact guarded_pure isStart
  split
  · exact Guarded.bind (points_unexpected (α := Unit) .apostrophe) fun _ _ => quoted
  · exact quoted

theorem points_argument (callee : String) : Points text (argument nested callee) := by
  unfold argument
  split
  · exact points_assignable isNested
  · exact points_assignable isNested
  · exact isNested .arithmetic

omit isNested in
theorem points_argumentList (fuel : Nat) {item : Parse Expr} (isItem : Points text item) :
    Points text (argumentList fuel item) := by
  refine Guarded.bind points_kind fun found _ => ?_
  have further : Points text (do
      if (← kind) = .rightParen then return none
      let _ ← expect .comma
      return some (← item)) := by
    refine Guarded.bind points_kind fun found _ => ?_
    split
    · exact guarded_pure located_none
    · refine Guarded.bind (points_expect .comma) fun _ _ => ?_
      exact Guarded.bind isItem fun next isNext => guarded_pure (located_some.2 isNext)
  split
  · exact guarded_pure located_nil
  · refine Guarded.bind isItem fun first isFirst => ?_
    refine Guarded.bind (points_many further fuel) fun others areOthers => ?_
    exact guarded_pure (located_cons.2 ⟨isFirst, areOthers⟩)

theorem points_arguments (fuel : Nat) (callee : String) :
    Points text (arguments fuel nested callee) := by
  have close (found : List Expr) (areFound : Located.within (PointsInto text) found) :
      Points text (do
        let _ ← expect .rightParen
        return found) :=
    Guarded.bind (points_expect .rightParen) fun _ _ => guarded_pure areFound
  refine Guarded.bind (points_expect .leftParen) fun _ _ => ?_
  split
  · refine Guarded.bind points_literal fun only isOnly => ?_
    exact close [only] (located_cons.2 ⟨isOnly, located_nil⟩)
  · exact Guarded.bind (points_argumentList fuel (points_argument isNested callee)) close

theorem points_factor (fuel : Nat) (grammar : Grammar) :
    Points text (factor fuel nested grammar) := by
  refine Guarded.bind points_kind fun found _ => ?_
  split
  · refine Guarded.bind points_advance fun token isToken => ?_
    refine Guarded.bind points_kind fun found _ => ?_
    split
    · exact points_element isNested isToken
    · refine Guarded.bind (points_arguments isNested fuel token.text) fun found areFound => ?_
      exact guarded_pure ⟨Expr.allWithin_iff.2 areFound, isToken⟩
    · exact guarded_pure isToken
  · exact Guarded.bind points_advance fun token isToken => guarded_pure isToken
  · refine Guarded.bind points_advance fun _ _ => ?_
    refine Guarded.bind (isNested grammar) fun inner isInner => ?_
    exact Guarded.bind (points_expect .rightParen) fun _ _ => guarded_pure isInner
  · exact points_cannotExpand .factor

theorem points_term (fuel : Nat) (grammar : Grammar) : Points text (term fuel nested grammar) :=
  points_operations fuel (points_factor isNested fuel grammar) (points_factor isNested fuel grammar)

theorem points_signedTerm (fuel : Nat) (grammar : Grammar) :
    Points text (signedTerm fuel nested grammar) := by
  refine Guarded.bind points_kind fun found _ => ?_
  split
  · refine Guarded.bind points_advance fun token isToken => ?_
    refine Guarded.bind (points_term isNested fuel grammar) fun operand isOperand => ?_
    exact guarded_pure ⟨isOperand, isToken⟩
  · exact points_term isNested fuel grammar

theorem points_sum (fuel : Nat) (grammar : Grammar) : Points text (sum fuel nested grammar) :=
  points_operations fuel (points_signedTerm isNested fuel grammar)
    (points_term isNested fuel grammar)

theorem points_comparison (fuel : Nat) : Points text (comparison fuel nested) := by
  refine Guarded.bind (points_sum isNested fuel .condition) fun left isLeft => ?_
  refine Guarded.bind (points_operation? (points_sum isNested fuel .condition)) fun found isFound => ?_
  cases found with
  | none => exact guarded_pure isLeft
  | some operation =>
      have isOperation := located_cons.2 ⟨located_some.1 isFound, located_nil⟩
      exact guarded_pure (within_chain isLeft isOperation)

theorem points_negation (fuel depth : Nat) : Points text (negation fuel nested depth) := by
  induction depth with
  | zero => exact points_outOfFuel
  | succ depth ih =>
      refine Guarded.bind points_kind fun found _ => ?_
      split
      · refine Guarded.bind points_advance fun token isToken => ?_
        exact Guarded.bind ih fun operand isOperand => guarded_pure ⟨isOperand, isToken⟩
      · exact points_comparison isNested fuel

theorem points_disjunction (fuel : Nat) : Points text (disjunction fuel nested) := by
  have isConjunction : Points text (conjunction fuel nested) :=
    points_operations fuel (points_negation isNested fuel fuel) (points_negation isNested fuel fuel)
  exact points_operations fuel isConjunction isConjunction

end

theorem points_nested (fuel : Nat) (grammar : Grammar) : Points text (nested fuel grammar) := by
  induction fuel generalizing grammar with
  | zero => exact points_outOfFuel
  | succ fuel ih =>
      cases grammar with
      | arithmetic => exact points_sum ih (fuel + 1) .arithmetic
      | condition => exact points_disjunction ih (fuel + 1)

theorem points_expression (fuel : Nat) : Points text (expression fuel) :=
  points_nested fuel .arithmetic

theorem points_condition (fuel : Nat) : Points text (condition fuel) :=
  points_nested fuel .condition

/-! ### Statements -/

theorem points_separator : Points text separator := by
  refine Guarded.bind points_kind fun found _ => ?_
  split
  · exact guarded_pure trivial
  · exact guarded_pure trivial
  · exact Guarded.bind (points_expect .semicolon) fun _ _ => guarded_pure trivial

theorem points_assignTo (fuel : Nat) {target : Expr}
    (isTarget : Located.within (PointsInto text) target) : Points text (assignTo fuel target) := by
  refine Guarded.bind (points_expect .assign) fun sign isSign => ?_
  refine Guarded.bind (points_expression fuel) fun value isValue => ?_
  exact guarded_pure ⟨isTarget, isValue, isSign⟩

theorem points_identStatement (fuel : Nat) : Points text (identStatement fuel) := by
  refine Guarded.bind points_advance fun token isToken => ?_
  refine Guarded.bind points_kind fun found _ => ?_
  split
  · have isTarget : Located.within (PointsInto text) (Expr.ident token.text token.position) := isToken
    exact Guarded.bind (points_assignTo fuel isTarget) fun _ isAssignment => guarded_pure isAssignment
  · refine Guarded.bind (points_element (points_nested fuel) isToken) fun target isTarget => ?_
    exact Guarded.bind (points_assignTo fuel isTarget) fun _ isAssignment => guarded_pure isAssignment
  · refine Guarded.bind (points_arguments (points_nested fuel) fuel token.text) fun found areFound => ?_
    exact guarded_pure ⟨areFound, isToken⟩
  iterate 3 exact guarded_pure ⟨located_nil, isToken⟩
  · exact points_throw isToken

theorem points_breakStatement (loop : Option LoopId) : Points text (breakStatement loop) := by
  refine Guarded.bind points_advance fun token isToken => ?_
  cases loop with
  | some loop => exact guarded_pure isToken
  | none => exact points_throw isToken

theorem points_blockStatement (fuel : Nat) {inner : Parse Statement} (isInner : Points text inner) :
    Points text (blockStatement fuel inner) := by
  refine Guarded.bind (points_expect .beginWord) fun _ _ => ?_
  refine Guarded.bind (points_many ?item fuel) fun statements areStatements => ?_
  case item =>
    refine Guarded.bind points_kind fun found _ => ?_
    split
    · exact guarded_pure located_none
    · exact points_unexpected .endWord
    · exact Guarded.bind isInner fun next isNext => guarded_pure (located_some.2 isNext)
  refine Guarded.bind points_advance fun _ _ => ?_
  refine Guarded.bind points_separator fun _ _ => ?_
  exact guarded_pure (Statement.allWithin_iff.2 areStatements)

theorem points_ifStatement (fuel : Nat) {inner : Parse Statement} (isInner : Points text inner) :
    Points text (ifStatement fuel inner) := by
  refine Guarded.bind points_advance fun token isToken => ?_
  refine Guarded.bind (points_condition fuel) fun condition isCondition => ?_
  refine Guarded.bind (points_expect .thenWord) fun _ _ => ?_
  refine Guarded.bind isInner fun holds isHolds => ?_
  refine Guarded.bind points_kind fun found _ => ?_
  split
  · refine Guarded.bind points_advance fun _ _ => ?_
    refine Guarded.bind isInner fun fails isFails => ?_
    exact guarded_pure ⟨isCondition, isHolds, isFails, isToken⟩
  · exact guarded_pure ⟨isCondition, isHolds, isToken⟩

theorem points_whileStatement (fuel : Nat) {inner : LoopId → Parse Statement}
    (isInner : ∀ id, Points text (inner id)) : Points text (whileStatement fuel inner) := by
  refine Guarded.bind points_advance fun token isToken => ?_
  refine Guarded.bind (points_condition fuel) fun condition isCondition => ?_
  refine Guarded.bind (points_expect .doWord) fun _ _ => ?_
  refine Guarded.bind points_freshLoop fun id _ => ?_
  refine Guarded.bind (isInner id) fun body isBody => ?_
  exact guarded_pure ⟨isCondition, isBody, isToken⟩

theorem points_direction : Points text direction := by
  refine Guarded.bind points_kind fun found _ => ?_
  split
  · exact Guarded.bind points_advance fun _ _ => guarded_pure trivial
  · exact Guarded.bind points_advance fun _ _ => guarded_pure trivial
  · exact points_unexpected .toWord

theorem points_forStatement (fuel : Nat) {inner : LoopId → Parse Statement}
    (isInner : ∀ id, Points text (inner id)) : Points text (forStatement fuel inner) := by
  refine Guarded.bind points_advance fun token isToken => ?_
  refine Guarded.bind (points_expect .ident) fun counter isCounter => ?_
  have isTarget : Located.within (PointsInto text) (Expr.ident counter.text counter.position) :=
    isCounter
  refine Guarded.bind (points_assignTo fuel isTarget) fun initial isInitial => ?_
  refine Guarded.bind points_direction fun direction _ => ?_
  refine Guarded.bind (points_expression fuel) fun limit isLimit => ?_
  refine Guarded.bind (points_expect .doWord) fun _ _ => ?_
  refine Guarded.bind points_freshLoop fun id _ => ?_
  refine Guarded.bind (isInner id) fun body isBody => ?_
  exact guarded_pure ⟨isInitial, isLimit, isBody, isToken⟩

theorem points_statementWith (fuel : Nat) {inner : Option LoopId → Parse Statement}
    (isInner : ∀ loop, Points text (inner loop)) (loop : Option LoopId) :
    Points text (statementWith fuel inner loop) := by
  have found {rule : Parse Statement} (isRule : Points text rule) :
      Points text (do return some (← rule)) :=
    Guarded.bind isRule fun statement isStatement => guarded_pure (located_some.2 isStatement)
  have separated {rule : Parse Statement} (isRule : Points text rule) :
      Points text (do
        let statement ← rule
        separator
        return some statement) :=
    Guarded.bind isRule fun statement isStatement =>
      Guarded.bind points_separator fun _ _ => guarded_pure (located_some.2 isStatement)
  refine Guarded.bind points_kind fun kind _ => ?_
  split
  · exact found (points_ifStatement fuel (isInner loop))
  · exact found (points_whileStatement fuel fun id => isInner (some id))
  · exact found (points_forStatement fuel fun id => isInner (some id))
  · exact found (points_blockStatement fuel (isInner loop))
  · exact separated (points_identStatement fuel)
  · exact separated (points_breakStatement loop)
  · exact guarded_pure located_none

theorem points_required {statement? : Parse (Option Statement)}
    (isStatement : Points text statement?) : Points text (required statement?) := by
  refine Guarded.bind isStatement fun found isFound => ?_
  cases found with
  | some statement => exact guarded_pure (located_some.1 isFound)
  | none => exact points_cannotExpand .statement

theorem points_statement? (fuel : Nat) (loop : Option LoopId) :
    Points text (statement? fuel loop) := by
  induction fuel generalizing loop with
  | zero => exact points_outOfFuel
  | succ fuel ih =>
      exact points_statementWith (fuel + 1) (fun loop => points_required (ih loop)) loop

/-! ### Declarations -/

theorem points_ordinaryType : Points text ordinaryType := by
  refine Guarded.bind points_current fun token isToken => ?_
  split
  · exact Guarded.bind points_advance fun _ _ => guarded_pure trivial
  · split
    · exact points_throw isToken
    · exact points_throw isToken

theorem points_dataType (fuel : Nat) : Points text (dataType fuel) := by
  refine Guarded.bind points_current fun token isToken => ?_
  split
  · refine Guarded.bind points_advance fun _ _ => ?_
    refine Guarded.bind (points_expect .leftBracket) fun _ _ => ?_
    refine Guarded.bind (points_expression fuel) fun low isLow => ?_
    refine Guarded.bind (points_expect .dot) fun _ _ => ?_
    refine Guarded.bind (points_expect .dot) fun _ _ => ?_
    refine Guarded.bind (points_expression fuel) fun high isHigh => ?_
    refine Guarded.bind (points_expect .rightBracket) fun _ _ => ?_
    refine Guarded.bind (points_expect .ofWord) fun _ _ => ?_
    refine Guarded.bind points_ordinaryType fun _ _ => ?_
    exact guarded_pure ⟨isLow, isHigh⟩
  · exact points_ordinaryType

theorem points_varGroup (fuel : Nat) {type : Parse DataType} (isType : Points text type)
    {first : Token} (isFirst : Located.within (PointsInto text) first) :
    Points text (varGroup fuel type first) := by
  have further : Points text (do
      if (← kind) = .comma then
        let _ ← advance
        return some (← name)
      else return none) := by
    refine Guarded.bind points_kind fun found _ => ?_
    split
    · refine Guarded.bind points_advance fun _ _ => ?_
      exact Guarded.bind points_name fun _ _ => guarded_pure (located_some.2 trivial)
    · exact guarded_pure located_none
  refine Guarded.bind (points_many further fuel) fun _ _ => ?_
  refine Guarded.bind (points_expect .colon) fun _ _ => ?_
  exact Guarded.bind isType fun made isMade => guarded_pure ⟨isMade, isFirst⟩

theorem points_nextVarGroup? (fuel : Nat) : Points text (nextVarGroup? fuel) := by
  have group {token : Token} (isToken : Located.within (PointsInto text) token) :
      Points text (do return some (← varGroup fuel (dataType fuel) token)) :=
    Guarded.bind (points_varGroup fuel (points_dataType fuel) isToken) fun made isMade =>
      guarded_pure (located_some.2 isMade)
  refine Guarded.bind (points_expect .semicolon) fun _ _ => ?_
  refine Guarded.bind points_kind fun found _ => ?_
  split
  · exact guarded_pure located_none
  · refine Guarded.bind points_advance fun token isToken => ?_
    refine Guarded.bind points_kind fun found _ => ?_
    split
    · exact group isToken
    · exact group isToken
    · exact Guarded.bind (points_backtrack isToken) fun _ _ => guarded_pure located_none

theorem points_varBlock (fuel : Nat) : Points text (varBlock fuel) := by
  refine Guarded.bind (points_expect .varWord) fun _ _ => ?_
  refine Guarded.bind (points_expect .ident) fun first isFirst => ?_
  refine Guarded.bind (points_varGroup fuel (points_dataType fuel) isFirst) fun group isGroup => ?_
  refine Guarded.bind (points_many (points_nextVarGroup? fuel) fuel) fun groups areGroups => ?_
  refine guarded_pure fun statement isIn => ?_
  obtain ⟨made, isMade, rfl⟩ := List.mem_map.1 isIn
  exact located_cons.2 ⟨isGroup, areGroups⟩ made isMade

theorem points_constantItem (fuel : Nat) {token : Token}
    (isToken : Located.within (PointsInto text) token) : Points text (constantItem fuel token) := by
  refine Guarded.bind (points_expect .equal) fun _ _ => ?_
  refine Guarded.bind (points_expression fuel) fun value isValue => ?_
  refine Guarded.bind (points_expect .semicolon) fun _ _ => ?_
  exact guarded_pure ⟨isValue, isToken⟩

theorem points_nextConstant? (fuel : Nat) : Points text (nextConstant? fuel) := by
  refine Guarded.bind points_kind fun found _ => ?_
  split
  · exact guarded_pure located_none
  · refine Guarded.bind points_advance fun token isToken => ?_
    refine Guarded.bind points_kind fun found _ => ?_
    split
    · exact Guarded.bind (points_constantItem fuel isToken) fun made isMade =>
        guarded_pure (located_some.2 isMade)
    · exact Guarded.bind (points_backtrack isToken) fun _ _ => guarded_pure located_none

theorem points_constBlock (fuel : Nat) : Points text (constBlock fuel) := by
  refine Guarded.bind (points_expect .constWord) fun _ _ => ?_
  refine Guarded.bind (points_expect .ident) fun token isToken => ?_
  refine Guarded.bind (points_constantItem fuel isToken) fun first isFirst => ?_
  refine Guarded.bind (points_many (points_nextConstant? fuel) fuel) fun others areOthers => ?_
  exact guarded_pure (located_cons.2 ⟨isFirst, areOthers⟩)

theorem points_storageBlock? (fuel : Nat) : Points text (storageBlock? fuel) := by
  refine Guarded.bind points_kind fun found _ => ?_
  split
  · exact Guarded.bind (points_varBlock fuel) fun made isMade => guarded_pure (located_some.2 isMade)
  · exact Guarded.bind (points_constBlock fuel) fun made isMade => guarded_pure (located_some.2 isMade)
  · exact guarded_pure located_none

theorem points_parameterGroup (fuel : Nat) : Points text (parameterGroup fuel) :=
  Guarded.bind (points_expect .ident) fun _ isFirst =>
    points_varGroup fuel points_ordinaryType isFirst

theorem points_parameters (fuel : Nat) : Points text (parameters fuel) := by
  have further : Points text (do
      if (← kind) = .semicolon then
        let _ ← advance
        return some (← parameterGroup fuel)
      else return none) := by
    refine Guarded.bind points_kind fun found _ => ?_
    split
    · refine Guarded.bind points_advance fun _ _ => ?_
      exact Guarded.bind (points_parameterGroup fuel) fun made isMade =>
        guarded_pure (located_some.2 isMade)
    · exact guarded_pure located_none
  refine Guarded.bind (points_expect .leftParen) fun _ _ => ?_
  refine Guarded.bind points_kind fun found _ => ?_
  split
  · exact Guarded.bind points_advance fun _ _ => guarded_pure located_nil
  · refine Guarded.bind (points_parameterGroup fuel) fun first isFirst => ?_
    refine Guarded.bind (points_many further fuel) fun others areOthers => ?_
    refine Guarded.bind (points_expect .rightParen) fun _ _ => ?_
    exact guarded_pure (located_cons.2 ⟨isFirst, areOthers⟩)

theorem points_heading (fuel : Nat) : Points text (heading fuel) := by
  refine Guarded.bind points_advance fun keyword isKeyword => ?_
  refine Guarded.bind points_name fun name _ => ?_
  have result (groups : List VarGroup) (areGroups : Located.within (PointsInto text) groups) :
      Points text (do
        if keyword.kind = .procedureWord then
          return (⟨name, groups, none, keyword.position⟩ : Heading)
        let _ ← expect .colon
        return ⟨name, groups, some (← ordinaryType), keyword.position⟩) := by
    split
    · exact guarded_pure ⟨areGroups, located_none, isKeyword⟩
    · refine Guarded.bind (points_expect .colon) fun _ _ => ?_
      refine Guarded.bind points_ordinaryType fun type isType => ?_
      exact guarded_pure ⟨areGroups, located_some.2 isType, isKeyword⟩
  refine Guarded.bind points_kind fun found _ => ?_
  by_cases isParen : found = .leftParen
  · rw [if_pos isParen]
    exact Guarded.bind (points_parameters fuel) result
  · rw [if_neg isParen]
    exact result [] located_nil

theorem points_actions (fuel : Nat) : Points text (actions fuel) := by
  refine Guarded.bind (points_expect .beginWord) fun token isToken => ?_
  refine Guarded.bind (points_many (points_statement? fuel none) fuel) fun statements areStatements => ?_
  refine Guarded.bind (points_expect .endWord) fun _ _ => ?_
  exact guarded_pure ⟨isToken, areStatements⟩

theorem points_callable (fuel : Nat) : Points text (callable fuel) := by
  refine Guarded.bind (points_heading fuel) fun heading isHeading => ?_
  refine Guarded.bind (points_expect .semicolon) fun _ _ => ?_
  refine Guarded.bind points_kind fun found _ => ?_
  split
  · refine Guarded.bind points_advance fun _ _ => ?_
    refine Guarded.bind (points_expect .semicolon) fun _ _ => ?_
    exact guarded_pure isHeading
  · refine Guarded.bind (points_many (points_storageBlock? fuel) fuel) fun blocks areBlocks => ?_
    refine Guarded.bind (points_actions fuel) fun body isBody => ?_
    refine Guarded.bind (points_expect .semicolon) fun _ _ => ?_
    exact guarded_pure
      ⟨isHeading, Statement.allWithin_iff.2 (located_append (located_flatten areBlocks) isBody.2)⟩

theorem points_programHeader : Points text programHeader := by
  refine Guarded.bind points_kind fun found _ => ?_
  split
  · refine Guarded.bind points_advance fun _ _ => ?_
    refine Guarded.bind points_name fun _ _ => ?_
    refine Guarded.bind (points_expect .semicolon) fun _ _ => ?_
    exact guarded_pure (located_cons.2 ⟨trivial, located_nil⟩)
  · exact guarded_pure located_nil

theorem points_topLevel? (fuel : Nat) : Points text (topLevel? fuel) := by
  have only : Points text (do return some [← callable fuel]) :=
    Guarded.bind (points_callable fuel) fun made isMade =>
      guarded_pure (located_some.2 (located_cons.2 ⟨isMade, located_nil⟩))
  refine Guarded.bind points_kind fun found _ => ?_
  split
  · exact only
  · exact only
  · exact points_storageBlock? fuel

theorem points_programWith (fuel : Nat) : Points text (programWith fuel) := by
  refine Guarded.bind points_programHeader fun header isHeader => ?_
  refine Guarded.bind (points_many (points_topLevel? fuel) fuel) fun items areItems => ?_
  refine Guarded.bind (points_actions fuel) fun body isBody => ?_
  refine Guarded.bind (points_expect .dot) fun _ _ => ?_
  refine Guarded.bind (points_expect .endOfInput) fun _ _ => ?_
  refine guarded_pure (located_append (located_append isHeader (located_flatten areItems)) ?_)
  have isMain : Located.within (PointsInto text) (mainCallable body.1 body.2) :=
    ⟨⟨located_nil, located_some.2 trivial, isBody.1⟩, Statement.allWithin_iff.2 isBody.2⟩
  exact located_cons.2 ⟨isMain, located_nil⟩

end Parse

end MiniPascal
