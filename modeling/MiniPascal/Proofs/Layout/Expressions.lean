import MiniPascal.Proofs.Layout.Basic

/-!
# Expressions in two layouts

The steps that parse expressions agree for all parsers that stand alike, one lemma for every rule.
What is nested in a rule has a lexeme less in front of it, which pays for the fuel.
-/

namespace MiniPascal

namespace Parse

open MiniPascal.Parser

/-! ### Literal text -/

theorem takes_literal {parser : Parser} (settled : parser.Settled)
    (isQuote : parser.current.kind = .apostrophe) :
    Takes (fun whole => Expr.literal whole.text .nowhere) parser (literal parser) := by
  have noneReturned : parser.lexer.returned = [] := by
    rcases settled with isNil | ⟨-, isName⟩
    · exact isNil
    · cases isQuote.symm.trans isName
  have isLiteral : literal parser = (do
      let text ← draw Lexer.rawText
      let _ ← advance
      let _ ← expect .apostrophe
      return .literal text parser.current.position : Parse Expr) parser := by
    rw [literal, kind_bind_apply, kind_input, isQuote]
    rfl
  rw [isLiteral]
  -- a text without its closing quote fails in the lexer, and its lexemes end here
  cases isText : parser.lexer.rawText with
  | error error lexer =>
      rw [bind_of_error _ (draw_of_error isText)]
      have isNone : parser.lexer.complete parser.current = none := by
        simp [Lexer.complete, isQuote, isText]
      refine .error ?_ ?_
      · rw [Parser.lexemes, Lexer.lexemesFrom, isNone]
        rfl
      · rw [Parser.ending, Lexer.endingFrom, isNone]
        simp [Lexer.fault, isQuote, isText]
  | ok text inner =>
      obtain ⟨quote, rest, isNext, isClosing, restReturned⟩ :=
        Lexer.next_of_rawText noneReturned isText
      have completed := (complete_eq_some isQuote).2
        ⟨text, inner, quote, isText, isNext, isClosing, rfl⟩
      have isDrawn : draw Lexer.rawText parser = .ok text { parser with lexer := inner } :=
        draw_eq_ok.2 ⟨inner, isText, rfl⟩
      have isPassed : advance { parser with lexer := inner } =
          .ok parser.current ⟨rest, quote, parser.nextLoop⟩ :=
        advance_eq_ok.2 ⟨quote, rest, isNext, rfl, rfl⟩
      rw [bind_of_ok _ isDrawn, bind_of_ok _ isPassed]
      have isCons : parser.lexemes = { parser.current with text := text } :: rest.lexemes := by
        rw [Parser.lexemes, Lexer.lexemesFrom, completed]
      have ends : parser.ending = rest.ending := by
        rw [Parser.ending, Lexer.endingFrom, completed]
      have isExpect : expect .apostrophe ⟨rest, quote, parser.nextLoop⟩ =
          advance ⟨rest, quote, parser.nextLoop⟩ := by
        rw [expect, kind_bind_apply, kind_input, if_pos isClosing]
      -- behind the closing quote the next token is drawn, which may fail
      cases isLast : rest.next with
      | ok token lexer =>
          have isOk : expect .apostrophe ⟨rest, quote, parser.nextLoop⟩ =
              .ok quote ⟨lexer, token, parser.nextLoop⟩ :=
            isExpect.trans (advance_eq_ok.2 ⟨token, lexer, isLast, rfl, rfl⟩)
          rw [bind_of_ok _ isOk]
          refine .ok { parser.current with text := text } ?_ rfl ?_ ?_ rfl
          · rw [isCons, Lexer.lexemes_of_next isLast]
            rfl
          · rw [ends, Lexer.ending_of_next isLast]
            rfl
          · rw [Lexer.returned_next isLast, restReturned]
            rfl
      | error error lexer =>
          rw [bind_of_error _ (isExpect.trans (advance_of_error isLast))]
          refine .error ?_ ?_
          · rw [isCons, Lexer.lexemes_of_error isLast]
            rfl
          · rw [ends, Lexer.ending_of_error isLast]

theorem literal_of_ne {parser : Parser} (notQuote : parser.current.kind ≠ .apostrophe) :
    literal parser =
      .error (.expected .apostrophe parser.current.kind parser.current.position) parser := by
  rw [literal, kind_bind_apply, kind_input, if_pos notQuote]
  rfl

theorem agree_literal {size : Nat} : Agree 1 size anyKind literal literal := by
  intro first second alike bounded _
  by_cases isQuote : first.current.kind = .apostrophe
  · have agree : Agree 1 size (· = .apostrophe) literal literal :=
      agree_of_takes fun _ => takes_literal
    exact agree first second alike bounded isQuote
  · rw [literal_of_ne isQuote, literal_of_ne (alike.kind ▸ isQuote)]
    exact .error (by simp [ParseError.bare, alike.kind]) (by simp)

/-! ### Operations of one level -/

section

variable {size fuel fuel' : Nat} {operator? : TokenKind → Option BinaryOp}
  {first first' operand operand' : Parse Expr}

theorem agree_operation (ordinary : AreOrdinary operator?)
    (agree : Agree 0 size anyKind operand operand') {kind : TokenKind} {op : BinaryOp}
    (isOp : operator? kind = some op) :
    Agree 1 (size + 1) (· = kind) (do
        let token ← advance
        let right ← operand
        return some (op, token.position, right)) (do
        let token ← advance
        let right ← operand'
        return some (op, token.position, right)) :=
  (agree_advance kind (ordinary.isOrdinary (isOp ▸ Option.some_ne_none op))).bindFewer
    fun _ _ _ => agree.bind fun _ _ same => agree_pure
      (congrArg (fun right => some (op, Position.nowhere, right)) same)

theorem agree_operation? (ordinary : AreOrdinary operator?)
    (agree : Agree 0 size anyKind operand operand') :
    Agree 0 (size + 1) anyKind (operation? operator? operand) (operation? operator? operand') := by
  refine agree_kind fun kind _ => ?_
  cases isOp : operator? kind with
  | none => exact agree_pure rfl
  | some op => exact (agree_operation ordinary agree isOp).weaken

theorem bare_chain_congr {left left' : Expr} {operations operations' : List (BinaryOp × Position × Expr)}
    (same : Placed.bare left = Placed.bare left')
    (same' : Placed.bare operations = Placed.bare operations') :
    Placed.bare (chain left operations) = Placed.bare (chain left' operations') := by
  rw [bare_chain, bare_chain, same, same']

theorem agree_operations (le : size + 1 ≤ fuel) (le' : size + 1 ≤ fuel')
    (ordinary : AreOrdinary operator?) (head : Agree 1 (size + 1) anyKind first first')
    (agree : Agree 0 size anyKind operand operand') :
    Agree 1 (size + 1) anyKind (operations fuel operator? first operand)
      (operations fuel' operator? first' operand') := by
  refine head.bind fun left left' same => ?_
  refine Agree.bind (agree_many_kind (fun kind => operator? kind = none) le le'
    (fun kind isNone => by rw [isNone]; exact ⟨rfl, rfl⟩) fun kind isOperator => ?_)
    fun others others' same' => agree_pure (bare_chain_congr same same')
  obtain ⟨op, isOp⟩ := Option.ne_none_iff_exists'.1 isOperator
  rw [isOp]
  exact agree_operation ordinary agree isOp

end

/-! ### What is nested -/

theorem bare_call {callee : String} {arguments arguments' : List Expr} {position position' : Position}
    (same : Placed.bare arguments = Placed.bare arguments') :
    Placed.bare (Expr.call callee arguments position) =
      Placed.bare (Expr.call callee arguments' position') := by
  change Expr.call callee (Expr.bareAll arguments) .nowhere = .call callee (Expr.bareAll arguments') .nowhere
  rw [Expr.bareAll_eq, Expr.bareAll_eq, same]

section

variable {size fuel fuel' : Nat} {nested nested' : Grammar → Parse Expr}
  (inner : ∀ grammar, Agree 0 size anyKind (nested grammar) (nested' grammar))

include inner

theorem agree_element {array array' : Token} (same : Placed.bare array = Placed.bare array') :
    Agree 1 (size + 1) (· = .leftBracket) (element nested array) (element nested' array') := by
  refine (agree_advance .leftBracket (by decide)).bindFewer fun _ _ _ =>
    (inner .arithmetic).bind fun _ _ same' =>
      (agree_expect .rightBracket (by decide)).weaken.bind fun _ _ _ => agree_pure ?_
  change Expr.element array.text (Placed.bare _) .nowhere = .element array'.text (Placed.bare _) .nowhere
  rw [bare_text same, same']

theorem agree_assignable : Agree 1 (size + 1) anyKind (assignable nested) (assignable nested') := by
  have name : Agree 1 (size + 1) anyKind (expect .ident) (expect .ident) :=
    agree_expect .ident (by decide)
  refine name.bind fun token token' same => agree_kind fun kind _ => ?_
  by_cases isBracket : kind = .leftBracket
  · subst isBracket
    rw [if_pos rfl, if_pos rfl]
    exact (agree_element inner same).weaken
  · rw [if_neg isBracket, if_neg isBracket]
    exact agree_pure (congrArg (Expr.ident · .nowhere) (bare_text same))

theorem agree_argument (callee : String) :
    Agree 0 size anyKind (argument nested callee) (argument nested' callee) := by
  have place := (agree_assignable inner).weaken.atSize (Nat.le_succ size)
  unfold argument
  split
  · exact place
  · exact place
  · exact inner .arithmetic

omit inner in
theorem agree_argumentList {item item' : Parse Expr} (le : size + 1 ≤ fuel) (le' : size + 1 ≤ fuel')
    (agree : Agree 0 size anyKind item item') :
    Agree 0 size anyKind (argumentList fuel item) (argumentList fuel' item') := by
  refine agree_kind fun front _ => ?_
  by_cases isEnd : front = .rightParen
  · rw [if_pos isEnd, if_pos isEnd]
    exact agree_pure rfl
  rw [if_neg isEnd, if_neg isEnd]
  refine agree.ofAny.bind fun first first' same => ?_
  have loop : Agree 0 (size + 1) anyKind (many fuel do
      if (← kind) = .rightParen then return none
      let _ ← expect .comma
      return some (← item)) (many fuel' do
      if (← kind) = .rightParen then return none
      let _ ← expect .comma
      return some (← item')) := by
    refine agree_many_kind (· = .rightParen) le le' (fun kind isEnd => ?_)
      fun kind notEnd => ?_
    · rw [if_pos isEnd, if_pos isEnd]
      exact ⟨rfl, rfl⟩
    · rw [if_neg notEnd, if_neg notEnd]
      exact (agree_expect .comma (by decide)).bindFewer fun _ _ _ => agree.bind fun _ _ same =>
        agree_pure (congrArg some same)
  exact (loop.atSize (Nat.le_succ size)).bind fun _ _ same' => agree_pure (bare_cons same same')

theorem agree_arguments (le : size + 1 ≤ fuel) (le' : size + 1 ≤ fuel') (callee : String) :
    Agree 1 (size + 1) anyKind (arguments fuel nested callee) (arguments fuel' nested' callee) := by
  refine (agree_expect .leftParen (by decide)).bindFewer fun _ _ _ => ?_
  have close {passed passed' : List Expr} (same : Placed.bare passed = Placed.bare passed') :
      Agree 0 size anyKind (do
        let _ ← expect .rightParen
        return passed) (do
        let _ ← expect .rightParen
        return passed') :=
    (agree_expect .rightParen (by decide)).weaken.bind fun _ _ _ => agree_pure same
  by_cases isWrite : Builtin.ofName? callee = some .write
  · rw [if_pos isWrite, if_pos isWrite]
    simpa only [bind_assoc, pure_bind] using
      agree_literal.weaken.bind fun text text' same => close (bare_cons same rfl)
  · rw [if_neg isWrite, if_neg isWrite]
    exact (agree_argumentList le le' (agree_argument inner callee)).bind fun _ _ same => close same

theorem agree_factor (le : size + 1 ≤ fuel) (le' : size + 1 ≤ fuel') (grammar : Grammar) :
    Agree 1 (size + 1) anyKind (factor fuel nested grammar) (factor fuel' nested' grammar) := by
  refine agree_kind fun front _ => ?_
  cases front with
  | ident =>
      refine (agree_advance .ident (by decide)).bind fun token token' same =>
        agree_kind fun behind _ => ?_
      cases behind with
      | leftBracket => exact (agree_element inner same).weaken
      | leftParen =>
          rw [← bare_text same]
          exact (agree_arguments inner le le' token.text).weaken.ofAny.bind fun _ _ same' =>
            agree_pure (bare_call same')
      | _ => exact agree_pure (congrArg (Expr.ident · .nowhere) (bare_text same))
  | number =>
      exact (agree_advance .number (by decide)).bind fun _ _ same =>
        agree_pure (congrArg (Expr.number · .nowhere) (bare_value same))
  | leftParen =>
      exact (agree_advance .leftParen (by decide)).bindFewer fun _ _ _ =>
        (inner grammar).bind fun _ _ same =>
          (agree_expect .rightParen (by decide)).weaken.bind fun _ _ _ => agree_pure same
  | _ => exact agree_cannotExpand .factor

theorem agree_term (le : size + 1 ≤ fuel) (le' : size + 1 ≤ fuel') (grammar : Grammar) :
    Agree 1 (size + 1) anyKind (term fuel nested grammar) (term fuel' nested' grammar) :=
  have factor := agree_factor inner le le' grammar
  agree_operations le le' ⟨rfl, rfl⟩ factor (factor.weaken.atSize (Nat.le_succ size))

theorem agree_signedTerm (le : size + 1 ≤ fuel) (le' : size + 1 ≤ fuel') (grammar : Grammar) :
    Agree 1 (size + 1) anyKind (signedTerm fuel nested grammar)
      (signedTerm fuel' nested' grammar) := by
  have term := agree_term inner le le' grammar
  refine agree_kind fun front _ => ?_
  by_cases isMinus : front = .minus
  · subst isMinus
    rw [if_pos rfl, if_pos rfl]
    exact (agree_advance .minus (by decide)).bindFewer fun _ _ _ =>
      (term.weaken.atSize (Nat.le_succ size)).bind fun _ _ same =>
        agree_pure (congrArg (Expr.negate · .nowhere) same)
  · rw [if_neg isMinus, if_neg isMinus]
    exact term.ofAny

theorem agree_sum (le : size + 1 ≤ fuel) (le' : size + 1 ≤ fuel') (grammar : Grammar) :
    Agree 1 (size + 1) anyKind (sum fuel nested grammar) (sum fuel' nested' grammar) :=
  agree_operations le le' ⟨rfl, rfl⟩ (agree_signedTerm inner le le' grammar)
    ((agree_term inner le le' grammar).weaken.atSize (Nat.le_succ size))

theorem agree_comparison (le : size + 1 ≤ fuel) (le' : size + 1 ≤ fuel') :
    Agree 1 (size + 1) anyKind (comparison fuel nested) (comparison fuel' nested') := by
  have sum := agree_sum inner le le' .condition
  have ordinary : AreOrdinary BinaryOp.ofRelation? := ⟨rfl, rfl⟩
  have operation := agree_operation? ordinary (sum.weaken.atSize (Nat.le_succ size))
  refine sum.bind fun left left' same => operation.bind fun operation operation' same' => ?_
  cases operation with
  | none =>
      cases operation' with
      | none => exact agree_pure same
      | some operation' => cases same'
  | some operation =>
      cases operation' with
      | none => cases same'
      | some operation' =>
          exact agree_pure (bare_chain_congr same (bare_cons (Option.some.inj same') rfl))

theorem agree_negation {small depth depth' : Nat} (le : size + 1 ≤ fuel) (le' : size + 1 ≤ fuel')
    (deep : small ≤ depth) (deep' : small ≤ depth') (bounded : small ≤ size + 1) :
    Agree 1 small anyKind (negation fuel nested depth) (negation fuel' nested' depth') := by
  induction small generalizing depth depth' with
  | zero => exact agree_zero
  | succ small ih =>
      obtain ⟨depth, rfl⟩ := Nat.exists_eq_add_of_le' deep
      obtain ⟨depth', rfl⟩ := Nat.exists_eq_add_of_le' deep'
      refine agree_kind fun front _ => ?_
      by_cases isNot : front = .notWord
      · subst isNot
        rw [if_pos rfl, if_pos rfl]
        exact (agree_advance .notWord (by decide)).bindFewer fun _ _ _ =>
          (ih (Nat.le_add_left _ _) (Nat.le_add_left _ _) (by omega)).weaken.bind fun _ _ same =>
            agree_pure (congrArg (Expr.not · .nowhere) same)
      · rw [if_neg isNot, if_neg isNot]
        exact ((agree_comparison inner le le').atSize bounded).ofAny

theorem agree_disjunction (le : size + 1 ≤ fuel) (le' : size + 1 ≤ fuel') :
    Agree 1 (size + 1) anyKind (disjunction fuel nested) (disjunction fuel' nested') := by
  have negation := agree_negation inner le le' le le' (Nat.le_refl _)
  have conjunction : Agree 1 (size + 1) anyKind (conjunction fuel nested)
      (conjunction fuel' nested') :=
    agree_operations le le' ⟨rfl, rfl⟩ negation (negation.weaken.atSize (Nat.le_succ size))
  exact agree_operations le le' ⟨rfl, rfl⟩ conjunction
    (conjunction.weaken.atSize (Nat.le_succ size))

end

theorem agree_nested {size fuel fuel' : Nat} (le : size ≤ fuel) (le' : size ≤ fuel')
    (grammar : Grammar) : Agree 1 size anyKind (nested fuel grammar) (nested fuel' grammar) := by
  induction size generalizing fuel fuel' grammar with
  | zero => exact agree_zero
  | succ size ih =>
      obtain ⟨fuel, rfl⟩ := Nat.exists_eq_add_of_le' le
      obtain ⟨fuel', rfl⟩ := Nat.exists_eq_add_of_le' le'
      have inner (grammar : Grammar) : Agree 0 size anyKind (nested (fuel + size) grammar)
          (nested (fuel' + size) grammar) :=
        (ih (Nat.le_add_left _ _) (Nat.le_add_left _ _) grammar).weaken
      cases grammar with
      | arithmetic => exact agree_sum inner (Nat.le_add_left _ _) (Nat.le_add_left _ _) .arithmetic
      | condition => exact agree_disjunction inner (Nat.le_add_left _ _) (Nat.le_add_left _ _)

end Parse

end MiniPascal
