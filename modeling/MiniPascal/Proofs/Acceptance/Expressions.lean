import MiniPascal.Proofs.Acceptance.Basic
import MiniPascal.Proofs.Grammar.Expressions

/-!
# The parser of expressions reads the grammar of expressions

One lemma for every rule.  What is nested in a rule has a lexeme less in front of it than the rule
itself, which pays for the fuel.
-/

namespace MiniPascal

namespace Parse

/-! ### Literal text -/

theorem complete_eq_some {token whole : Token} {lexer rest : Lexer}
    (isQuote : token.kind = .apostrophe) :
    lexer.complete token = some (whole, rest) ↔ ∃ text inner quote,
      lexer.rawText = .ok text inner ∧ inner.next = .ok quote rest ∧ quote.kind = .apostrophe ∧
        { token with text := text } = whole := by
  rw [Lexer.complete, if_neg (by rw [isQuote]; decide), if_pos isQuote]
  constructor
  · intro completed
    split at completed
    · cases completed
    · rename_i text inner isText
      split at completed
      · cases completed
      · rename_i quote behind isNext
        split at completed
        · rename_i isClosing
          cases completed
          exact ⟨text, inner, quote, isText, isNext, isClosing, rfl⟩
        · cases completed
  · rintro ⟨text, inner, quote, isText, isNext, isClosing, rfl⟩
    simp only [isText, isNext, isClosing, if_true]

theorem literal_eq_ok {parser parser' : Parser} {expr : Expr} :
    literal parser = .ok expr parser' ↔ parser.current.kind = .apostrophe ∧
      ∃ text inner quote rest token lexer, parser.lexer.rawText = .ok text inner ∧
        inner.next = .ok quote rest ∧ quote.kind = .apostrophe ∧ rest.next = .ok token lexer ∧
        .literal text parser.current.position = expr ∧
        ⟨lexer, token, parser.nextLoop⟩ = parser' := by
  rw [literal]
  constructor
  · intro isOk
    obtain ⟨_, _, isKind, isOk⟩ := bind_eq_ok.1 isOk
    obtain ⟨rfl, rfl⟩ := kind_eq_ok.1 isKind
    split at isOk
    · obtain ⟨_, _, isOk, -⟩ := bind_eq_ok.1 isOk
      exact absurd isOk (unexpected_ne_ok _ _ _)
    · rename_i isQuote
      simp only [bind_eq_ok, position_eq_ok, draw_eq_ok, advance_eq_ok, expect_eq_ok, pure_eq_ok]
        at isOk
      obtain ⟨_, _, ⟨rfl, rfl⟩, text, _, ⟨inner, isText, rfl⟩, _, _, ⟨quote, rest, isNext, -, rfl⟩, _, _,
        ⟨isClosing, token, lexer, isNext', -, rfl⟩, rfl, rfl⟩ := isOk
      exact ⟨Decidable.not_not.1 isQuote, text, inner, quote, rest, token, lexer, isText, isNext, isClosing,
        isNext', rfl, rfl⟩
  · rintro ⟨isQuote, text, inner, quote, rest, token, lexer, isText, isNext, isClosing, isNext',
      rfl, rfl⟩
    refine bind_eq_ok.2 ⟨_, _, kind_eq_ok.2 ⟨rfl, rfl⟩, ?_⟩
    rw [if_neg (Decidable.not_not.2 isQuote)]
    simp only [bind_eq_ok, position_eq_ok, draw_eq_ok, advance_eq_ok, expect_eq_ok, pure_eq_ok]
    exact ⟨_, _, ⟨rfl, rfl⟩, text, _, ⟨inner, isText, rfl⟩, _, _, ⟨quote, rest, isNext, rfl, rfl⟩, _, _,
      ⟨isClosing, token, lexer, isNext', rfl, rfl⟩, rfl, rfl⟩

theorem reads_literal {size : Nat} : Reads 1 size anyKind literal Rule.literal := by
  have begins {parser : Parser} {text : String} {inner rest : Lexer} {quote : Token}
      (isQuote : parser.current.kind = .apostrophe) (isText : parser.lexer.rawText = .ok text inner)
      (isNext : inner.next = .ok quote rest) (isClosing : quote.kind = .apostrophe) :
      parser.lexemes = { parser.current with text := text } :: rest.lexemes := by
    have completed := (complete_eq_some isQuote).2 ⟨text, inner, quote, isText, isNext, isClosing, rfl⟩
    rw [Parser.lexemes, Lexer.lexemesFrom, completed]
  constructor
  · intro parser _ _ expr rest
    simp only [literal_eq_ok]
    constructor
    · rintro ⟨_, _, ⟨isQuote, text, inner, quote, behind, token, lexer, isText, isNext, isClosing,
        isNext', rfl, rfl⟩, rfl, rfl⟩
      obtain ⟨next, others, isCons⟩ := List.exists_cons_of_ne_nil (lexer.lexemesFrom_ne_nil token)
      refine ⟨{ parser.current with text := text, position := .nowhere },
        ⟨next.bare :: others.map Token.bare, parser.nextLoop⟩,
        ⟨isQuote, next.bare, others.map Token.bare, ?_, rfl⟩, rfl, ?_⟩
      · rw [Parser.input, begins isQuote isText isNext isClosing, Lexer.lexemes_of_next isNext', isCons]
        rfl
      · rw [Parser.input, Parser.lexemes, isCons]
        rfl
    · rintro ⟨whole, _, ⟨isQuote, next, others, isCons, rfl⟩, rfl, rfl⟩
      have isQuote' : parser.current.kind = .apostrophe := by
        rw [← Parser.kind_input, Input.kind, isCons]
        exact isQuote
      rw [Parser.input, Parser.lexemes, Lexer.lexemesFrom] at isCons
      split at isCons
      · cases isCons
      · rename_i whole' behind completed
        obtain ⟨text, inner, quote, isText, isNext, isClosing, rfl⟩ :=
          (complete_eq_some isQuote').1 completed
        obtain ⟨rfl, isRest⟩ := List.cons.inj isCons
        cases isNext' : behind.next with
        | ok token lexer =>
            rw [Lexer.lexemes_of_next isNext'] at isRest
            exact ⟨_, _, ⟨isQuote', text, inner, quote, behind, token, lexer, isText, isNext,
              isClosing, isNext', rfl, rfl⟩, rfl, congrArg (Input.mk · parser.nextLoop) isRest⟩
        | error error lexer =>
            rw [Lexer.lexemes_of_error isNext'] at isRest
            cases isRest
  · intro parser _ _ expr parser' isOk
    obtain ⟨isQuote, text, inner, quote, behind, token, lexer, isText, isNext, isClosing, isNext', -,
      rfl⟩ := literal_eq_ok.1 isOk
    simp only [Input.size, Parser.input, begins isQuote isText isNext isClosing,
      Lexer.lexemes_of_next isNext', List.length_map, List.length_cons]
    exact Nat.le_refl _

/-! ### Operations of one level -/

def AreOrdinary (operator? : TokenKind → Option BinaryOp) : Prop :=
  operator? .endOfInput = none ∧ operator? .apostrophe = none

theorem AreOrdinary.isOrdinary {operator? : TokenKind → Option BinaryOp}
    (ordinary : AreOrdinary operator?) {kind : TokenKind} (isOperator : operator? kind ≠ none) :
    IsOrdinary kind := by
  constructor
  · rintro rfl
    exact isOperator ordinary.1
  · rintro rfl
    exact isOperator ordinary.2

section

variable {size : Nat} {operator? : TokenKind → Option BinaryOp} {first operand : Parse Expr}
  {firstRule operandRule : Rule Expr}

theorem begins_operation :
    Rule.Begins (fun kind => ¬ operator? kind = none) (Rule.operation operator? operandRule) := by
  rintro input _ rest ⟨op, middle, ⟨kind, sign, isOp, passed⟩, -⟩
  have isKind := Rule.begins_token kind input sign middle passed
  rw [isKind, isOp]
  exact Option.some_ne_none op

theorem reads_operation (ordinary : AreOrdinary operator?)
    (reads : Reads 0 size anyKind operand operandRule) (kind : TokenKind)
    (isOperator : operator? kind ≠ none) {op : BinaryOp} (isOp : operator? kind = some op) :
    Reads 1 (size + 1) (· = kind) (do
        let token ← advance
        let right ← operand
        return some (op, token.position, right))
      (some <$> Rule.operation operator? operandRule) := by
  have passes : Reads 1 (size + 1) (· = kind) (do
        let token ← advance
        let right ← operand
        return some (op, token.position, right)) (do
        let _ ← Rule.token kind
        let right ← operandRule
        return some (op, Position.nowhere, right)) :=
    (reads_advance kind (ordinary.isOrdinary isOperator)).bindFewer fun _ => reads.bind fun _ => reads_pure rfl
  refine passes.congr fun input o rest isKind => ⟨?_, ?_⟩
  · rintro ⟨sign, _, passed, right, _, read, rfl, rfl⟩
    exact ⟨_, _, ⟨op, _, ⟨kind, sign, isOp, passed⟩, right, _, read, rfl, rfl⟩, rfl, rfl⟩
  · rintro ⟨_, _, ⟨op', _, ⟨kind', sign, isOp', passed⟩, right, _, read, rfl, rfl⟩, rfl, rfl⟩
    obtain rfl : kind' = kind :=
      (Rule.begins_token kind' _ _ _ passed).symm.trans isKind
    cases isOp.symm.trans isOp'
    exact ⟨sign, _, passed, right, _, read, rfl, rfl⟩

theorem reads_operation? (ordinary : AreOrdinary operator?)
    (reads : Reads 0 size anyKind operand operandRule) :
    Reads 0 (size + 1) anyKind (operation? operator? operand)
      ((some <$> Rule.operation operator? operandRule) <|> do
        Rule.ahead fun kind => operator? kind = none
        return none) := by
  refine reads_item begins_operation (fun kind isNone => ?_) fun kind isOperator => ?_
  · rw [isNone]
    exact reads_pure rfl
  · obtain ⟨op, isOp⟩ := Option.ne_none_iff_exists'.1 isOperator
    rw [isOp]
    exact reads_operation ordinary reads kind isOperator isOp

theorem bare_chain (left : Expr) (operations : List (BinaryOp × Position × Expr)) :
    Placed.bare (chain left operations) = chain (Placed.bare left) (Placed.bare operations) := by
  induction operations generalizing left with
  | nil => rfl
  | cons first others ih => exact ih (.binary first.1 left first.2.2 first.2.1)

theorem reads_operations (ordinary : AreOrdinary operator?)
    (head : Reads 1 (size + 1) anyKind first firstRule)
    (reads : Reads 0 size anyKind operand operandRule) :
    Reads 1 (size + 1) anyKind (operations (size + 1) operator? first operand)
      (Rule.operations operator? firstRule operandRule) := by
  refine head.bind fun left => ?_
  have loop : Reads 0 (size + 1) anyKind (many (size + 1) (operation? operator? operand)) (do
      let others ← Rule.star (Rule.operation operator? operandRule)
      Rule.ahead fun kind => operator? kind = none
      return others) := by
    refine reads_many begins_operation (fun kind isNone => ?_) (fun kind isOperator => ?_)
      (Nat.le_refl _)
    · rw [isNone]
      exact reads_pure rfl
    · obtain ⟨op, isOp⟩ := Option.ne_none_iff_exists'.1 isOperator
      rw [isOp]
      exact reads_operation ordinary reads kind isOperator isOp
  simpa only [bind_assoc, pure_bind] using loop.map (chain left) _ (bare_chain left)

end

/-! ### What is nested -/

section

variable {size : Nat} {nested : Grammar → Parse Expr} {rule : Grammar → Rule Expr}
  (inner : ∀ grammar, Reads 0 size anyKind (nested grammar) (rule grammar))
  (starts : ∀ grammar, Rule.Begins Rule.BeginsExpression (rule grammar))

include inner

theorem reads_element (array : Token) :
    Reads 1 (size + 1) (· = .leftBracket) (element nested array) (Rule.element rule array.text) :=
  (reads_advance .leftBracket (by decide)).bindFewer fun _ => (inner .arithmetic).bind fun _ =>
    (reads_expect .rightBracket (by decide)).weaken.bind fun _ => reads_pure rfl

theorem reads_assignable :
    Reads 1 (size + 1) anyKind (assignable nested) (Rule.assignable rule) := by
  have name : Reads 1 (size + 1) anyKind (expect .ident) (Rule.token .ident) :=
    reads_expect .ident (by decide)
  have all : Reads 1 (size + 1) anyKind (assignable nested) (do
      let name ← Rule.token .ident
      Rule.element rule name.text <|> do
        Rule.ahead (· ≠ .leftBracket)
        return .ident name.text .nowhere) := by
    refine name.bind fun name => reads_kind fun kind _ => ?_
    by_cases isBracket : kind = .leftBracket
    · subst isBracket
      rw [if_pos rfl]
      exact (reads_element inner name).weaken.left (Rule.begins_ahead.bind _)
        fun _ isKind isNot => isNot isKind
    · rw [if_neg isBracket]
      refine Reads.right ?_ (Rule.begins_element rule _) fun _ isKind => isKind ▸ isBracket
      exact (reads_pure rfl).ahead fun _ isKind => isKind ▸ isBracket
  simpa only [Rule.assignable, Rule.ident, bind_assoc, pure_bind] using all

theorem reads_argument (callee : String) :
    Reads 0 size anyKind (argument nested callee) (Rule.argument rule callee) := by
  have place := (reads_assignable inner).weaken.atSize (Nat.le_succ size)
  unfold argument Rule.argument
  generalize Builtin.ofName? callee = builtin
  cases builtin with
  | none => exact inner .arithmetic
  | some builtin =>
      cases builtin with
      | readln | dec => exact place
      | _ => exact inner .arithmetic

omit inner in
theorem reads_argumentList {item : Parse Expr} {itemRule : Rule Expr}
    (reads : Reads 0 size anyKind item itemRule)
    (begins : Rule.Begins (· ≠ .rightParen) itemRule) :
    Reads 0 size anyKind (argumentList (size + 1) item) (Rule.argumentList itemRule) := by
  have loop : Reads 0 (size + 1) anyKind (many (size + 1) do
      if (← kind) = .rightParen then return none
      let _ ← expect .comma
      return some (← item)) (do
        let others ← Rule.star do
          let _ ← Rule.token .comma
          itemRule
        Rule.ahead (· = .rightParen)
        return others) := by
    refine reads_many (((Rule.begins_token .comma).bind _).mono fun _ isComma isEnd => ?_) ?_ ?_
      (Nat.le_refl _)
    · cases isComma.symm.trans isEnd
    · intro kind isEnd
      rw [if_pos isEnd]
      exact reads_pure rfl
    · intro kind notEnd
      rw [if_neg notEnd]
      simpa only [map_eq_pure_bind, bind_assoc] using
        (reads_expect .comma (by decide)).bindFewer fun _ => reads.map some some fun _ => rfl
  refine reads_kind fun front _ => ?_
  by_cases isEnd : front = .rightParen
  · rw [if_pos isEnd]
    refine Reads.left ?_ (begins.bind _) fun _ isKind isOther => isOther (isKind.trans isEnd)
    exact (reads_pure rfl).ahead fun _ isKind => isKind.trans isEnd
  · rw [if_neg isEnd]
    refine Reads.right ?_ (Rule.begins_ahead.bind _) fun _ isKind isOther =>
      isEnd (isKind.symm.trans isOther)
    refine reads.ofAny.bind fun first => ?_
    simpa only [bind_assoc, pure_bind] using
      (loop.atSize (Nat.le_succ size)).map (first :: ·) (Placed.bare first :: ·) fun _ => rfl

include starts

omit inner in
theorem begins_argument (callee : String) :
    Rule.Begins (· ≠ .rightParen) (Rule.argument rule callee) := by
  have place : Rule.Begins (· ≠ .rightParen) (Rule.assignable rule) :=
    (Rule.begins_assignable rule).mono fun _ isName => isName ▸ by decide
  have value : Rule.Begins (· ≠ .rightParen) (rule .arithmetic) :=
    (starts .arithmetic).mono fun _ begins => by
      rintro rfl
      simp [Rule.BeginsExpression, Rule.BeginsOperand] at begins
  unfold Rule.argument
  split
  · exact place
  · exact place
  · exact value

theorem reads_arguments (callee : String) : Reads 1 (size + 1) anyKind
    (arguments (size + 1) nested callee) (Rule.arguments rule callee) := by
  refine (reads_expect .leftParen (by decide)).bindFewer fun _ => ?_
  have close (passed : List Expr) : Reads 0 size anyKind (do
      let _ ← expect .rightParen
      return passed) (do
        let _ ← Rule.token .rightParen
        return Placed.bare passed) :=
    (reads_expect .rightParen (by decide)).weaken.bind fun _ => reads_pure rfl
  unfold Rule.passed
  by_cases isWrite : Builtin.ofName? callee = some .write
  · rw [if_pos isWrite, if_pos isWrite]
    simpa only [bind_assoc, pure_bind] using
      reads_literal.weaken.bind fun text => close [text]
  · rw [if_neg isWrite, if_neg isWrite]
    exact (reads_argumentList (reads_argument inner callee)
      (begins_argument starts callee)).bind close

theorem reads_reference : Reads 1 (size + 1) (· = .ident) (do
    let token ← advance
    match ← kind with
    | .leftBracket => element nested token
    | .leftParen =>
        return .call token.text (← arguments (size + 1) nested token.text) token.position
    | _ => return .ident token.text token.position) (Rule.reference rule) := by
  have split : Rule.reference rule = Rule.token .ident >>= fun name =>
      (Rule.element rule name.text <|> (do
        let arguments ← Rule.arguments rule name.text
        return .call name.text arguments .nowhere) <|> do
      Rule.ahead fun kind => kind ≠ .leftBracket ∧ kind ≠ .leftParen
      return .ident name.text .nowhere) := by
    simp only [Rule.reference, Rule.ident, bind_assoc, pure_bind]
  rw [split]
  refine (reads_advance .ident (by decide)).bind fun name => reads_kind fun front _ => ?_
  have variable_ : Rule.Begins (fun kind => kind ≠ .leftBracket ∧ kind ≠ .leftParen) (do
      Rule.ahead fun kind => kind ≠ .leftBracket ∧ kind ≠ .leftParen
      return .ident name.text .nowhere : Rule Expr) := Rule.begins_ahead.bind _
  have call : Rule.Begins (· = .leftParen) (do
      let arguments ← Rule.arguments rule name.text
      return .call name.text arguments .nowhere : Rule Expr) :=
    (Rule.begins_arguments rule name.text).bind _
  have element := Rule.begins_element rule name.text
  by_cases isBracket : front = .leftBracket
  · subst isBracket
    have others := (call.mono fun _ isParen => isParen ▸ by decide).orElse
      (variable_.mono fun _ => And.left)
    exact (reads_element inner name).weaken.left others fun _ isKind isOther => isOther isKind
  by_cases isParen : front = .leftParen
  · subst isParen
    refine Reads.right (Reads.left ?_ variable_ fun _ isKind isOther => isOther.2 isKind) element
      fun _ isKind isOther => isBracket (isKind.symm.trans isOther)
    exact (reads_arguments inner starts name.text).weaken.ofAny.bind fun arguments =>
      reads_pure (congrArg (Expr.call name.text · .nowhere) (Expr.bareAll_eq arguments))
  · refine Reads.right (Reads.right (Reads.ahead ?_ fun _ isKind => ?_) call
      fun _ isKind isOther => isParen (isKind.symm.trans isOther)) element
      fun _ isKind isOther => isBracket (isKind.symm.trans isOther)
    · split
      · exact absurd rfl isBracket
      · exact absurd rfl isParen
      · exact reads_pure rfl
    · exact isKind ▸ ⟨isBracket, isParen⟩

theorem reads_factor (grammar : Grammar) : Reads 1 (size + 1) anyKind
    (factor (size + 1) nested grammar) (Rule.factor rule grammar) := by
  refine reads_kind fun front _ => ?_
  have begins := Rule.begins_factor rule grammar
  cases front with
  | ident =>
      have others := Rule.begins_number.union (Rule.begins_parenthesised rule grammar)
      exact (reads_reference inner starts).left others fun _ isKind => by simp [isKind]
  | number =>
      refine Reads.right (Reads.left ?_ (Rule.begins_parenthesised rule grammar) fun _ isKind => ?_)
        (Rule.begins_reference rule) fun _ isKind => ?_
      · exact (reads_advance .number (by decide)).bind fun _ => reads_pure rfl
      · simp [isKind]
      · simp [isKind]
  | leftParen =>
      refine Reads.right (Reads.right ?_ Rule.begins_number fun _ isKind => ?_)
        (Rule.begins_reference rule) fun _ isKind => ?_
      · exact (reads_advance .leftParen (by decide)).bindFewer fun _ =>
          (inner grammar).bind fun _ => (reads_expect .rightParen (by decide)).weaken.bind fun _ =>
            reads_pure rfl
      · simp [isKind]
      · simp [isKind]
  | _ =>
      refine reads_never cannotExpand_ne_ok fun input expr rest isKind reads => ?_
      simpa [isKind, Rule.BeginsOperand] using begins _ _ _ reads

theorem reads_term (grammar : Grammar) : Reads 1 (size + 1) anyKind
    (term (size + 1) nested grammar) (Rule.term rule grammar) :=
  have factor := reads_factor inner starts grammar
  reads_operations ⟨rfl, rfl⟩ factor
    (factor.weaken.atSize (Nat.le_succ size))

theorem reads_signedTerm (grammar : Grammar) : Reads 1 (size + 1) anyKind
    (signedTerm (size + 1) nested grammar) (Rule.signedTerm rule grammar) := by
  have term := reads_term inner starts grammar
  refine reads_kind fun front _ => ?_
  by_cases isMinus : front = .minus
  · subst isMinus
    rw [if_pos rfl]
    refine Reads.left ?_ (Rule.begins_term rule grammar) fun _ isKind begins => ?_
    · exact (reads_advance .minus (by decide)).bindFewer fun sign =>
        (term.weaken.atSize (Nat.le_succ size)).bind fun operand => reads_pure rfl
    · subst isKind
      simp [Rule.BeginsOperand] at begins
  · rw [if_neg isMinus]
    exact term.ofAny.right ((Rule.begins_token .minus).bind _)
      fun _ isKind isOther => isMinus (isKind.symm.trans isOther)

theorem reads_sum (grammar : Grammar) : Reads 1 (size + 1) anyKind
    (sum (size + 1) nested grammar) (Rule.sum rule grammar) :=
  reads_operations ⟨rfl, rfl⟩ (reads_signedTerm inner starts grammar)
    ((reads_term inner starts grammar).weaken.atSize (Nat.le_succ size))

theorem reads_comparison : Reads 1 (size + 1) anyKind
    (comparison (size + 1) nested) (Rule.comparison rule) := by
  have sum := reads_sum inner starts .condition
  have ordinary : AreOrdinary BinaryOp.ofRelation? := ⟨rfl, rfl⟩
  have operation := reads_operation? ordinary (sum.weaken.atSize (Nat.le_succ size))
  refine sum.bind fun left => ?_
  have same : ((some <$> Rule.operation BinaryOp.ofRelation? (Rule.sum rule .condition)) <|> do
      Rule.ahead fun kind => BinaryOp.ofRelation? kind = none
      return none) >>= (fun operation => pure (chain (Placed.bare left) operation.toList)) =
      ((do
        let operation ← Rule.operation BinaryOp.ofRelation? (Rule.sum rule .condition)
        return chain (Placed.bare left) [operation]) <|> do
      Rule.ahead fun kind => BinaryOp.ofRelation? kind = none
      return Placed.bare left) := by
    simp only [map_eq_pure_bind, Rule.orElse_bind, bind_assoc, pure_bind]
    rfl
  rw [← same]
  refine operation.bind fun operation => ?_
  cases operation with
  | none => exact reads_pure rfl
  | some operation => exact reads_pure (bare_chain left [operation])

theorem reads_negation {small depth : Nat} (le : small ≤ depth) (bounded : small ≤ size + 1) :
    Reads 1 small anyKind (negation (size + 1) nested depth) (Rule.negation rule) := by
  induction depth generalizing small with
  | zero =>
      obtain rfl := Nat.le_zero.1 le
      exact reads_zero
  | succ depth ih =>
      cases small with
      | zero => exact reads_zero
      | succ small =>
          rw [Rule.negation_eq]
          refine reads_kind fun front _ => ?_
          by_cases isNot : front = .notWord
          · subst isNot
            rw [if_pos rfl]
            refine Reads.left ?_ (Rule.begins_comparison rule) fun _ isKind => ?_
            · exact (reads_advance .notWord (by decide)).bindFewer fun _ =>
                (ih (by omega) (by omega)).weaken.bind fun _ => reads_pure rfl
            · simp [isKind, Rule.BeginsOperand]
          · rw [if_neg isNot]
            exact ((reads_comparison inner starts).atSize bounded).ofAny.right
              ((Rule.begins_token .notWord).bind _)
              fun _ isKind isOther => isNot (isKind.symm.trans isOther)

theorem reads_disjunction : Reads 1 (size + 1) anyKind
    (disjunction (size + 1) nested) (Rule.disjunction rule) := by
  have negation := reads_negation inner starts (Nat.le_refl (size + 1)) (Nat.le_refl _)
  have conjunction : Reads 1 (size + 1) anyKind (conjunction (size + 1) nested)
      (Rule.conjunction rule) :=
    reads_operations ⟨rfl, rfl⟩ negation (negation.weaken.atSize (Nat.le_succ size))
  exact reads_operations ⟨rfl, rfl⟩ conjunction (conjunction.weaken.atSize (Nat.le_succ size))

end

theorem reads_nested (size : Nat) (grammar : Grammar) :
    Reads 1 size anyKind (nested size grammar) (Rule.nested grammar) := by
  induction size generalizing grammar with
  | zero => exact reads_zero
  | succ size ih =>
      rw [Rule.nested_eq]
      have inner (grammar : Grammar) := (ih grammar).weaken
      cases grammar with
      | arithmetic => exact reads_sum inner Rule.begins_nested .arithmetic
      | condition => exact reads_disjunction inner Rule.begins_nested

end Parse

end MiniPascal
