import MiniPascal.Proofs.Acceptance.Words

/-!
# Expressions are parsed exactly

A rule reads a phrase unless the lexeme behind it could go on with it.  Which lexemes these are depends
only on how the phrase ends, and the more loosely a lexeme binds, the fewer phrases it can go on with.
From this and from what the rules take it follows what the parser accepts: the phrases that cannot be
continued.
-/

namespace MiniPascal

/-- How loosely a lexeme binds to what is in front of it.  Nothing goes on with a lexeme of the last
rank. -/
def TokenKind.rank : TokenKind → Nat
  | .leftBracket | .leftParen => 0
  | .times | .divWord | .modWord => 1
  | .plus | .minus => 2
  | .equal | .notEqual | .less | .greater | .lessEqual | .greaterEqual => 3
  | .andWord => 4
  | .orWord => 5
  | _ => 6

theorem BinaryOp.rank_of_ofMultiplicative? {kind : TokenKind} {op : BinaryOp}
    (isOperator : ofMultiplicative? kind = some op) : kind.rank = 1 := by
  cases kind <;> simp_all [ofMultiplicative?, TokenKind.rank]

theorem BinaryOp.rank_of_ofAdditive? {kind : TokenKind} {op : BinaryOp}
    (isOperator : ofAdditive? kind = some op) : kind.rank = 2 := by
  cases kind <;> simp_all [ofAdditive?, TokenKind.rank]

theorem BinaryOp.rank_of_ofRelation? {kind : TokenKind} {op : BinaryOp}
    (isOperator : ofRelation? kind = some op) : kind.rank = 3 := by
  cases kind <;> simp_all [ofRelation?, TokenKind.rank]

theorem BinaryOp.rank_of_ofConjunction? {kind : TokenKind} {op : BinaryOp}
    (isOperator : ofConjunction? kind = some op) : kind.rank = 4 := by
  cases kind <;> simp_all [ofConjunction?, TokenKind.rank]

theorem BinaryOp.rank_of_ofDisjunction? {kind : TokenKind} {op : BinaryOp}
    (isOperator : ofDisjunction? kind = some op) : kind.rank = 5 := by
  cases kind <;> simp_all [ofDisjunction?, TokenKind.rank]

namespace Rule

variable {α β : Type}

/-! ### Reading on -/

theorem Before.bindAny {rule : Rule α} {next : α → Rule β} {words words' : List Token}
    {front : Token} {a : α} {b : β} (first : ∀ middle, Before rule words middle a)
    (second : Before (next a) words' front b) : Before (rule >>= next) (words ++ words') front b :=
  (first _).bind second (List.head?_eq_some_head (by simp))

theorem before_token_bind {kind : TokenKind} {word front : Token} {words : List Token}
    {next : Token → Rule β} {b : β} (isKind : word.kind = kind)
    (before : Before (next word) words front b) :
    Before (token kind >>= next) (word :: words) front b :=
  Before.bindAny (fun _ => before_token isKind) before

theorem Many.snoc {rule : Rule α} {input middle rest : Input} {as : List α} {a : α}
    (reads : Many rule input as middle) (read : rule middle a rest) :
    Many rule input (as ++ [a]) rest := by
  induction reads with
  | nil => exact .cons read .nil
  | cons head _ ih => exact .cons head (ih read)

def chained (operator? : TokenKind → Option BinaryOp) (first operand : Rule Expr) : Rule Expr := do
  let left ← first
  let others ← star (operation operator? operand)
  return Parse.chain left others

section

variable {operator? : TokenKind → Option BinaryOp} {first operand : Rule Expr}
  {words words' : List Token} {sign front : Token} {tree left right : Expr} {op : BinaryOp}

theorem Before.chained (before : Before first words front tree) :
    Before (chained operator? first operand) words front tree :=
  fun others loops => ⟨tree, _, before others loops, [], _, .nil, rfl, rfl⟩

theorem before_operation (isOperator : operator? sign.kind = some op)
    (before : Before operand words front right) :
    Before (operation operator? operand) (sign :: words) front (op, .nowhere, right) := by
  have isSign (middle : Token) : Before (operator operator?) [sign] middle op :=
    fun others loops => ⟨sign.kind, sign, isOperator, before_token rfl others loops⟩
  exact Before.bindAny isSign (before.map fun right => (op, Position.nowhere, right))

theorem Before.chainedOn (before : Before (Rule.chained operator? first operand) words sign left)
    (isOperator : operator? sign.kind = some op) (before' : Before operand words' front right) :
    Before (Rule.chained operator? first operand) (words ++ sign :: words') front
      (.binary op left right .nowhere) := by
  intro others loops
  obtain ⟨head, middle, read, operations, _, reads, rfl, rfl⟩ :=
    before (words' ++ front :: others) loops
  have last := before_operation isOperator before' others loops
  rw [List.cons_append] at last
  refine ⟨head, middle, by simpa using read, operations ++ [(op, .nowhere, right)], _,
    reads.snoc last, ?_, rfl⟩
  simp [Parse.chain]

theorem Before.operations (before : Before (Rule.chained operator? first operand) words front tree)
    (isNone : operator? front.kind = none) :
    Before (operations operator? first operand) words front tree := by
  intro others loops
  obtain ⟨head, middle, read, operations, _, reads, rfl, rfl⟩ := before others loops
  exact ⟨head, middle, read, operations, _, reads, (), _, ⟨isNone, rfl⟩, rfl, rfl⟩

end

/-! ### Reading as long as a phrase goes on -/

/-- A rule reads the words of a phrase before all lexemes but some of low rank, and with each of those
the phrase can go on. -/
def Munches (phrase : Phrase) (rule : Rule Expr) (rank : Nat) (words : List Token) (tree : Expr) :
    Prop :=
  ∃ goesOn : TokenKind → Prop, (∀ kind, goesOn kind → kind.rank < rank) ∧
    (∀ front : Token, ¬ goesOn front.kind → Before rule words front tree) ∧
    ∀ front : Token, goesOn front.kind →
      ∃ more other, Derives phrase (words ++ front :: more) other

section

variable {phrase phrase' : Phrase} {rule rule' : Rule Expr} {rank rank' : Nat}
  {words words' : List Token} {tree tree' : Expr}

theorem Munches.before (munches : Munches phrase rule rank words tree) {front : Token}
    (loose : rank ≤ front.kind.rank) : Before rule words front tree := by
  obtain ⟨goesOn, bounded, reads, -⟩ := munches
  exact reads front fun isOn => absurd (bounded _ isOn) (Nat.not_lt.2 loose)

theorem munches_closed (reads : ∀ front, Before rule words front tree) :
    Munches phrase rule rank words tree :=
  ⟨fun _ => False, fun _ => False.elim, fun front _ => reads front, fun _ => False.elim⟩

theorem Munches.lift (munches : Munches phrase rule rank words tree) (le : rank ≤ rank')
    (reads : ∀ front, Before rule words front tree → Before rule' words' front tree')
    (further : ∀ more other, Derives phrase (words ++ more) other →
      ∃ other', Derives phrase' (words' ++ more) other') :
    Munches phrase' rule' rank' words' tree' := by
  obtain ⟨goesOn, bounded, before, goes⟩ := munches
  refine ⟨goesOn, fun kind isOn => Nat.lt_of_lt_of_le (bounded kind isOn) le,
    fun front notOn => reads front (before front notOn), fun front isOn => ?_⟩
  obtain ⟨more, other, derives⟩ := goes front isOn
  exact ⟨more, further _ _ derives⟩

theorem Munches.close {operator? : TokenKind → Option BinaryOp}
    (munches : Munches phrase rule rank words tree)
    (ranked : ∀ {kind op}, operator? kind = some op → kind.rank = rank)
    (reads : ∀ front : Token, Before rule words front tree → operator? front.kind = none →
      Before rule' words front tree)
    (same : ∀ {words tree}, Derives phrase words tree → Derives phrase' words tree)
    (further : ∀ {sign op}, operator? sign.kind = some op →
      ∃ more other, Derives phrase' (words ++ sign :: more) other) :
    Munches phrase' rule' (rank + 1) words tree := by
  obtain ⟨goesOn, bounded, before, goes⟩ := munches
  refine ⟨fun kind => goesOn kind ∨ operator? kind ≠ none, fun kind isOn => ?_, fun front notOn => ?_,
    fun front isOn => ?_⟩
  · rcases isOn with isOn | isOperator
    · exact Nat.lt_succ_of_lt (bounded kind isOn)
    · obtain ⟨op, isOp⟩ := Option.ne_none_iff_exists'.1 isOperator
      exact Nat.lt_succ_of_le (Nat.le_of_eq (ranked isOp))
  · rw [not_or, Decidable.not_not] at notOn
    exact reads front (before front notOn.1) notOn.2
  · rcases isOn with isOn | isOperator
    · obtain ⟨more, other, derives⟩ := goes front isOn
      exact ⟨more, other, same derives⟩
    · obtain ⟨op, isOp⟩ := Option.ne_none_iff_exists'.1 isOperator
      exact further isOp

end

/-! ### The phrases of the grammar -/

def zero : Token := .number 0 .nowhere

theorem derives_factor_zero (grammar : Grammar) :
    Derives (.factor grammar) [zero] (.number 0 .nowhere) := .number rfl

theorem derives_term_zero (grammar : Grammar) :
    Derives (.term grammar) [zero] (.number 0 .nowhere) := .factor (derives_factor_zero grammar)

theorem derives_sum_zero (grammar : Grammar) :
    Derives (.sum grammar) [zero] (.number 0 .nowhere) := .term (derives_term_zero grammar)

theorem derives_negation_zero : Derives .negation [zero] (.number 0 .nowhere) :=
  .unrelated (derives_sum_zero .condition)

theorem derives_conjunction_zero : Derives .conjunction [zero] (.number 0 .nowhere) :=
  .negation derives_negation_zero

def items (callee : String) : Rule Expr := do
  let first ← argument nested callee
  let others ← star do
    let _ ← token .comma
    argument nested callee
  return .call callee (first :: others) .nowhere

def ofPhrase : Phrase → Rule Expr
  | .sum grammar => chained BinaryOp.ofAdditive? (signedTerm nested grammar) (term nested grammar)
  | .term grammar =>
      chained BinaryOp.ofMultiplicative? (factor nested grammar) (factor nested grammar)
  | .factor grammar => factor nested grammar
  | .condition => chained BinaryOp.ofDisjunction? (conjunction nested) (conjunction nested)
  | .conjunction => chained BinaryOp.ofConjunction? (negation nested) (negation nested)
  | .negation => negation nested
  | .place => assignable nested
  | .argument callee => argument nested callee
  | .arguments callee => items callee

def rankOf : Phrase → Nat
  | .factor _ | .term _ | .place => 1
  | .sum _ => 2
  | .argument _ | .arguments _ => 3
  | .negation | .conjunction => 4
  | .condition => 5

theorem rankOf_le (phrase : Phrase) : rankOf phrase ≤ 6 := by
  cases phrase <;> simp [rankOf]

theorem rank_of_eq {kind kind' : TokenKind} (same : kind = kind') : kind.rank = kind'.rank :=
  congrArg TokenKind.rank same

section

variable {words words' : List Token} {tree left right : Expr} {grammar : Grammar}

theorem munches_term (derives : Derives (.term grammar) words tree)
    (munches : Munches (.term grammar) (ofPhrase (.term grammar)) 1 words tree) :
    Munches (.term grammar) (term nested grammar) 2 words tree :=
  munches.close BinaryOp.rank_of_ofMultiplicative? (fun _ before => before.operations) id
    fun isOp => ⟨[zero], _, .multiplicative derives isOp (derives_factor_zero grammar)⟩

theorem munches_sum (derives : Derives (.sum grammar) words tree)
    (munches : Munches (.sum grammar) (ofPhrase (.sum grammar)) 2 words tree) :
    Munches (.sum grammar) (sum nested grammar) 3 words tree :=
  munches.close BinaryOp.rank_of_ofAdditive? (fun _ before => before.operations) id
    fun isOp => ⟨[zero], _, .additive derives isOp (derives_term_zero grammar)⟩

theorem munches_conjunction (derives : Derives .conjunction words tree)
    (munches : Munches .conjunction (ofPhrase .conjunction) 4 words tree) :
    Munches .conjunction (conjunction nested) 5 words tree :=
  munches.close BinaryOp.rank_of_ofConjunction? (fun _ before => before.operations) id
    fun isOp => ⟨[zero], _, .conjunctive derives isOp derives_negation_zero⟩

theorem munches_condition (derives : Derives .condition words tree)
    (munches : Munches .condition (ofPhrase .condition) 5 words tree) :
    Munches .condition (disjunction nested) 6 words tree :=
  munches.close BinaryOp.rank_of_ofDisjunction? (fun _ before => before.operations) id
    fun isOp => ⟨[zero], _, .disjunctive derives isOp derives_conjunction_zero⟩

theorem before_nested {front : Token} (derives : Derives (.inner grammar) words tree)
    (munches : Munches (.inner grammar) (ofPhrase (.inner grammar)) (rankOf (.inner grammar)) words tree)
    (isLast : front.kind.rank = 6) : Before (nested grammar) words front tree := by
  rw [nested_eq]
  cases grammar with
  | arithmetic => exact (munches_sum derives munches).before (isLast ▸ by decide)
  | condition => exact (munches_condition derives munches).before (Nat.le_of_eq isLast.symm)

end

/-! ### Names and calls -/

section

variable {name opening closing front : Token} {words : List Token} {tree : Expr}

theorem before_ident (isIdent : name.kind = .ident) (middle : Token) :
    Before ident [name] middle name.text :=
  (before_token isIdent).map Token.text

theorem before_enclosed {rule : Rule α} {left right : TokenKind} {a : α} (f : α → β)
    (isOpening : opening.kind = left) (inside : Before rule words closing a)
    (isClosing : closing.kind = right) :
    Before (do
      let _ ← token left
      let a ← rule
      let _ ← token right
      return f a) (opening :: (words ++ [closing])) front (f a) := by
  have last : Before (token right >>= fun _ => pure (f a)) [closing] front (f a) :=
    (before_token isClosing).map fun _ => f a
  exact before_token_bind isOpening (inside.bind last rfl)

theorem before_element (array : String) {index : Expr} (isOpening : opening.kind = .leftBracket)
    (inside : Before (nested .arithmetic) words closing index)
    (isClosing : closing.kind = .rightBracket) :
    Before (element nested array) (opening :: (words ++ [closing])) front
      (.element array index .nowhere) :=
  before_enclosed (fun index => Expr.element array index .nowhere) isOpening inside isClosing

theorem before_call {callee : String} {trees : List Expr} (isOpening : opening.kind = .leftParen)
    (inside : Before (passed nested callee) words closing trees)
    (isClosing : closing.kind = .rightParen) :
    Before (do
      let arguments ← arguments nested callee
      return Expr.call callee arguments .nowhere) (opening :: (words ++ [closing])) front
        (.call callee trees .nowhere) :=
  (before_enclosed id isOpening inside isClosing).map fun arguments =>
    Expr.call callee arguments .nowhere

theorem before_factor_of_call (grammar : Grammar) (isIdent : name.kind = .ident)
    {trees : List Expr} (isOpening : opening.kind = .leftParen)
    (inside : Before (passed nested name.text) words closing trees)
    (isClosing : closing.kind = .rightParen) :
    Before (factor nested grammar) (name :: opening :: (words ++ [closing])) front
      (.call name.text trees .nowhere) :=
  Before.inl (Before.bindAny (before_ident isIdent)
    (before_call isOpening inside isClosing).inl.inr)

theorem argument_of_takesPlaces {nested : Grammar → Rule Expr} {callee : String}
    (takesPlaces : TakesPlaces callee) : argument nested callee = assignable nested := by
  unfold argument
  rcases takesPlaces with isBuiltin | isBuiltin <;> rw [isBuiltin]

theorem argument_of_not_takesPlaces {nested : Grammar → Rule Expr} {callee : String}
    (noPlaces : ¬ TakesPlaces callee) : argument nested callee = nested .arithmetic := by
  unfold argument
  split
  · exact absurd (.inl ‹_›) noPlaces
  · exact absurd (.inr ‹_›) noPlaces
  · rfl

theorem passed_of_takesText {nested : Grammar → Rule Expr} {callee : String}
    (takesText : TakesText callee) :
    passed nested callee = (do
      let text ← literal
      return [text]) := if_pos takesText

theorem passed_of_not_takesText {nested : Grammar → Rule Expr} {callee : String}
    (noText : ¬ TakesText callee) :
    passed nested callee = argumentList (argument nested callee) := if_neg noText

theorem before_passed_of_items {callee : String} (noText : ¬ TakesText callee)
    (isClosing : closing.kind = .rightParen) (before : Before (items callee) words closing tree) :
    ∃ trees, tree = .call callee trees .nowhere ∧
      Before (passed nested callee) words closing trees := by
  obtain ⟨first, _, -, others, _, -, rfl, -⟩ := before [] 0
  rw [passed_of_not_takesText noText]
  refine ⟨first :: others, rfl, fun more loops => ?_⟩
  obtain ⟨first', middle, read, others', _, reads, same, rfl⟩ := before more loops
  cases same
  exact .inr ⟨first, middle, read, others, _, reads, (), _, ⟨isClosing, rfl⟩, rfl, rfl⟩

end

theorem before_further {callee : String} {words words' : List Token} {comma front : Token}
    {trees : List Expr} {tree : Expr}
    (before : Before (items callee) words comma (.call callee trees .nowhere))
    (isComma : comma.kind = .comma) (before' : Before (argument nested callee) words' front tree) :
    Before (items callee) (words ++ comma :: words') front (.call callee (trees ++ [tree]) .nowhere) := by
  intro others loops
  obtain ⟨first, middle, read, arguments, _, reads, same, rfl⟩ :=
    before (words' ++ front :: others) loops
  cases same
  have next : Before (token .comma >>= fun _ => argument nested callee) (comma :: words') front tree :=
    before_token_bind isComma before'
  have last := next others loops
  rw [List.cons_append] at last
  exact ⟨first, middle, by simpa using read, arguments ++ [tree], _, reads.snoc last, rfl, rfl⟩

/-! ### Relations -/

section

variable {words words' : List Token} {sign front : Token} {tree left right : Expr} {op : BinaryOp}

theorem before_comparison (before : Before (sum nested .condition) words front tree)
    (isNone : BinaryOp.ofRelation? front.kind = none) :
    Before (comparison nested) words front tree :=
  fun others loops => ⟨tree, _, before others loops, .inr ⟨(), _, ⟨isNone, rfl⟩, rfl, rfl⟩⟩

theorem before_related (before : Before (sum nested .condition) words sign left)
    (isOperator : BinaryOp.ofRelation? sign.kind = some op)
    (before' : Before (sum nested .condition) words' front right) :
    Before (comparison nested) (words ++ sign :: words') front (.binary op left right .nowhere) := by
  have operation := (before_operation isOperator before').map fun operation =>
    Parse.chain left [operation]
  exact before.bind operation.inl rfl

theorem before_negation (before : Before (comparison nested) words front tree) :
    Before (negation nested) words front tree :=
  fun others loops => .plain (before others loops)

end

/-! ### Every phrase -/

/-- The lexemes that can go on with a phrase are known from its derivation. -/
theorem munches_of_derives {phrase : Phrase} {words : List Token} {tree : Expr}
    (derives : Derives phrase words tree) :
    Munches phrase (ofPhrase phrase) (rankOf phrase) words tree := by
  -- an operation goes on as its last operand does, and what a bracket closes does not go on
  induction derives with
  | term only ih =>
      exact (munches_term only ih).lift (Nat.le_refl 2) (fun _ before => before.inr.chained)
        fun _ other derives => ⟨other, .term derives⟩
  | negated isMinus operand ih =>
      refine (munches_term operand ih).lift (Nat.le_refl 2) (fun front before => ?_)
        fun _ _ derives => ⟨_, .negated isMinus derives⟩
      have negated := before.map fun operand => Expr.negate operand .nowhere
      exact (Before.inl (before_token_bind isMinus negated)).chained
  | additive first isOperator second ih ih' =>
      have left := ih.before (Nat.le_of_eq (BinaryOp.rank_of_ofAdditive? isOperator).symm)
      refine (munches_term second ih').lift (Nat.le_refl 2)
        (fun _ before => left.chainedOn isOperator before) fun _ _ derives => ?_
      rw [List.append_assoc]
      exact ⟨_, .additive first isOperator derives⟩
  | factor only ih =>
      exact ih.lift (Nat.le_refl 1) (fun _ before => before.chained)
        fun _ other derives => ⟨other, .factor derives⟩
  | multiplicative first isOperator second ih ih' =>
      have left := ih.before (Nat.le_of_eq (BinaryOp.rank_of_ofMultiplicative? isOperator).symm)
      refine ih'.lift (Nat.le_refl 1) (fun _ before => left.chainedOn isOperator before)
        fun _ _ derives => ?_
      rw [List.append_assoc]
      exact ⟨_, .multiplicative first isOperator derives⟩
  | @name grammar name isIdent =>
      -- a name goes on as an array element or as a call
      refine ⟨fun kind => kind = .leftBracket ∨ kind = .leftParen, ?_, fun front notOn => ?_,
        fun front isOn => ?_⟩
      · rintro _ (rfl | rfl) <;> exact Nat.one_pos
      · have stops : Before (ahead fun kind => kind ≠ .leftBracket ∧ kind ≠ .leftParen) [] front () :=
          before_ahead (not_or.1 notOn)
        have plain := stops.map fun _ => Expr.ident name.text .nowhere
        exact Before.inl (Before.bindAny (before_ident isIdent) plain.inr.inr)
      · rcases isOn with isBracket | isParen
        · exact ⟨[zero, .plain .rightBracket .nowhere], _,
            .element isIdent isBracket (derives_sum_zero _) rfl⟩
        · by_cases takesText : TakesText name.text
          · exact ⟨[.plain .apostrophe .nowhere, .plain .rightParen .nowhere], _,
              .callText isIdent takesText isParen rfl rfl⟩
          · exact ⟨[.plain .rightParen .nowhere], _, .callEmpty isIdent takesText isParen rfl⟩
  | element isIdent isOpening inside isClosing ih =>
      have index : Before (nested .arithmetic) _ _ _ := before_nested inside ih (rank_of_eq isClosing)
      exact munches_closed fun _ => Before.inl (Before.bindAny (before_ident isIdent)
        (before_element _ isOpening index isClosing).inl)
  | @callEmpty _ name _ closing isIdent noText isOpening isClosing =>
      have nothing : Before (passed nested name.text) [] closing [] := by
        rw [passed_of_not_takesText noText]
        exact Before.inl ((before_ahead isClosing).map fun _ => [])
      exact munches_closed fun _ => before_factor_of_call _ isIdent isOpening nothing isClosing
  | @callText _ name _ text closing isIdent takesText isOpening isText isClosing =>
      have literal : Before (passed nested name.text) [text] closing [.literal text.text .nowhere] := by
        rw [passed_of_takesText takesText]
        exact ((before_token isText).map fun text => Expr.literal text.text .nowhere).map fun tree =>
          [tree]
      exact munches_closed fun _ => before_factor_of_call _ isIdent isOpening literal isClosing
  | call isIdent noText isOpening inside isClosing ih =>
      obtain ⟨trees, rfl, before⟩ := before_passed_of_items noText isClosing
        (ih.before (Nat.le_trans (rankOf_le _) (Nat.le_of_eq (rank_of_eq isClosing).symm)))
      exact munches_closed fun _ => before_factor_of_call _ isIdent isOpening before isClosing
  | number isNumber =>
      refine munches_closed fun _ => Before.inr (Before.inl ?_)
      exact (before_token isNumber).map fun number => Expr.number number.value .nowhere
  | parenthesised isOpening inside isClosing ih =>
      have between := before_nested inside ih (rank_of_eq isClosing)
      exact munches_closed fun _ => Before.inr (Before.inr
        (before_enclosed id isOpening between isClosing))
  | conjunction only ih =>
      exact (munches_conjunction only ih).lift (Nat.le_refl 5) (fun _ before => before.chained)
        fun _ other derives => ⟨other, .conjunction derives⟩
  | disjunctive first isOperator second ih ih' =>
      have left := ih.before (Nat.le_of_eq (BinaryOp.rank_of_ofDisjunction? isOperator).symm)
      refine (munches_conjunction second ih').lift (Nat.le_refl 5)
        (fun _ before => left.chainedOn isOperator before) fun _ _ derives => ?_
      rw [List.append_assoc]
      exact ⟨_, .disjunctive first isOperator derives⟩
  | negation only ih =>
      exact ih.lift (Nat.le_refl 4) (fun _ before => before.chained)
        fun _ other derives => ⟨other, .negation derives⟩
  | conjunctive first isOperator second ih ih' =>
      have left := ih.before (Nat.le_of_eq (BinaryOp.rank_of_ofConjunction? isOperator).symm)
      refine ih'.lift (Nat.le_refl 4) (fun _ before => left.chainedOn isOperator before)
        fun _ _ derives => ?_
      rw [List.append_assoc]
      exact ⟨_, .conjunctive first isOperator derives⟩
  | not isNot operand ih =>
      refine ih.lift (Nat.le_refl 4) (fun front before => ?_) fun _ _ derives => ⟨_, .not isNot derives⟩
      change Before (negation nested) _ _ _
      rw [negation_eq]
      exact Before.inl (before_token_bind isNot (before.map fun operand => Expr.not operand .nowhere))
  | unrelated only ih =>
      refine (munches_sum only ih).close BinaryOp.rank_of_ofRelation? (fun front before isNone => ?_)
        .unrelated fun isOperator => ⟨[zero], _, .related only isOperator (derives_sum_zero _)⟩
      exact before_negation (before_comparison before isNone)
  | related first isOperator second ih ih' =>
      have left := (munches_sum first ih).before
        (Nat.le_of_eq (BinaryOp.rank_of_ofRelation? isOperator).symm)
      refine (munches_sum second ih').lift (Nat.le_succ 3) (fun _ before => ?_) fun _ _ derives => ?_
      · exact before_negation (before_related left isOperator before)
      · rw [List.append_assoc]
        exact ⟨_, .related first isOperator derives⟩
  | @placeVariable name isIdent =>
      refine ⟨fun kind => kind = .leftBracket, ?_, fun front notOn => ?_, fun front isOn => ?_⟩
      · rintro _ rfl
        exact Nat.one_pos
      · have stops : Before (ahead (· ≠ .leftBracket)) [] front () := before_ahead notOn
        have plain := stops.map fun _ => Expr.ident name.text .nowhere
        exact Before.bindAny (before_ident isIdent) plain.inr
      · exact ⟨[zero, .plain .rightBracket .nowhere], _,
          .placeElement isIdent isOn (derives_sum_zero _) rfl⟩
  | placeElement isIdent isOpening inside isClosing ih =>
      have index : Before (nested .arithmetic) _ _ _ := before_nested inside ih (rank_of_eq isClosing)
      exact munches_closed fun _ => Before.bindAny (before_ident isIdent)
        (before_element _ isOpening index isClosing).inl
  | argumentPlace takesPlaces only ih =>
      refine ih.lift (Nat.le_add_right 1 2) (fun _ before => ?_)
        fun _ other derives => ⟨other, .argumentPlace takesPlaces derives⟩
      change Before (argument nested _) _ _ _
      rw [argument_of_takesPlaces takesPlaces]
      exact before
  | argumentValue noPlaces only ih =>
      refine (munches_sum only ih).lift (Nat.le_refl 3) (fun _ before => ?_)
        fun _ other derives => ⟨other, .argumentValue noPlaces derives⟩
      change Before (argument nested _) _ _ _
      rw [argument_of_not_takesPlaces noPlaces, nested_eq]
      exact before
  | oneArgument only ih =>
      refine ih.lift (Nat.le_refl 3) (fun _ before others loops => ?_)
        fun _ _ derives => ⟨_, .oneArgument derives⟩
      exact ⟨_, _, before others loops, [], _, .nil, rfl, rfl⟩
  | furtherArgument first isComma next ih ih' =>
      have left := ih.before (Nat.le_trans (rankOf_le _) (Nat.le_of_eq (rank_of_eq isComma).symm))
      refine ih'.lift (Nat.le_refl 3) (fun _ before => before_further left isComma before)
        fun _ _ derives => ?_
      rw [List.append_assoc]
      exact ⟨_, .furtherArgument first isComma derives⟩

/-- A rule that takes phrases of a kind, and reads all of them as long as they go on, reads those that
the lexeme behind them cannot continue. -/
theorem reads_iff {phrase : Phrase} {rule : Rule Expr} {rank : Nat}
    (takes : Takes rule rule (Derives phrase)) (coincide : Coincide rule rule)
    (munches : ∀ {words tree}, Derives phrase words tree → Munches phrase rule rank words tree)
    (le : rank ≤ 6) {input rest : Input} {tree : Expr} (notEmpty : input.lexemes ≠ []) :
    rule input tree rest ↔ ∃ taken front others, input.lexemes = taken ++ front :: others ∧
      rest = ⟨front :: others, input.loops⟩ ∧ Derives phrase taken tree ∧
      ¬ ∃ more other, Derives phrase (taken ++ front :: more) other := by
  constructor
  · intro reads
    obtain ⟨taken, front, others, isInput, isRest, derives, before⟩ := takes _ _ _ reads notEmpty
    refine ⟨taken, front, others, isInput, isRest, derives, ?_⟩
    rintro ⟨more, other, longer⟩
    -- the longer phrase is read as well, in front of the end of the input
    have whole := @Munches.before _ _ _ _ _ (munches longer) (.plain .endOfInput .nowhere) le []
      input.loops
    have part := before (more ++ [.plain .endOfInput .nowhere]) input.loops
    rw [List.append_assoc] at whole
    have same := (coincide _ _ _ _ _ part whole).2
    simpa using congrArg (fun rest : Input => rest.lexemes.length) same
  · rintro ⟨taken, front, others, isInput, rfl, derives, last⟩
    obtain ⟨goesOn, -, reads, further⟩ := munches derives
    have notOn : ¬ goesOn front.kind := fun isOn => last (further front isOn)
    have read := reads front notOn others input.loops
    rwa [← isInput] at read

theorem condition_iff {input rest : Input} {tree : Expr} (notEmpty : input.lexemes ≠ []) :
    nested .condition input tree rest ↔ ∃ taken front others,
      input.lexemes = taken ++ front :: others ∧ rest = ⟨front :: others, input.loops⟩ ∧
      Derives .condition taken tree ∧
      ¬ ∃ more other, Derives .condition (taken ++ front :: more) other := by
  refine reads_iff (takes_nested .condition) (coincide_nested .condition) (fun derives => ?_)
    (Nat.le_refl 6) notEmpty
  rw [nested_eq]
  exact munches_condition derives (munches_of_derives derives)

theorem sum_iff {grammar : Grammar} {input rest : Input} {tree : Expr}
    (notEmpty : input.lexemes ≠ []) :
    sum nested grammar input tree rest ↔ ∃ taken front others,
      input.lexemes = taken ++ front :: others ∧ rest = ⟨front :: others, input.loops⟩ ∧
      Derives (.sum grammar) taken tree ∧
      ¬ ∃ more other, Derives (.sum grammar) (taken ++ front :: more) other :=
  reads_iff (takes_sum takes_nested grammar)
    (Coincide.sum coincide_nested begins_nested begins_nested grammar)
    (fun derives => munches_sum derives (munches_of_derives derives)) (by decide) notEmpty

end Rule

namespace Parse

/-- A step parses phrases of a kind: it succeeds with a tree exactly if the lexemes in front of the
parser begin with a phrase of that tree that the lexeme behind it cannot continue, and it takes that
phrase. -/
def Accepts (action : Parse Expr) (phrase : Phrase) (parser : Parser) : Prop :=
  ∀ tree rest, (∃ found after, action parser = .ok found after ∧ found.bare = tree ∧
      after.input = rest) ↔
    ∃ taken front others, parser.input.lexemes = taken ++ front :: others ∧
      rest = ⟨front :: others, parser.input.loops⟩ ∧ Derives phrase taken tree ∧
      ¬ ∃ more other, Derives phrase (taken ++ front :: more) other

/-- Expressions, outside of conditions and inside of them, and conditions are parsed exactly. -/
theorem nested_accepts {fuel : Nat} {parser : Parser} (bounded : parser.input.size ≤ fuel + 1) :
    Accepts (expression (fuel + 1)) (.sum .arithmetic) parser ∧
    (∀ grammar, Accepts (sum (fuel + 1) (nested fuel) grammar) (.sum grammar) parser) ∧
    Accepts (condition (fuel + 1)) .condition parser := by
  have notEmpty : parser.input.lexemes ≠ [] := List.length_pos_iff.1 parser.input_size_pos
  have sums (grammar : Grammar) :
      Accepts (sum (fuel + 1) (nested fuel) grammar) (.sum grammar) parser := by
    intro tree rest
    have inner (grammar : Grammar) := (reads_nested fuel grammar).weaken
    have reads := (reads_sum inner Rule.begins_nested grammar).exact parser bounded trivial tree rest
    exact reads.trans (Rule.sum_iff notEmpty)
  refine ⟨sums .arithmetic, sums, fun tree rest => ?_⟩
  have reads := (reads_nested (fuel + 1) .condition).exact parser bounded trivial tree rest
  exact reads.trans (Rule.condition_iff notEmpty)

/-- The theorem in front of `a = 0 then`. -/
theorem nested_accepts_comparison :
    (⟨Lexer.ofText " = 0 then", .ident "a" ⟨1, 1⟩, 0⟩ : Parser).input.size ≤ 4 + 1 ∧
    Accepts (expression 5) (.sum .arithmetic) ⟨Lexer.ofText " = 0 then", .ident "a" ⟨1, 1⟩, 0⟩ ∧
    (∀ grammar, Accepts (sum 5 (nested 4) grammar) (.sum grammar)
      ⟨Lexer.ofText " = 0 then", .ident "a" ⟨1, 1⟩, 0⟩) ∧
    Accepts (condition 5) .condition ⟨Lexer.ofText " = 0 then", .ident "a" ⟨1, 1⟩, 0⟩ := by
  have bounded : (⟨Lexer.ofText " = 0 then", .ident "a" ⟨1, 1⟩, 0⟩ : Parser).input.size ≤ 4 + 1 := by
    decide +kernel
  exact ⟨bounded, nested_accepts bounded⟩

end Parse

end MiniPascal
