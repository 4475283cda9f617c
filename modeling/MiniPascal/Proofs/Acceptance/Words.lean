import MiniPascal.Proofs.Acceptance.Determinism
import MiniPascal.Proofs.Grammar.Phrases

/-!
# What the rules of expressions take

A rule takes the lexemes of a phrase, and looks no further than at the lexeme behind them: with other
lexemes behind that one it takes the same.
-/

namespace MiniPascal.Rule

variable {α β : Type}

def Before (rule : Rule α) (words : List Token) (front : Token) (a : α) : Prop :=
  ∀ others loops, rule ⟨words ++ front :: others, loops⟩ a ⟨front :: others, loops⟩

theorem before_pure (front : Token) (a : α) : Before (pure a) [] front a :=
  fun _ _ => ⟨rfl, rfl⟩

theorem before_ahead {kinds : TokenKind → Prop} {front : Token} (holds : kinds front.kind) :
    Before (ahead kinds) [] front () :=
  fun _ _ => ⟨holds, rfl⟩

theorem before_token {kind : TokenKind} {word front : Token} (isKind : word.kind = kind) :
    Before (token kind) [word] front word :=
  fun others _ => ⟨isKind, front, others, rfl, rfl⟩

theorem Before.bind {rule : Rule α} {next : α → Rule β} {words words' : List Token}
    {middle front : Token} {a : α} {b : β} (first : Before rule words middle a)
    (second : Before (next a) words' front b) (isMiddle : (words' ++ [front]).head? = some middle) :
    Before (rule >>= next) (words ++ words') front b := by
  intro others loops
  have isCons : ∃ more, words' ++ front :: others = middle :: more := by
    cases words' with
    | nil =>
        obtain rfl := Option.some.inj isMiddle
        exact ⟨others, rfl⟩
    | cons word words' =>
        obtain rfl := Option.some.inj isMiddle
        exact ⟨words' ++ front :: others, rfl⟩
  obtain ⟨more, isCons⟩ := isCons
  refine ⟨a, ⟨words' ++ front :: others, loops⟩, ?_, second others loops⟩
  rw [List.append_assoc, isCons]
  exact first more loops

theorem Before.map {rule : Rule α} {words : List Token} {front : Token} {a : α}
    (before : Before rule words front a) (f : α → β) :
    Before (rule >>= fun a => pure (f a)) words front (f a) := by
  have last : Before (pure (f a)) [] front (f a) := before_pure front (f a)
  have mapped : Before (rule >>= fun a => pure (f a)) (words ++ []) front (f a) :=
    before.bind last rfl
  rwa [List.append_nil] at mapped

theorem Before.inl {rule other : Rule α} {words : List Token} {front : Token} {a : α}
    (before : Before rule words front a) : Before (rule <|> other) words front a :=
  fun others loops => .inl (before others loops)

theorem Before.inr {rule other : Rule α} {words : List Token} {front : Token} {a : α}
    (before : Before rule words front a) : Before (other <|> rule) words front a :=
  fun others loops => .inr (before others loops)

theorem head?_of_eq_append {words others others' : List Token} {middle front : Token}
    (same : middle :: others = words ++ front :: others') :
    (words ++ [front]).head? = some middle := by
  cases words with
  | nil => exact congrArg some (List.cons.inj same).1.symm
  | cons word words => exact congrArg some (List.cons.inj same).1.symm

def Takes (rule larger : Rule α) (kinds : List Token → α → Prop) : Prop :=
  ∀ input a rest, rule input a rest → input.lexemes ≠ [] →
    ∃ words front others, input.lexemes = words ++ front :: others ∧
      rest = ⟨front :: others, input.loops⟩ ∧ kinds words a ∧ Before larger words front a

theorem takes_pure (a : α) : Takes (pure a) (pure a) fun words b => words = [] ∧ b = a := by
  rintro ⟨lexemes, loops⟩ _ _ ⟨rfl, rfl⟩ notEmpty
  obtain ⟨front, others, rfl⟩ := List.exists_cons_of_ne_nil notEmpty
  exact ⟨[], front, others, rfl, rfl, ⟨rfl, rfl⟩, before_pure front _⟩

theorem takes_ahead (kinds : TokenKind → Prop) :
    Takes (ahead kinds) (ahead kinds) fun words _ => words = [] := by
  rintro ⟨lexemes, loops⟩ _ _ ⟨holds, rfl⟩ notEmpty
  obtain ⟨front, others, rfl⟩ := List.exists_cons_of_ne_nil notEmpty
  exact ⟨[], front, others, rfl, rfl, rfl, before_ahead holds⟩

theorem takes_token (kind : TokenKind) :
    Takes (token kind) (token kind) fun words word => words = [word] ∧ word.kind = kind := by
  rintro ⟨lexemes, loops⟩ word _ ⟨isKind, front, others, rfl, rfl⟩ -
  exact ⟨[word], front, others, rfl, rfl, ⟨rfl, isKind⟩, before_token isKind⟩

theorem Takes.mono {rule larger : Rule α} {kinds weaker : List Token → α → Prop}
    (takes : Takes rule larger kinds) (le : ∀ words a, kinds words a → weaker words a) :
    Takes rule larger weaker := by
  intro input a rest reads notEmpty
  obtain ⟨words, front, others, isInput, isRest, isKind, before⟩ := takes input a rest reads notEmpty
  exact ⟨words, front, others, isInput, isRest, le words a isKind, before⟩

theorem Takes.bind {rule larger : Rule α} {next next' : α → Rule β}
    {kinds : List Token → α → Prop} {kinds' : α → List Token → β → Prop}
    (first : Takes rule larger kinds) (second : ∀ a, Takes (next a) (next' a) (kinds' a)) :
    Takes (rule >>= next) (larger >>= next') fun words b =>
      ∃ words₁ words₂ a, words = words₁ ++ words₂ ∧ kinds words₁ a ∧ kinds' a words₂ b := by
  rintro ⟨lexemes, loops⟩ b rest ⟨a, middle, read, reads⟩ notEmpty
  obtain ⟨words, front, others, rfl, rfl, isKind, before⟩ := first _ _ _ read notEmpty
  obtain ⟨words', front', others', isMiddle, rfl, isKind', before'⟩ :=
    second a _ _ _ reads (List.cons_ne_nil _ _)
  refine ⟨words ++ words', front', others', ?_, rfl, ⟨words, words', a, rfl, isKind, isKind'⟩, ?_⟩
  · rw [List.append_assoc]
    exact congrArg (words ++ ·) isMiddle
  · exact before.bind before' (head?_of_eq_append isMiddle)

theorem Takes.map {rule larger : Rule α} {kinds : List Token → α → Prop} (f : α → β)
    (takes : Takes rule larger kinds) :
    Takes (rule >>= fun a => pure (f a)) (larger >>= fun a => pure (f a)) fun words b =>
      ∃ a, kinds words a ∧ b = f a := by
  refine (takes.bind fun a => takes_pure (f a)).mono ?_
  rintro _ b ⟨words, _, a, rfl, isKind, rfl, rfl⟩
  exact ⟨a, by simpa using isKind, rfl⟩

theorem Takes.orElse {rule larger rule' larger' : Rule α} {kinds : List Token → α → Prop}
    (first : Takes rule larger kinds) (second : Takes rule' larger' kinds) :
    Takes (rule <|> rule') (larger <|> larger') kinds := by
  rintro input a rest (reads | reads) notEmpty
  · obtain ⟨words, front, others, isInput, isRest, isKind, before⟩ := first _ _ _ reads notEmpty
    exact ⟨words, front, others, isInput, isRest, isKind, before.inl⟩
  · obtain ⟨words, front, others, isInput, isRest, isKind, before⟩ := second _ _ _ reads notEmpty
    exact ⟨words, front, others, isInput, isRest, isKind, before.inr⟩

inductive Sequence (kinds : List Token → α → Prop) : List Token → List α → Prop where
  | nil : Sequence kinds [] []
  | cons {words words' : List Token} {first : α} {others : List α} (head : kinds words first)
      (tail : Sequence kinds words' others) : Sequence kinds (words ++ words') (first :: others)

theorem Takes.star {rule larger : Rule α} {kinds : List Token → α → Prop}
    (takes : Takes rule larger kinds) : Takes (star rule) (star larger) (Sequence kinds) := by
  intro input as rest reads notEmpty
  induction reads with
  | @nil input =>
      obtain ⟨front, others, isCons⟩ := List.exists_cons_of_ne_nil notEmpty
      exact ⟨[], front, others, isCons, congrArg (Input.mk · input.loops) isCons, .nil, fun _ _ => .nil⟩
  | @cons input middle rest first others head _ ih =>
      obtain ⟨words, front, others', isInput, rfl, isKind, before⟩ := takes _ _ _ head notEmpty
      obtain ⟨words', front', others'', isMiddle, rfl, areKinds, before'⟩ := ih (List.cons_ne_nil _ _)
      refine ⟨words ++ words', front', others'', ?_, rfl, .cons isKind areKinds, ?_⟩
      · rw [List.append_assoc, isInput]
        exact congrArg (words ++ ·) isMiddle
      · have joined : Before (larger >>= fun first => Rule.star larger >>= fun others =>
            pure (first :: others)) (words ++ words') front' (first :: others) :=
          before.bind (before'.map (first :: ·)) (head?_of_eq_append isMiddle)
        intro more loops
        obtain ⟨_, _, read, _, _, reads, isCons, rfl⟩ := joined more loops
        cases isCons
        exact .cons read reads

/-! ### Operations -/

def OperationWords (operator? : TokenKind → Option BinaryOp) (operand : List Token → Expr → Prop)
    (words : List Token) (operation : BinaryOp × Position × Expr) : Prop :=
  ∃ sign words' op tree, words = sign :: words' ∧ operator? sign.kind = some op ∧
    operand words' tree ∧ operation = (op, .nowhere, tree)

theorem takes_operator (operator? : TokenKind → Option BinaryOp) :
    Takes (operator operator?) (operator operator?) fun words op =>
      ∃ sign : Token, words = [sign] ∧ operator? sign.kind = some op := by
  rintro input op rest ⟨kind, sign, isOp, passed⟩ notEmpty
  obtain ⟨words, front, others, isInput, isRest, ⟨isWords, isKind⟩, before⟩ :=
    takes_token kind _ _ _ passed notEmpty
  exact ⟨words, front, others, isInput, isRest, ⟨sign, isWords, isKind ▸ isOp⟩,
    fun more loops => ⟨kind, sign, isOp, before more loops⟩⟩

section

variable {operator? : TokenKind → Option BinaryOp} {first first' operand operand' : Rule Expr}

theorem takes_operation {words : List Token → Expr → Prop} (takes : Takes operand operand' words) :
    Takes (operation operator? operand) (operation operator? operand')
      (OperationWords operator? words) := by
  refine ((takes_operator operator?).bind fun op =>
    takes.map fun right => (op, Position.nowhere, right)).mono ?_
  rintro _ operation ⟨_, words', op, rfl, ⟨sign, rfl, isOp⟩, tree, isTree, rfl⟩
  exact ⟨sign, words', op, tree, rfl, isOp, isTree, rfl⟩

theorem takes_operations {phrase : Phrase} {words : List Token → Expr → Prop}
    (head : Takes first first' (Derives phrase)) (takes : Takes operand operand' words)
    (extend : ∀ {front : List Token} {left : Expr} {sign : Token} {op : BinaryOp}
      {behind : List Token} {right : Expr}, Derives phrase front left →
      operator? sign.kind = some op → words behind right →
      Derives phrase (front ++ sign :: behind) (.binary op left right .nowhere)) :
    Takes (operations operator? first operand) (operations operator? first' operand')
      (Derives phrase) := by
  have chained {front behind : List Token} {left : Expr} {others : List (BinaryOp × Position × Expr)}
      (isFront : Derives phrase front left)
      (areOthers : Sequence (OperationWords operator? words) behind others) :
      Derives phrase (front ++ behind) (Parse.chain left others) := by
    induction areOthers generalizing front left with
    | nil => simpa [Parse.chain] using isFront
    | cons operation _ ih =>
        obtain ⟨sign, words', op, tree, rfl, isOp, isTree, rfl⟩ := operation
        have whole := ih (extend isFront isOp isTree)
        rw [List.append_assoc] at whole
        exact whole
  refine (head.bind fun left => (takes_operation takes).star.bind fun others =>
    (takes_ahead _).bind fun _ => takes_pure (Parse.chain left others)).mono ?_
  rintro _ tree ⟨front, _, left, rfl, isLeft, behind, _, others, rfl, areOthers, _, _, _, rfl, rfl,
    rfl, rfl⟩
  simpa using chained isLeft areOthers

end

/-! ### Expressions -/

section

variable {nested larger : Grammar → Rule Expr}
  (inner : ∀ grammar, Takes (nested grammar) (larger grammar) (Derives (.inner grammar)))

include inner

theorem takes_element (array : String) :
    Takes (element nested array) (element larger array) fun words tree =>
      ∃ (opening closing : Token) (inside : List Token) (index : Expr),
        words = opening :: (inside ++ [closing]) ∧ opening.kind = .leftBracket ∧
        Derives (.sum .arithmetic) inside index ∧ closing.kind = .rightBracket ∧
        tree = .element array index .nowhere := by
  refine ((takes_token .leftBracket).bind fun _ => (inner .arithmetic).bind fun index =>
    (takes_token .rightBracket).bind fun _ => takes_pure (Expr.element array index .nowhere)).mono ?_
  rintro _ tree ⟨_, _, opening, rfl, ⟨rfl, isOpening⟩, inside, _, index, rfl, isIndex, _, _, closing,
    rfl, ⟨rfl, isClosing⟩, rfl, rfl⟩
  exact ⟨opening, closing, inside, index, by simp, isOpening, isIndex, isClosing, rfl⟩

omit inner in
theorem takes_ident :
    Takes ident ident fun words name =>
      ∃ word : Token, words = [word] ∧ word.kind = .ident ∧ name = word.text := by
  refine ((takes_token .ident).map Token.text).mono ?_
  rintro words _ ⟨word, ⟨rfl, isIdent⟩, rfl⟩
  exact ⟨word, rfl, isIdent, rfl⟩

theorem takes_assignable : Takes (assignable nested) (assignable larger) (Derives .place) := by
  have behind (name : String) : Takes (element nested name <|> do
      ahead (· ≠ .leftBracket)
      return Expr.ident name .nowhere) (element larger name <|> do
      ahead (· ≠ .leftBracket)
      return Expr.ident name .nowhere) fun words tree =>
        ∀ word : Token, word.kind = .ident → name = word.text → Derives .place (word :: words) tree := by
    refine Takes.orElse ((takes_element inner name).mono ?_)
      (((takes_ahead _).map fun _ => Expr.ident name .nowhere).mono ?_)
    · rintro words tree ⟨opening, closing, inside, index, rfl, isOpening, isIndex, isClosing, rfl⟩
        word isIdent rfl
      exact .placeElement isIdent isOpening isIndex isClosing
    · rintro words _ ⟨_, rfl, rfl⟩ word isIdent rfl
      exact .placeVariable isIdent
  refine (takes_ident.bind behind).mono ?_
  rintro _ tree ⟨_, words, name, rfl, ⟨word, rfl, isIdent, isName⟩, isPlace⟩
  exact isPlace word isIdent isName

theorem takes_argument (callee : String) :
    Takes (argument nested callee) (argument larger callee) (Derives (.argument callee)) := by
  have place := takes_assignable inner
  unfold argument
  split
  · rename_i isReadln
    exact place.mono fun _ _ => .argumentPlace (.inl isReadln)
  · rename_i isDec
    exact place.mono fun _ _ => .argumentPlace (.inr isDec)
  · rename_i notReadln notDec
    exact (inner .arithmetic).mono fun _ _ => .argumentValue fun takesPlaces =>
      takesPlaces.elim notReadln notDec

def Passed (callee : String) (words : List Token) (trees : List Expr) : Prop :=
  ∀ (grammar : Grammar) (name opening closing : Token), name.kind = .ident → name.text = callee →
    opening.kind = .leftParen → closing.kind = .rightParen →
      Derives (.factor grammar) (name :: opening :: (words ++ [closing]))
        (.call callee trees .nowhere)

def NextWords (callee : String) (words : List Token) (tree : Expr) : Prop :=
  ∃ comma words', words = comma :: words' ∧ comma.kind = .comma ∧
    Derives (.argument callee) words' tree

omit inner in
theorem derives_arguments {callee : String} {front behind : List Token} {trees more : List Expr}
    (first : Derives (.arguments callee) front (.call callee trees .nowhere))
    (others : Sequence (NextWords callee) behind more) :
    Derives (.arguments callee) (front ++ behind) (.call callee (trees ++ more) .nowhere) := by
  induction others generalizing front trees with
  | nil => simpa using first
  | cons next _ ih =>
      obtain ⟨comma, words, rfl, isComma, isArgument⟩ := next
      simpa using ih (.furtherArgument first isComma isArgument)

theorem takes_passed (callee : String) :
    Takes (passed nested callee) (passed larger callee) (Passed callee) := by
  unfold Rule.passed
  split
  · rename_i takesText
    refine (((takes_token .apostrophe).map fun text => Expr.literal text.text .nowhere).map
      fun tree => [tree]).mono ?_
    rintro _ _ ⟨_, ⟨text, ⟨rfl, isText⟩, rfl⟩, rfl⟩ grammar name opening closing isIdent rfl isOpening
      isClosing
    exact .callText isIdent takesText isOpening isText isClosing
  · rename_i noText
    have item := takes_argument inner callee
    have next : Takes (token .comma >>= fun _ => argument nested callee)
        (token .comma >>= fun _ => argument larger callee) (NextWords callee) := by
      refine ((takes_token .comma).bind fun _ => item).mono ?_
      rintro _ tree ⟨_, words, comma, rfl, ⟨rfl, isComma⟩, isArgument⟩
      exact ⟨comma, words, rfl, isComma, isArgument⟩
    refine Takes.orElse (((takes_ahead _).map fun _ => ([] : List Expr)).mono ?_)
      ((item.bind fun first => next.star.bind fun others => (takes_ahead _).bind fun _ =>
        takes_pure (first :: others)).mono ?_)
    · rintro _ _ ⟨_, rfl, rfl⟩ grammar name opening closing isIdent rfl isOpening isClosing
      exact .callEmpty isIdent noText isOpening isClosing
    · rintro _ _ ⟨front, _, first, rfl, isFirst, behind, _, others, rfl, areOthers, _, _, _, rfl, rfl,
        rfl, rfl⟩ grammar name opening closing isIdent rfl isOpening isClosing
      have inside := derives_arguments (.oneArgument isFirst) areOthers
      simpa using Derives.call isIdent noText isOpening inside isClosing

theorem takes_arguments (callee : String) :
    Takes (arguments nested callee) (arguments larger callee) fun words trees =>
      ∃ (opening closing : Token) (inside : List Token), words = opening :: (inside ++ [closing]) ∧
        opening.kind = .leftParen ∧ closing.kind = .rightParen ∧ Passed callee inside trees := by
  refine ((takes_token .leftParen).bind fun _ => (takes_passed inner callee).bind fun trees =>
    (takes_token .rightParen).bind fun _ => takes_pure trees).mono ?_
  rintro _ trees ⟨_, _, opening, rfl, ⟨rfl, isOpening⟩, inside, _, _, rfl, isPassed, _, _, closing,
    rfl, ⟨rfl, isClosing⟩, rfl, rfl⟩
  exact ⟨opening, closing, inside, by simp, isOpening, isClosing, isPassed⟩

theorem takes_reference (grammar : Grammar) :
    Takes (reference nested) (reference larger) (Derives (.factor grammar)) := by
  have behind (name : String) : Takes (element nested name <|> (do
      let arguments ← arguments nested name
      return .call name arguments .nowhere) <|> do
      ahead fun kind => kind ≠ .leftBracket ∧ kind ≠ .leftParen
      return Expr.ident name .nowhere) (element larger name <|> (do
      let arguments ← arguments larger name
      return .call name arguments .nowhere) <|> do
      ahead fun kind => kind ≠ .leftBracket ∧ kind ≠ .leftParen
      return Expr.ident name .nowhere) fun words tree =>
        ∀ word : Token, word.kind = .ident → name = word.text →
          Derives (.factor grammar) (word :: words) tree := by
    refine Takes.orElse ((takes_element inner name).mono ?_) (Takes.orElse
      (((takes_arguments inner name).map fun trees => Expr.call name trees .nowhere).mono ?_)
      (((takes_ahead _).map fun _ => Expr.ident name .nowhere).mono ?_))
    · rintro _ _ ⟨opening, closing, inside, index, rfl, isOpening, isIndex, isClosing, rfl⟩ word
        isIdent rfl
      exact .element isIdent isOpening isIndex isClosing
    · rintro _ _ ⟨trees, ⟨opening, closing, inside, rfl, isOpening, isClosing, isPassed⟩, rfl⟩ word
        isIdent rfl
      exact isPassed grammar word opening closing isIdent rfl isOpening isClosing
    · rintro _ _ ⟨_, rfl, rfl⟩ word isIdent rfl
      exact .name isIdent
  refine (takes_ident.bind behind).mono ?_
  rintro _ tree ⟨_, words, name, rfl, ⟨word, rfl, isIdent, isName⟩, isFactor⟩
  exact isFactor word isIdent isName

theorem takes_factor (grammar : Grammar) :
    Takes (factor nested grammar) (factor larger grammar) (Derives (.factor grammar)) := by
  refine (takes_reference inner grammar).orElse (Takes.orElse
    (((takes_token .number).map fun literal : Token => Expr.number literal.value .nowhere).mono ?_)
    (((takes_token .leftParen).bind fun _ => (inner grammar).bind fun tree =>
      (takes_token .rightParen).bind fun _ => takes_pure tree).mono ?_))
  · rintro _ _ ⟨literal, ⟨rfl, isNumber⟩, rfl⟩
    exact .number isNumber
  · rintro _ tree ⟨_, _, opening, rfl, ⟨rfl, isOpening⟩, inside, _, _, rfl, isInside, _, _, closing,
      rfl, ⟨rfl, isClosing⟩, rfl, rfl⟩
    simpa using Derives.parenthesised isOpening isInside isClosing

theorem takes_term (grammar : Grammar) :
    Takes (term nested grammar) (term larger grammar) (Derives (.term grammar)) :=
  have factor := takes_factor inner grammar
  takes_operations (factor.mono fun _ _ => .factor) factor .multiplicative

theorem takes_sum (grammar : Grammar) :
    Takes (sum nested grammar) (sum larger grammar) (Derives (.sum grammar)) := by
  have term := takes_term inner grammar
  refine takes_operations (Takes.orElse (((takes_token .minus).bind fun _ =>
    term.map fun operand => Expr.negate operand .nowhere).mono ?_) (term.mono fun _ _ => .term)) term
    .additive
  rintro _ _ ⟨_, words, sign, rfl, ⟨rfl, isMinus⟩, operand, isOperand, rfl⟩
  exact .negated isMinus isOperand

theorem takes_comparison :
    Takes (comparison nested) (comparison larger) (Derives .negation) := by
  have sums := takes_sum inner .condition
  have behind (left : Expr) : Takes ((do
      let operation ← operation BinaryOp.ofRelation? (sum nested .condition)
      return Parse.chain left [operation]) <|> do
      ahead fun kind => BinaryOp.ofRelation? kind = none
      return left) ((do
      let operation ← operation BinaryOp.ofRelation? (sum larger .condition)
      return Parse.chain left [operation]) <|> do
      ahead fun kind => BinaryOp.ofRelation? kind = none
      return left) fun words tree => ∀ front, Derives (.sum .condition) front left →
        Derives .negation (front ++ words) tree := by
    refine Takes.orElse (((takes_operation sums).map fun operation =>
      Parse.chain left [operation]).mono ?_) (((takes_ahead _).map fun _ => left).mono ?_)
    · rintro _ _ ⟨_, ⟨sign, words, op, right, rfl, isOp, isRight, rfl⟩, rfl⟩ front isLeft
      exact .related isLeft isOp isRight
    · rintro _ _ ⟨_, rfl, rfl⟩ front isLeft
      rw [List.append_nil]
      exact .unrelated isLeft
  refine (sums.bind behind).mono ?_
  rintro _ tree ⟨front, words, left, rfl, isLeft, isTree⟩
  exact isTree front isLeft

theorem takes_negation : Takes (negation nested) (negation larger) (Derives .negation) := by
  intro input tree rest reads notEmpty
  induction reads with
  | plain read =>
      obtain ⟨words, front, others, isInput, isRest, isPhrase, before⟩ :=
        takes_comparison inner _ _ _ read notEmpty
      exact ⟨words, front, others, isInput, isRest, isPhrase,
        fun more loops => .plain (before more loops)⟩
  | not passed _ ih =>
      obtain ⟨_, front, others, isInput, rfl, ⟨rfl, isNot⟩, before⟩ :=
        takes_token _ _ _ _ passed notEmpty
      obtain ⟨words, front', others', isMiddle, isRest, isPhrase, before'⟩ :=
        ih (List.cons_ne_nil _ _)
      refine ⟨_ :: words, front', others', ?_, isRest, .not isNot isPhrase, ?_⟩
      · rw [isInput]
        exact congrArg (_ :: ·) isMiddle
      · have operand := before'.map fun operand => Expr.not operand .nowhere
        rw [negation_eq]
        exact Before.inl (Before.bind before operand (head?_of_eq_append isMiddle))

theorem takes_disjunction :
    Takes (disjunction nested) (disjunction larger) (Derives .condition) :=
  have negation := takes_negation inner
  have conjunction : Takes (conjunction nested) (conjunction larger) (Derives .conjunction) :=
    takes_operations (negation.mono fun _ _ => .negation) negation .conjunctive
  takes_operations (conjunction.mono fun _ _ => .conjunction) conjunction .disjunctive

end

theorem takes_nested (grammar : Grammar) :
    Takes (nested grammar) (nested grammar) (Derives (.inner grammar)) := by
  intro input tree rest derived
  induction derived with
  | @intro inner below index input rest tree root ih =>
      have takes (grammar : Grammar) :
          Takes (inner grammar) (nested grammar) (Derives (.inner grammar)) := ih grammar
      rw [nested_eq]
      cases index with
      | arithmetic => exact takes_sum takes .arithmetic input tree rest root
      | condition => exact takes_disjunction takes input tree rest root

end MiniPascal.Rule
