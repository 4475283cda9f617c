import MiniPascal.Proofs.Acceptance.Expressions

/-!
# Expressions are read in one way

Every look ahead in the rules of expressions decides between what else could be read.  So what a rule
reads in front of it, and the tree of it, is determined.
-/

namespace MiniPascal.Rule

variable {α β : Type}

/-- Two rules read nothing in two ways. -/
def Coincide (first second : Rule α) : Prop :=
  ∀ input a rest b rest', first input a rest → second input b rest' → a = b ∧ rest = rest'

theorem coincide_pure (a : α) : Coincide (pure a) (pure a) := by
  rintro input _ _ _ _ ⟨rfl, rfl⟩ ⟨rfl, rfl⟩
  exact ⟨rfl, rfl⟩

theorem coincide_ahead (kinds : TokenKind → Prop) : Coincide (ahead kinds) (ahead kinds) := by
  rintro input _ _ _ _ ⟨-, rfl⟩ ⟨-, rfl⟩
  exact ⟨rfl, rfl⟩

theorem coincide_token (kind : TokenKind) : Coincide (token kind) (token kind) := by
  rintro input a rest b rest' ⟨-, next, others, isInput, rfl⟩ ⟨-, next', others', isInput', rfl⟩
  rw [isInput] at isInput'
  cases isInput'
  exact ⟨rfl, rfl⟩

theorem Coincide.bind {first first' : Rule α} {next next' : α → Rule β}
    (head : Coincide first first') (tail : ∀ a, Coincide (next a) (next' a)) :
    Coincide (first >>= next) (first' >>= next') := by
  rintro input b rest b' rest' ⟨a, middle, read, reads⟩ ⟨a', middle', read', reads'⟩
  obtain ⟨rfl, rfl⟩ := head _ _ _ _ _ read read'
  exact tail a _ _ _ _ _ reads reads'

theorem Coincide.orElse {first first' second second' : Rule α} {kinds others : TokenKind → Prop}
    (left : Coincide first first') (right : Coincide second second') (begins : Begins kinds first)
    (begins' : Begins kinds first') (differs : Begins others second) (differs' : Begins others second')
    (apart : ∀ kind, kinds kind → ¬ others kind) :
    Coincide (first <|> second) (first' <|> second') := by
  rintro input a rest b rest' (read | read) (read' | read')
  · exact left _ _ _ _ _ read read'
  · exact absurd (differs' _ _ _ read') (apart _ (begins _ _ _ read))
  · exact absurd (differs _ _ _ read) (apart _ (begins' _ _ _ read'))
  · exact right _ _ _ _ _ read read'

theorem Coincide.many {item item' : Rule α} {stops : TokenKind → Prop} (each : Coincide item item')
    (begins : Begins (¬ stops ·) item) (begins' : Begins (¬ stops ·) item') {input rest rest' : Input}
    {as bs : List α} (reads : Many item input as rest) (stops_ : stops rest.kind)
    (reads' : Many item' input bs rest') (stops' : stops rest'.kind) : as = bs ∧ rest = rest' := by
  induction reads generalizing bs with
  | nil =>
      cases reads' with
      | nil => exact ⟨rfl, rfl⟩
      | cons head _ => exact absurd stops_ (begins' _ _ _ head)
  | cons head _ ih =>
      cases reads' with
      | nil => exact absurd stops' (begins _ _ _ head)
      | cons head' tail' =>
          obtain ⟨rfl, rfl⟩ := each _ _ _ _ _ head head'
          obtain ⟨rfl, rfl⟩ := ih stops_ tail'
          exact ⟨rfl, rfl⟩

theorem Coincide.loop {item item' : Rule α} {stops : TokenKind → Prop} {next next' : List α → Rule β}
    (each : Coincide item item') (begins : Begins (¬ stops ·) item)
    (begins' : Begins (¬ stops ·) item') (tail : ∀ as, Coincide (next as) (next' as)) :
    Coincide (star item >>= fun as => ahead stops >>= fun _ => next as)
      (star item' >>= fun as => ahead stops >>= fun _ => next' as) := by
  rintro input b rest b' rest' ⟨as, _, reads, _, _, ⟨stops_, rfl⟩, last⟩
    ⟨as', _, reads', _, _, ⟨stops', rfl⟩, last'⟩
  obtain ⟨rfl, rfl⟩ := each.many begins begins' reads stops_ reads' stops'
  exact tail as _ _ _ _ _ last last'

/-! ### Operations -/

theorem coincide_operator (operator? : TokenKind → Option BinaryOp) :
    Coincide (operator operator?) (operator operator?) := by
  rintro input op rest op' rest' ⟨kind, sign, isOp, passed⟩ ⟨kind', sign', isOp', passed'⟩
  obtain rfl : kind = kind' :=
    (begins_token kind _ _ _ passed).symm.trans (begins_token kind' _ _ _ passed')
  exact ⟨Option.some.inj (isOp.symm.trans isOp'), (coincide_token kind _ _ _ _ _ passed passed').2⟩

theorem begins_operator (operator? : TokenKind → Option BinaryOp) :
    Begins (operator? · ≠ none) (operator operator?) := by
  rintro input op rest ⟨kind, sign, isOp, passed⟩
  rw [begins_token kind _ _ _ passed, isOp]
  exact Option.some_ne_none op

section

variable {operator? : TokenKind → Option BinaryOp} {operand operand' : Rule Expr}

theorem Coincide.operation (operands : Coincide operand operand') :
    Coincide (operation operator? operand) (operation operator? operand') :=
  (coincide_operator operator?).bind fun _ => operands.bind fun _ => coincide_pure _

theorem Coincide.operations {first first' : Rule Expr} (heads : Coincide first first')
    (operands : Coincide operand operand') :
    Coincide (operations operator? first operand) (operations operator? first' operand') :=
  heads.bind fun _ => (Coincide.operation operands).loop ((begins_operator operator?).bind _)
    ((begins_operator operator?).bind _) fun _ => coincide_pure _

end

/-! ### Expressions -/

section

variable {nested other : Grammar → Rule Expr}
  (inner : ∀ grammar, Coincide (nested grammar) (other grammar))
  (starts : ∀ grammar, Begins BeginsExpression (nested grammar))
  (starts' : ∀ grammar, Begins BeginsExpression (other grammar))

include inner

theorem Coincide.element (array : String) :
    Coincide (element nested array) (element other array) :=
  (coincide_token _).bind fun _ => (inner .arithmetic).bind fun _ =>
    (coincide_token _).bind fun _ => coincide_pure _

theorem Coincide.assignable : Coincide (assignable nested) (assignable other) := by
  refine ((coincide_token .ident).bind fun _ => coincide_pure _).bind fun name => ?_
  exact (Coincide.element inner name).orElse ((coincide_ahead _).bind fun _ => coincide_pure _)
    (begins_element nested name) (begins_element other name) (begins_ahead.bind _)
    (begins_ahead.bind _) fun _ isBracket notBracket => notBracket isBracket

theorem Coincide.argument (callee : String) :
    Coincide (argument nested callee) (argument other callee) := by
  unfold Rule.argument
  split
  · exact Coincide.assignable inner
  · exact Coincide.assignable inner
  · exact inner .arithmetic

include starts starts'

theorem Coincide.arguments (callee : String) :
    Coincide (arguments nested callee) (arguments other callee) := by
  refine (coincide_token _).bind fun _ => Coincide.bind ?_ fun _ =>
    (coincide_token _).bind fun _ => coincide_pure _
  unfold Rule.passed
  split
  · exact ((coincide_token _).bind fun _ => coincide_pure _).bind fun _ => coincide_pure _
  · have item := Coincide.argument inner callee
    have begins := Parse.begins_argument starts callee
    have begins' := Parse.begins_argument starts' callee
    have comma (next : Token → Rule Expr) :
        Begins (fun kind => ¬ kind = .rightParen) (token .comma >>= next) :=
      ((begins_token .comma).bind _).mono fun _ isComma => isComma ▸ by decide
    refine Coincide.orElse ((coincide_ahead _).bind fun _ => coincide_pure _) (item.bind fun first => ?_)
      (begins_ahead.bind _) (begins_ahead.bind _) (begins.bind _) (begins'.bind _)
      fun _ isParen notParen => notParen isParen
    exact Coincide.loop ((coincide_token _).bind fun _ => item) (comma _) (comma _)
      fun _ => coincide_pure _

theorem Coincide.reference : Coincide (reference nested) (reference other) := by
  refine ((coincide_token .ident).bind fun _ => coincide_pure _).bind fun name => ?_
  have call := (Coincide.arguments inner starts starts' name).bind fun arguments =>
    coincide_pure (Expr.call name arguments .nowhere)
  have plain := (coincide_ahead fun kind => kind ≠ .leftBracket ∧ kind ≠ .leftParen).bind fun _ =>
    coincide_pure (Expr.ident name .nowhere)
  have others := call.orElse plain ((begins_arguments nested name).bind _)
    ((begins_arguments other name).bind _) (begins_ahead.bind _) (begins_ahead.bind _)
    fun _ isParen notParen => notParen.2 isParen
  have notElement (rule : Grammar → Rule Expr) : Begins (· ≠ .leftBracket) ((do
      let arguments ← Rule.arguments rule name
      return .call name arguments .nowhere) <|> (do
      Rule.ahead fun kind => kind ≠ .leftBracket ∧ kind ≠ .leftParen
      return .ident name .nowhere) : Rule Expr) :=
    (((begins_arguments rule name).bind _).mono fun _ isParen => isParen ▸ by decide).orElse
      ((begins_ahead.bind _).mono fun _ => And.left)
  exact (Coincide.element inner name).orElse others (begins_element nested name)
    (begins_element other name) (notElement nested) (notElement other)
    fun _ isBracket notBracket => notBracket isBracket

theorem Coincide.factor (grammar : Grammar) : Coincide (factor nested grammar) (factor other grammar) := by
  have number : Coincide number number := (coincide_token _).bind fun _ => coincide_pure _
  have parenthesised : Coincide (parenthesised nested grammar) (parenthesised other grammar) :=
    (coincide_token _).bind fun _ => (inner grammar).bind fun _ =>
      (coincide_token _).bind fun _ => coincide_pure _
  have others := number.orElse parenthesised begins_number begins_number
    (begins_parenthesised nested grammar) (begins_parenthesised other grammar)
    fun _ isNumber => by simp [isNumber]
  exact (Coincide.reference inner starts starts').orElse others (begins_reference nested)
    (begins_reference other) (begins_number.union (begins_parenthesised nested grammar))
    (begins_number.union (begins_parenthesised other grammar)) fun _ isIdent => by simp [isIdent]

theorem Coincide.term (grammar : Grammar) : Coincide (term nested grammar) (term other grammar) :=
  have factor := Coincide.factor inner starts starts' grammar
  factor.operations factor

theorem Coincide.sum (grammar : Grammar) : Coincide (sum nested grammar) (sum other grammar) := by
  have term := Coincide.term inner starts starts' grammar
  have signed : Coincide (signedTerm nested grammar) (signedTerm other grammar) := by
    refine Coincide.orElse ((coincide_token _).bind fun _ => term.bind fun _ => coincide_pure _) term
      ((begins_token _).bind _) ((begins_token _).bind _) (begins_term nested grammar)
      (begins_term other grammar) fun _ isMinus => ?_
    simp [isMinus, BeginsOperand]
  exact signed.operations term

theorem Coincide.comparison : Coincide (comparison nested) (comparison other) := by
  have sum := Coincide.sum inner starts starts' .condition
  have relation (rule : Rule Expr) (left : Expr) :
      Begins (BinaryOp.ofRelation? · ≠ none) (do
        let operation ← Rule.operation BinaryOp.ofRelation? rule
        return Parse.chain left [operation]) :=
    Begins.bind ((begins_operator _).bind _) _
  refine sum.bind fun left => Coincide.orElse (sum.operation.bind fun _ => coincide_pure _)
    ((coincide_ahead _).bind fun _ => coincide_pure _) (relation _ left) (relation _ left)
    (begins_ahead.bind _) (begins_ahead.bind _) fun _ isSome isNone => isSome isNone

theorem Coincide.negation : Coincide (negation nested) (negation other) := by
  have comparison := Coincide.comparison inner starts starts'
  intro input a rest b rest' reads reads'
  have apart (rule : Grammar → Rule Expr) {input middle rest : Input} {sign : Token} {tree : Expr}
      (passed : token .notWord input sign middle) : ¬ Rule.comparison rule input tree rest := by
    intro read
    have begins := begins_comparison rule _ _ _ read
    rw [begins_token _ _ _ _ passed] at begins
    simp [BeginsOperand] at begins
  induction reads generalizing b with
  | plain read =>
      cases reads' with
      | plain read' => exact comparison _ _ _ _ _ read read'
      | not passed' => exact absurd read (apart nested passed')
  | not passed _ ih =>
      cases reads' with
      | plain read' => exact absurd read' (apart other passed)
      | not passed' negation' =>
          obtain ⟨rfl, rfl⟩ := coincide_token _ _ _ _ _ _ passed passed'
          obtain ⟨rfl, rfl⟩ := ih _ negation'
          exact ⟨rfl, rfl⟩

theorem Coincide.disjunction : Coincide (disjunction nested) (disjunction other) :=
  have negation := Coincide.negation inner starts starts'
  have conjunction : Coincide (conjunction nested) (conjunction other) := negation.operations negation
  conjunction.operations conjunction

end

theorem coincide_nested (grammar : Grammar) : Coincide (nested grammar) (nested grammar) := by
  intro input a rest b rest' derived
  induction derived generalizing b rest' with
  | @intro inner below index input rest a root ih =>
      intro derived'
      have same (grammar : Grammar) : Coincide (inner grammar) (nested grammar) :=
        fun input a rest b rest' read read' => ih grammar input a rest read b rest' read'
      have starts (grammar : Grammar) : Begins BeginsExpression (inner grammar) :=
        fun input a rest read => begins_nested grammar input a rest (below grammar input a rest read)
      rw [nested_eq] at derived'
      cases index with
      | arithmetic => exact Coincide.sum same starts begins_nested _ _ _ _ _ _ root derived'
      | condition => exact Coincide.disjunction same starts begins_nested _ _ _ _ _ root derived'

end MiniPascal.Rule
