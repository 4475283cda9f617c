import MiniPascal.Proofs.Printing.Lexemes
import MiniPascal.Proofs.Tree.Grammatical
import MiniPascal.Proofs.Tree.Normal
import MiniPascal.Tree.Printer

/-!
# Printed expressions are read again

The text of an expression is a factor of the grammar: operations stand in parentheses.  What it is
read as is the expression in its normal form.
-/

namespace MiniPascal

/-- A text is read by a rule as something, in front of lexemes of some kinds. -/
def Rule.Spells {α : Type} (rule : Rule α) (follow : TokenKind → Prop) (text : String) (a : α) : Prop :=
  ∃ tokens, Writes text tokens ∧ ∀ next others loops, follow next.kind →
    rule ⟨tokens ++ next :: others, loops⟩ a ⟨next :: others, loops⟩

def EndsReference (kind : TokenKind) : Prop := kind ≠ .leftBracket ∧ kind ≠ .leftParen

def EndsExpression (kind : TokenKind) : Prop :=
  EndsReference kind ∧ BinaryOp.ofMultiplicative? kind = none ∧ BinaryOp.ofAdditive? kind = none ∧
    BinaryOp.ofRelation? kind = none ∧ BinaryOp.ofConjunction? kind = none ∧
    BinaryOp.ofDisjunction? kind = none

instance (kind : TokenKind) : Decidable (EndsReference kind) := by
  unfold EndsReference
  infer_instance

instance (kind : TokenKind) : Decidable (EndsExpression kind) := by
  unfold EndsExpression
  infer_instance

theorem ends_rightParen : EndsExpression .rightParen := by decide

def BinaryOp.kind : BinaryOp → TokenKind
  | add => .plus
  | sub => .minus
  | mul => .times
  | div => .divWord
  | mod => .modWord
  | equal => .equal
  | notEqual => .notEqual
  | less => .less
  | greater => .greater
  | lessEqual => .lessEqual
  | greaterEqual => .greaterEqual
  | and => .andWord
  | or => .orWord

theorem closed_operator (op : BinaryOp) :
    Detaches (" " ++ op.spelling ++ " ") ∧ Closed (" " ++ op.spelling ++ " ") [.sign op.kind] := by
  constructor
  · have detaches : Detaches " " := by decide
    exact detaches.append.append
  · cases op <;> rfl

namespace Rule

abbrev anywhere : TokenKind → Prop := fun _ => True

variable {α : Type} {rule : Rule α} {follow more : TokenKind → Prop} {text : String} {a : α}

theorem Spells.mono (spells : Spells rule follow text a) (weaker : ∀ kind, more kind → follow kind) :
    Spells rule more text a := by
  obtain ⟨tokens, writes, reads⟩ := spells
  exact ⟨tokens, writes, fun next others loops follows => reads next others loops (weaker _ follows)⟩

theorem Spells.le {larger : Rule α} (spells : Spells rule follow text a) (le : Le rule larger) :
    Spells larger follow text a := by
  obtain ⟨tokens, writes, reads⟩ := spells
  exact ⟨tokens, writes, fun next others loops follows => le _ _ _ (reads next others loops follows)⟩

theorem Spells.map {β : Type} (f : α → β) (spells : Spells rule follow text a) :
    Spells (do
      let a ← rule
      return f a) follow text (f a) := by
  obtain ⟨tokens, writes, reads⟩ := spells
  exact ⟨tokens, writes, fun next others loops ends =>
    ⟨a, _, reads next others loops ends, rfl, rfl⟩⟩

theorem Spells.bind {β : Type} {text' : String} {b : β}
    (first : Spells rule anywhere text a) (next : α → Rule β) (detaches : Detaches text')
    (second : Spells (next a) follow text' b) : Spells (rule >>= next) follow (text ++ text') b := by
  obtain ⟨tokens, writes, reads⟩ := first
  obtain ⟨tokens', writes', reads'⟩ := second
  refine ⟨tokens ++ tokens', writes.append detaches writes', fun last others loops ends => ?_⟩
  obtain ⟨front, behind, isCons⟩ :=
    List.exists_cons_of_ne_nil (show tokens' ++ last :: others ≠ [] by simp)
  have read := reads front behind loops trivial
  rw [← isCons, ← List.append_assoc] at read
  exact ⟨a, _, read, reads' last others loops ends⟩

/-! The lexeme in front of others. -/

section

variable {kind : TokenKind} {name : String} {next : Token} {tokens others : List Token} {loops : Nat}

theorem token_append (first : Token) : token first.kind ⟨first :: (tokens ++ next :: others), loops⟩
    first ⟨tokens ++ next :: others, loops⟩ := by
  cases tokens with
  | nil => exact ⟨rfl, _, _, rfl, rfl⟩
  | cons second tokens => exact ⟨rfl, _, _, rfl, rfl⟩

theorem sign_append : token kind ⟨.sign kind :: (tokens ++ next :: others), loops⟩ (.sign kind)
    ⟨tokens ++ next :: others, loops⟩ :=
  token_append (.sign kind)

theorem sign_cons :
    token kind ⟨.sign kind :: next :: others, loops⟩ (.sign kind) ⟨next :: others, loops⟩ :=
  ⟨rfl, _, _, rfl, rfl⟩

theorem ident_append : ident ⟨.ident name .nowhere :: (tokens ++ next :: others), loops⟩ name
    ⟨tokens ++ next :: others, loops⟩ :=
  ⟨_, _, token_append (.ident name .nowhere), rfl, rfl⟩

theorem ident_cons :
    ident ⟨.ident name .nowhere :: next :: others, loops⟩ name ⟨next :: others, loops⟩ :=
  ⟨.ident name .nowhere, _, ⟨rfl, _, _, rfl, rfl⟩, rfl, rfl⟩

end

theorem spells_ident {name : String} (isIdentifier : IsIdentifier name) :
    Spells ident anywhere name name :=
  ⟨[.ident name .nowhere], writes_ident isIdentifier, fun _ _ _ _ => ident_cons⟩

def separated (kind : TokenKind) (item : Rule α) : Rule (List α) := do
  let first ← item
  let others ← star do
    let _ ← token kind
    item
  return first :: others

theorem spells_separated {β : Type} {kind : TokenKind} {glue : String} (detaches : Detaches glue)
    (closed : Closed glue [.sign kind]) (follows : follow kind) {render : β → String}
    {result : β → α} {items : List β} (notEmpty : items ≠ [])
    (spells : ∀ item ∈ items, Spells rule follow (render item) (result item)) :
    Spells (separated kind rule) follow (glue.intercalate (items.map render)) (items.map result) := by
  induction items with
  | nil => exact absurd rfl notEmpty
  | cons first others ih =>
      rw [List.forall_mem_cons] at spells
      obtain ⟨tokens, writes, reads⟩ := spells.1
      cases others with
      | nil =>
          refine ⟨tokens, by simpa using writes, fun next others loops isEnd => ?_⟩
          exact ⟨_, _, reads next others loops isEnd, [], _, .nil, rfl, rfl⟩
      | cons second others =>
          obtain ⟨more, writesMore, readsMore⟩ := ih (List.cons_ne_nil _ _) spells.2
          refine ⟨tokens ++ [.sign kind] ++ more, ?_, fun next rest loops isEnd => ?_⟩
          · simpa using (writes.append_closed detaches closed).append_writes writesMore
          · obtain ⟨_, middle, read, _, _, readOthers, isList, rfl⟩ := readsMore next rest loops isEnd
            obtain ⟨rfl, rfl⟩ := List.cons.inj isList
            simp only [List.append_assoc, List.singleton_append]
            exact ⟨_, _, reads _ _ _ follows, _, _, .cons ⟨_, _, sign_append, read⟩ readOthers, rfl, rfl⟩

/-! ### Levels of the grammar -/

section

variable {nested : Grammar → Rule Expr} {grammar : Grammar} {input rest middle behind : Input}
  {expr left right : Expr} {sign : Token}

theorem operations_of_first {operator? : TokenKind → Option BinaryOp} {first operand : Rule Expr}
    (read : first input expr rest) (ends : operator? rest.kind = none) :
    operations operator? first operand input expr rest :=
  ⟨expr, rest, read, [], rest, .nil, (), rest, ⟨ends, rfl⟩, rfl, rfl⟩

theorem operations_of_pair {operator? : TokenKind → Option BinaryOp} {first operand : Rule Expr}
    {op : BinaryOp} (isOp : operator? op.kind = some op) (read : first input left middle)
    (isSign : token op.kind middle sign behind) (reads : operand behind right rest)
    (ends : operator? rest.kind = none) :
    operations operator? first operand input (.binary op left right .nowhere) rest :=
  ⟨left, middle, read, [(op, .nowhere, right)], rest,
    .cons ⟨op, behind, ⟨op.kind, sign, isOp, isSign⟩, right, rest, reads, rfl, rfl⟩ .nil,
    (), rest, ⟨ends, rfl⟩, rfl, rfl⟩

theorem sum_of_term (read : term nested grammar input expr rest)
    (ends : BinaryOp.ofAdditive? rest.kind = none) : sum nested grammar input expr rest :=
  operations_of_first (.inr read) ends

theorem sum_of_factor (read : factor nested grammar input expr rest)
    (noTerm : BinaryOp.ofMultiplicative? rest.kind = none)
    (noSum : BinaryOp.ofAdditive? rest.kind = none) : sum nested grammar input expr rest :=
  sum_of_term (operations_of_first read noTerm) noSum

theorem negation_of_sum (read : sum nested .condition input expr rest)
    (ends : BinaryOp.ofRelation? rest.kind = none) : negation nested input expr rest :=
  .plain ⟨expr, rest, read, .inr ⟨(), rest, ⟨ends, rfl⟩, rfl, rfl⟩⟩

theorem level_of_negation (read : negation nested input expr rest)
    (noConjunction : BinaryOp.ofConjunction? rest.kind = none)
    (noDisjunction : BinaryOp.ofDisjunction? rest.kind = none) :
    level nested .condition input expr rest :=
  operations_of_first (operations_of_first read noConjunction) noDisjunction

theorem level_of_sum (read : sum nested grammar input expr rest) (ends : EndsExpression rest.kind) :
    level nested grammar input expr rest := by
  cases grammar with
  | arithmetic => exact read
  | condition => exact level_of_negation (negation_of_sum read ends.2.2.2.1) ends.2.2.2.2.1 ends.2.2.2.2.2

theorem level_of_factor (read : factor nested grammar input expr rest)
    (ends : EndsExpression rest.kind) : level nested grammar input expr rest :=
  level_of_sum (sum_of_factor read ends.2.1 ends.2.2.1) ends

theorem level_of_operation {op : BinaryOp} (fits : grammar = .arithmetic → op.isArithmetic)
    (read : factor nested grammar input left middle) (isSign : token op.kind middle sign behind)
    (reads : factor nested grammar behind right rest) (ends : EndsExpression rest.kind) :
    level nested grammar input (.binary op left right .nowhere) rest := by
  have isKind : middle.kind = op.kind := begins_token _ _ _ _ isSign
  have isTerm : term nested grammar behind right rest := operations_of_first reads ends.2.1
  have sums (kind_ : BinaryOp.ofMultiplicative? op.kind = none ∧ BinaryOp.ofAdditive? op.kind = none) :
      sum nested grammar input left middle ∧ sum nested grammar behind right rest :=
    ⟨sum_of_factor read (isKind ▸ kind_.1) (isKind ▸ kind_.2), sum_of_term isTerm ends.2.2.1⟩
  cases op with
  | mul | div | mod =>
      exact level_of_sum (sum_of_term (operations_of_pair rfl read isSign reads ends.2.1) ends.2.2.1) ends
  | add | sub =>
      have isFirst : term nested grammar input left middle :=
        operations_of_first read (by rw [isKind]; rfl)
      exact level_of_sum (operations_of_pair rfl (.inr isFirst) isSign isTerm ends.2.2.1) ends
  | equal | notEqual | less | greater | lessEqual | greaterEqual =>
      cases grammar with
      | arithmetic => exact absurd (fits rfl) (by decide)
      | condition =>
          obtain ⟨isLeft, isRight⟩ := sums ⟨rfl, rfl⟩
          refine level_of_negation (.plain ?_) ends.2.2.2.2.1 ends.2.2.2.2.2
          exact ⟨left, middle, isLeft, .inl ⟨_, rest,
            ⟨_, behind, ⟨_, sign, rfl, isSign⟩, right, rest, isRight, rfl, rfl⟩, rfl, rfl⟩⟩
  | and =>
      cases grammar with
      | arithmetic => exact absurd (fits rfl) (by decide)
      | condition =>
          obtain ⟨isLeft, isRight⟩ := sums ⟨rfl, rfl⟩
          refine operations_of_first (operations_of_pair rfl (negation_of_sum isLeft ?_) isSign
            (negation_of_sum isRight ends.2.2.2.1) ends.2.2.2.2.1) ends.2.2.2.2.2
          rw [isKind]
          rfl
  | or =>
      cases grammar with
      | arithmetic => exact absurd (fits rfl) (by decide)
      | condition =>
          obtain ⟨isLeft, isRight⟩ := sums ⟨rfl, rfl⟩
          refine operations_of_pair rfl (operations_of_first (negation_of_sum isLeft ?_) ?_) isSign
            (operations_of_first (negation_of_sum isRight ends.2.2.2.1) ends.2.2.2.2.1) ends.2.2.2.2.2
          · rw [isKind]
            rfl
          · rw [isKind]
            rfl

end

section

variable {grammar : Grammar} {expr : Expr}

theorem Spells.nested (spells : Spells (factor nested grammar) EndsReference text expr) :
    Spells (nested grammar) EndsExpression text expr := by
  obtain ⟨tokens, writes, reads⟩ := spells
  refine ⟨tokens, writes, fun next others loops ends => ?_⟩
  rw [nested_eq]
  exact level_of_factor (reads next others loops ends.1) ends

theorem factor_of_level (inner : List Token) {others : List Token} {next : Token} {loops : Nat}
    (read : level Rule.nested grammar
      ⟨inner ++ .sign .rightParen :: next :: others, loops⟩ expr
      ⟨.sign .rightParen :: next :: others, loops⟩) :
    factor Rule.nested grammar
      ⟨.sign .leftParen :: (inner ++ .sign .rightParen :: next :: others), loops⟩ expr
      ⟨next :: others, loops⟩ := by
  rw [← nested_eq] at read
  exact .inr (.inr ⟨_, _, sign_append, _, _, read, _, _, sign_cons, rfl, rfl⟩)

theorem spells_number (value : Nat) :
    Spells (factor nested grammar) EndsReference (toString value) (.number (.ofNat value) .nowhere) :=
  ⟨_, writes_number value, fun _ _ _ _ =>
    .inr (.inl ⟨.number (.ofNat value) .nowhere, _, ⟨rfl, _, _, rfl, rfl⟩, rfl, rfl⟩)⟩

theorem spells_negate (spells : Spells (factor nested grammar) EndsReference text expr) :
    Spells (factor nested grammar) EndsReference ("(-" ++ text ++ ")") (.negate expr .nowhere) := by
  obtain ⟨tokens, writes, reads⟩ := spells
  have front : Closed "(-" [.sign .leftParen, .sign .minus] := rfl
  have back : Closed ")" [.sign .rightParen] := rfl
  have closed := (front.append_writes writes).append_closed (by decide) back
  refine ⟨_, closed.writes, fun next others loops _ => ?_⟩
  have read := reads (.sign .rightParen) (next :: others) loops (by decide)
  have isTerm : term nested grammar _ expr _ := operations_of_first read rfl
  have isSum : sum nested grammar _ (.negate expr .nowhere) _ :=
    operations_of_first (.inl ⟨_, _, sign_append, _, _, isTerm, rfl, rfl⟩) rfl
  simpa using factor_of_level (.sign .minus :: tokens) (level_of_sum isSum ends_rightParen)

theorem spells_not (spells : Spells (factor nested .condition) EndsReference text expr) :
    Spells (factor nested .condition) EndsReference ("(not " ++ text ++ ")") (.not expr .nowhere) := by
  obtain ⟨tokens, writes, reads⟩ := spells
  have front : Closed "(not " [.sign .leftParen, .sign .notWord] := rfl
  have back : Closed ")" [.sign .rightParen] := rfl
  have closed := (front.append_writes writes).append_closed (by decide) back
  refine ⟨_, closed.writes, fun next others loops _ => ?_⟩
  have read := reads (.sign .rightParen) (next :: others) loops (by decide)
  have isNegation := Negation.not sign_append (negation_of_sum (sum_of_factor read rfl rfl) rfl)
  simpa using factor_of_level (.sign .notWord :: tokens) (level_of_negation isNegation rfl rfl)

theorem spells_binary {op : BinaryOp} {left right : Expr} {first second : String}
    (fits : grammar = .arithmetic → op.isArithmetic)
    (spells : Spells (factor nested grammar) EndsReference first left)
    (spells' : Spells (factor nested grammar) EndsReference second right) :
    Spells (factor nested grammar) EndsReference
      ("(" ++ first ++ " " ++ op.spelling ++ " " ++ second ++ ")")
      (.binary op left right .nowhere) := by
  obtain ⟨tokens, writes, reads⟩ := spells
  obtain ⟨tokens', writes', reads'⟩ := spells'
  have front : Closed "(" [.sign .leftParen] := rfl
  have back : Closed ")" [.sign .rightParen] := rfl
  obtain ⟨detaches, middle⟩ := closed_operator op
  have closed := (((front.append_writes writes).append_closed detaches middle).append_writes
    writes').append_closed (by decide) back
  refine ⟨_, by simpa [String.append_assoc] using closed.writes, fun next others loops _ => ?_⟩
  have endsLeft : EndsReference op.kind := by cases op <;> decide
  have read := reads (.sign op.kind) (tokens' ++ .sign .rightParen :: next :: others) loops endsLeft
  have read' := reads' (.sign .rightParen) (next :: others) loops (by decide)
  have isLevel := level_of_operation fits read sign_append read' ends_rightParen
  simpa using factor_of_level (tokens ++ .sign op.kind :: tokens') (by simpa using isLevel)

end

/-! ### References -/

section

variable {expr index : Expr}

theorem closed_element {array : String} (isIdentifier : IsIdentifier array)
    (spells : Spells (factor nested .arithmetic) EndsReference text index) :
    ∃ tokens, Closed (array ++ "[" ++ text ++ "]") (.ident array .nowhere :: tokens) ∧
      ∀ next others loops, element nested array ⟨tokens ++ next :: others, loops⟩
        (.element array index .nowhere) ⟨next :: others, loops⟩ := by
  obtain ⟨tokens, writes, reads⟩ := spells.nested
  have front : Closed "[" [.sign .leftBracket] := rfl
  have back : Closed "]" [.sign .rightBracket] := rfl
  have closed := ((((writes_ident isIdentifier).append_closed (by decide) front).append_writes
    writes).append_closed (by decide) back)
  refine ⟨[.sign .leftBracket] ++ tokens ++ [.sign .rightBracket], by simpa using closed, ?_⟩
  intro next others loops
  simp only [List.append_assoc, List.singleton_append]
  exact ⟨_, _, sign_append, _, _, reads _ _ _ (by decide), _, _, sign_cons, rfl, rfl⟩

theorem spells_name {grammar : Grammar} {name : String} (isIdentifier : IsIdentifier name) :
    Spells (factor nested grammar) EndsReference name (.ident name .nowhere) ∧
      Spells (assignable nested) EndsReference name (.ident name .nowhere) := by
  constructor
  · refine ⟨_, writes_ident isIdentifier, fun next others loops ends => .inl ?_⟩
    exact ⟨_, _, ident_cons, .inr (.inr ⟨(), _, ⟨ends, rfl⟩, rfl, rfl⟩)⟩
  · refine ⟨_, writes_ident isIdentifier, fun next others loops ends => ?_⟩
    exact ⟨_, _, ident_cons, .inr ⟨(), _, ⟨ends.1, rfl⟩, rfl, rfl⟩⟩

theorem spells_element {grammar : Grammar} {array : String} (isIdentifier : IsIdentifier array)
    (spells : Spells (factor nested .arithmetic) EndsReference text index) :
    Spells (factor nested grammar) EndsReference (array ++ "[" ++ text ++ "]")
        (.element array index .nowhere) ∧
      Spells (assignable nested) EndsReference (array ++ "[" ++ text ++ "]")
        (.element array index .nowhere) := by
  obtain ⟨tokens, closed, reads⟩ := closed_element isIdentifier spells
  constructor
  · refine ⟨_, closed.writes, fun next others loops _ => .inl ?_⟩
    exact ⟨_, _, ident_append, .inl (reads next others loops)⟩
  · refine ⟨_, closed.writes, fun next others loops _ => ?_⟩
    exact ⟨_, _, ident_append, .inl (reads next others loops)⟩

end

end Rule

/-! ### Expressions -/

/-- The text of an expression is read as its normal form, and as a place if it is one. -/
def Expr.Rereads (grammar : Grammar) (expr : Expr) : Prop :=
  (Rule.factor Rule.nested grammar).Spells EndsReference expr.render expr.norm.bare ∧
    (expr.target?.isSome →
      (Rule.assignable Rule.nested).Spells EndsReference expr.render expr.norm.bare)

theorem Expr.renderAll_eq (expressions : List Expr) :
    Expr.renderAll expressions = expressions.map Expr.render := by
  induction expressions with
  | nil => rfl
  | cons first others ih => exact congrArg (first.render :: ·) ih

theorem Expr.bareAll_normAll (expressions : List Expr) :
    Expr.bareAll (Expr.normAll expressions) = expressions.map fun expr => expr.norm.bare := by
  rw [Expr.bareAll_eq, Expr.normAll_eq]
  exact List.map_map

theorem detaches_comma : Detaches ", " := by decide

theorem closed_comma : Closed ", " [.sign .comma] := rfl

theorem Rule.closed_arguments {callee : String} {arguments : List Expr} (notEmpty : arguments ≠ [])
    (shape : ArgumentShape callee arguments)
    (rereads : Builtin.ofName? callee ≠ some .write →
      ∀ argument ∈ arguments, argument.Rereads .arithmetic) :
    ∃ tokens, Closed ("(" ++ commaSeparated (arguments.map Expr.render) ++ ")")
        (.sign .leftParen :: tokens) ∧
      ∀ next others loops, Rule.arguments Rule.nested callee
        ⟨.sign .leftParen :: tokens ++ next :: others, loops⟩
        (arguments.map fun expr => expr.norm.bare) ⟨next :: others, loops⟩ := by
  have passes : (passed nested callee).Spells (· = .rightParen)
      (commaSeparated (arguments.map Expr.render)) (arguments.map fun expr => expr.norm.bare) := by
    by_cases isWrite : Builtin.ofName? callee = some .write
    · rw [ArgumentShape, isWrite] at shape
      obtain ⟨text, position, rfl, noQuote⟩ := shape
      refine ⟨[Mode.literal text], ?_, fun next others loops _ => ?_⟩
      · simpa [commaSeparated, Expr.render] using (closed_literal noQuote).writes
      · rw [passed, if_pos isWrite]
        exact ⟨_, _, ⟨Mode.literal text, _, ⟨rfl, _, _, rfl, rfl⟩, rfl, rfl⟩, rfl, rfl⟩
    · have items : ∀ expr ∈ arguments, (argument nested callee).Spells EndsExpression expr.render
          expr.norm.bare := by
        intro expr isIn
        obtain ⟨spells, places⟩ := rereads isWrite expr isIn
        rw [ArgumentShape] at shape
        rw [argument]
        split
        · rename_i isReadln
          rw [isReadln] at shape
          exact (places (shape expr isIn)).mono fun _ ends => ends.1
        · rename_i isDec
          rw [isDec] at shape
          exact (places (shape expr isIn)).mono fun _ ends => ends.1
        · exact spells.nested
      obtain ⟨tokens, writes, reads⟩ := spells_separated detaches_comma closed_comma (by decide) notEmpty items
      refine ⟨tokens, writes, fun next others loops isEnd => ?_⟩
      obtain ⟨first, middle, read, rest, _, readRest, isList, rfl⟩ :=
        reads next others loops (isEnd ▸ ends_rightParen)
      rw [passed, if_neg isWrite]
      exact .inr ⟨first, middle, read, rest, _, readRest, (), _, ⟨isEnd, rfl⟩, isList, rfl⟩
  obtain ⟨tokens, writes, reads⟩ := passes
  have front : Closed "(" [.sign .leftParen] := rfl
  have back : Closed ")" [.sign .rightParen] := rfl
  have closed := (front.append_writes writes).append_closed (by decide) back
  refine ⟨tokens ++ [.sign .rightParen], by simpa using closed, fun next others loops => ?_⟩
  simp only [List.append_assoc, List.cons_append, List.nil_append]
  exact ⟨_, _, sign_append, _, _, reads _ _ _ rfl, _, _, sign_cons, rfl, rfl⟩

theorem Rule.spells_call {grammar : Grammar} {callee : String} {arguments : List Expr}
    (isIdentifier : IsIdentifier callee) (notEmpty : arguments ≠ [])
    (shape : ArgumentShape callee arguments)
    (rereads : Builtin.ofName? callee ≠ some .write →
      ∀ argument ∈ arguments, argument.Rereads .arithmetic) :
    (factor nested grammar).Spells EndsReference
      (callee ++ "(" ++ commaSeparated (arguments.map Expr.render) ++ ")")
      (.call callee (arguments.map fun expr => expr.norm.bare) .nowhere) := by
  obtain ⟨tokens, closed, reads⟩ := closed_arguments notEmpty shape rereads
  have detaches : Detaches "(" := by decide
  have closed := (writes_ident isIdentifier).append_closed detaches.append.append closed
  refine ⟨_, by simpa [String.append_assoc] using closed.writes, fun next others loops _ => .inl ?_⟩
  exact ⟨_, _, ident_cons, .inr (.inl ⟨_, _, reads next others loops, rfl, rfl⟩)⟩

theorem Int32.ofNat_natAbs {value : Int32} (isNegative : value < 0) :
    Int32.ofNat value.toInt.natAbs = -value := by
  have isNegative : value.toInt < 0 := Int32.lt_iff_toInt_lt.1 isNegative
  rw [← Int32.ofInt_eq_ofNat, Int.ofNat_natAbs_of_nonpos (Int.le_of_lt isNegative), Int32.ofInt_neg,
    Int32.ofInt_toInt]

theorem Int32.toString_of_nonneg {value : Int32} (notNegative : ¬ value < 0) :
    toString value = toString value.toInt.toNat ∧ Int32.ofNat value.toInt.toNat = value := by
  have notNegative : 0 ≤ value.toInt := Int.not_lt.1 fun isNegative =>
    notNegative (Int32.lt_iff_toInt_lt.2 isNegative)
  constructor
  · obtain ⟨digits, isDigits⟩ := Int.eq_ofNat_of_zero_le notNegative
    change toString value.toInt = _
    rw [isDigits]
    rfl
  · rw [← Int32.ofInt_eq_ofNat, Int.toNat_of_nonneg notNegative, Int32.ofInt_toInt]

namespace Expr

theorem rereads_of_spells {grammar : Grammar} {expr : Expr} (noPlace : expr.target? = none)
    (spells : (Rule.factor Rule.nested grammar).Spells EndsReference expr.render expr.norm.bare) :
    expr.Rereads grammar :=
  ⟨spells, fun isPlace => absurd isPlace (by simp [noPlace])⟩

mutual

/-- Every expression that can be written is read again from its text. -/
theorem rereads (grammar : Grammar) : (expr : Expr) → expr.Fits grammar → expr.Rereads grammar
  | .ident name position, fits => by
      obtain ⟨spells, places⟩ := @Rule.spells_name grammar name fits
      exact ⟨spells, fun _ => places⟩
  | .number value position, fits => by
      apply rereads_of_spells rfl
      rw [render, norm]
      split
      · rename_i isNegative
        have spells := Rule.spells_negate (@Rule.spells_number grammar value.toInt.natAbs)
        rw [Int32.ofNat_natAbs isNegative] at spells
        exact spells
      · rename_i notNegative
        obtain ⟨isText, isValue⟩ := Int32.toString_of_nonneg notNegative
        have spells := @Rule.spells_number grammar value.toInt.toNat
        rw [← isText, isValue] at spells
        exact spells
  | .literal text position, fits => fits.elim
  | .binary op left right position, fits =>
      rereads_of_spells rfl (Rule.spells_binary fits.1 (rereads grammar left fits.2.1).1
        (rereads grammar right fits.2.2).1)
  | .negate operand position, fits =>
      rereads_of_spells rfl (Rule.spells_negate (rereads grammar operand fits).1)
  | .not operand position, ⟨isCondition, fits⟩ => by
      subst isCondition
      exact rereads_of_spells rfl (Rule.spells_not (rereads .condition operand fits).1)
  | .element array index position, fits => by
      obtain ⟨spells, places⟩ :=
        @Rule.spells_element _ _ grammar _ fits.1 (rereads .arithmetic index fits.2).1
      exact ⟨spells, fun _ => places⟩
  | .call callee arguments position, ⟨isIdentifier, shape, fit⟩ => by
      apply rereads_of_spells rfl
      cases arguments with
      | nil => exact (Rule.spells_name isIdentifier).1
      | cons first others =>
          have spells := @Rule.spells_call grammar callee (first :: others) isIdentifier
            (List.cons_ne_nil first others) shape fun notWrite =>
              rereadAll (first :: others) (fit notWrite)
          rw [← Expr.renderAll_eq, ← Expr.bareAll_normAll] at spells
          exact spells

theorem rereadAll : (expressions : List Expr) → Expr.AllFit expressions →
    ∀ expr ∈ expressions, expr.Rereads .arithmetic
  | [], _ => fun _ isIn => nomatch isIn
  | first :: others, fit =>
      List.forall_mem_cons.2 ⟨rereads .arithmetic first fit.1, rereadAll others fit.2⟩

end

theorem spells_nested {grammar : Grammar} {expr : Expr} (fits : expr.Fits grammar) :
    (Rule.nested grammar).Spells EndsExpression expr.render expr.norm.bare :=
  (rereads grammar expr fits).1.nested

end Expr

def Rule.target : Rule Expr := do
  let name ← ident
  element nested name <|> return .ident name .nowhere

theorem Expr.spells_target {target : Expr} (isPlace : target.target?.isSome)
    (fits : target.Fits .arithmetic) :
    Rule.target.Spells Rule.anywhere target.render target.norm.bare := by
  cases target with
  | ident name position =>
      obtain ⟨tokens, writes, reads⟩ := Rule.spells_ident fits
      exact ⟨tokens, writes, fun next others loops _ =>
        ⟨name, _, reads next others loops trivial, .inr ⟨rfl, rfl⟩⟩⟩
  | element array index position =>
      obtain ⟨tokens, closed, reads⟩ := Rule.closed_element fits.1 (rereads .arithmetic index fits.2).1
      exact ⟨_, closed.writes, fun next others loops _ =>
        ⟨_, _, Rule.ident_append, .inl (reads next others loops)⟩⟩
  | _ => cases isPlace

end MiniPascal
