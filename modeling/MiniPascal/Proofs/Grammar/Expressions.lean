import MiniPascal.Parser.Expression
import MiniPascal.Proofs.Grammar.Rules

/-!
# The grammar of expressions

How expressions and conditions are read off lexemes, as the longest text in front that is one: an
operation is read wherever an operator of its level follows.  The trees that the rules build have no
positions.
-/

namespace MiniPascal

namespace Rule

def operator (operator? : TokenKind → Option BinaryOp) : Rule BinaryOp := fun input op rest =>
  ∃ kind sign, operator? kind = some op ∧ token kind input sign rest

def operation (operator? : TokenKind → Option BinaryOp) (operand : Rule Expr) :
    Rule (BinaryOp × Position × Expr) := do
  let op ← operator operator?
  let right ← operand
  return (op, .nowhere, right)

def operations (operator? : TokenKind → Option BinaryOp) (first operand : Rule Expr) :
    Rule Expr := do
  let left ← first
  let others ← star (operation operator? operand)
  ahead fun kind => operator? kind = none
  return Parse.chain left others

section

/-! The rules below are given what stands for expressions and conditions in them. -/

variable (nested : Grammar → Rule Expr)

def element (array : String) : Rule Expr := do
  let _ ← token .leftBracket
  let index ← nested .arithmetic
  let _ ← token .rightBracket
  return .element array index .nowhere

def assignable : Rule Expr := do
  let name ← ident
  element nested name <|> do
    ahead (· ≠ .leftBracket)
    return .ident name .nowhere

def literal : Rule Expr := do
  let quote ← token .apostrophe
  return .literal quote.text .nowhere

def argument (callee : String) : Rule Expr :=
  match Builtin.ofName? callee with
  | some .readln | some .dec => assignable nested
  | _ => nested .arithmetic

def argumentList (item : Rule Expr) : Rule (List Expr) :=
  (do
    ahead (· = .rightParen)
    return []) <|> do
  let first ← item
  let others ← star do
    let _ ← token .comma
    item
  ahead (· = .rightParen)
  return first :: others

def passed (callee : String) : Rule (List Expr) :=
  if Builtin.ofName? callee = some .write then do
    let text ← literal
    return [text]
  else argumentList (argument nested callee)

def arguments (callee : String) : Rule (List Expr) := do
  let _ ← token .leftParen
  let passed ← passed nested callee
  let _ ← token .rightParen
  return passed

def reference : Rule Expr := do
  let name ← ident
  element nested name <|> (do
    let arguments ← arguments nested name
    return .call name arguments .nowhere) <|> do
  ahead fun kind => kind ≠ .leftBracket ∧ kind ≠ .leftParen
  return .ident name .nowhere

def number : Rule Expr := do
  let literal ← token .number
  return .number literal.value .nowhere

def parenthesised (grammar : Grammar) : Rule Expr := do
  let _ ← token .leftParen
  let inner ← nested grammar
  let _ ← token .rightParen
  return inner

def factor (grammar : Grammar) : Rule Expr :=
  reference nested <|> number <|> parenthesised nested grammar

def term (grammar : Grammar) : Rule Expr :=
  operations BinaryOp.ofMultiplicative? (factor nested grammar) (factor nested grammar)

def signedTerm (grammar : Grammar) : Rule Expr :=
  (do
    let _ ← token .minus
    let operand ← term nested grammar
    return .negate operand .nowhere) <|> term nested grammar

def sum (grammar : Grammar) : Rule Expr :=
  operations BinaryOp.ofAdditive? (signedTerm nested grammar) (term nested grammar)

def comparison : Rule Expr := do
  let left ← sum nested .condition
  (do
    let operation ← operation BinaryOp.ofRelation? (sum nested .condition)
    return Parse.chain left [operation]) <|> do
  ahead fun kind => BinaryOp.ofRelation? kind = none
  return left

inductive Negation : Input → Expr → Input → Prop where
  | plain {input rest : Input} {operand : Expr}
      (read : comparison nested input operand rest) : Negation input operand rest
  | not {input middle rest : Input} {sign : Token} {operand : Expr}
      (passed : token .notWord input sign middle) (negation : Negation middle operand rest) :
      Negation input (.not operand .nowhere) rest

def negation : Rule Expr := Negation nested

def conjunction : Rule Expr :=
  operations BinaryOp.ofConjunction? (negation nested) (negation nested)

def disjunction : Rule Expr :=
  operations BinaryOp.ofDisjunction? (conjunction nested) (conjunction nested)

def level : Grammar → Rule Expr
  | .arithmetic => sum nested .arithmetic
  | .condition => disjunction nested

end

def nested : Grammar → Rule Expr := Fix level

def expression : Rule Expr := nested .arithmetic

def condition : Rule Expr := nested .condition

/-! ### The levels grow with what stands for expressions in them -/

section

theorem Le.operations {operator? : TokenKind → Option BinaryOp}
    {first operand first' operand' : Rule Expr} (head : Le first first')
    (tail : Le operand operand') :
    Le (operations operator? first operand) (operations operator? first' operand') :=
  head.bind fun _ => Le.bind (Le.star ((Le.refl _).bind fun _ => tail.bind fun _ => .refl _))
    fun _ => .refl _

variable {nested larger : Grammar → Rule Expr} (le : ∀ grammar, Le (nested grammar) (larger grammar))

include le

theorem Le.element (array : String) : Le (element nested array) (element larger array) :=
  (Le.refl _).bind fun _ => (le .arithmetic).bind fun _ => .refl _

theorem Le.assignable : Le (assignable nested) (assignable larger) :=
  (Le.refl _).bind fun name => (Le.element le name).orElse (.refl _)

theorem Le.argument (callee : String) : Le (argument nested callee) (argument larger callee) := by
  unfold Rule.argument
  split
  · exact Le.assignable le
  · exact Le.assignable le
  · exact le .arithmetic

theorem Le.arguments (callee : String) :
    Le (arguments nested callee) (arguments larger callee) := by
  refine (Le.refl _).bind fun _ => Le.bind ?_ fun _ => .refl _
  unfold Rule.passed
  split
  · exact .refl _
  · have item := Le.argument le callee
    exact (Le.refl _).orElse <| item.bind fun _ =>
      Le.bind (Le.star ((Le.refl _).bind fun _ => item)) fun _ => .refl _

theorem Le.reference : Le (reference nested) (reference larger) :=
  (Le.refl _).bind fun name => (Le.element le name).orElse <|
    ((Le.arguments le name).bind fun _ => .refl _).orElse (.refl _)

theorem Le.factor (grammar : Grammar) : Le (factor nested grammar) (factor larger grammar) :=
  (Le.reference le).orElse <| (Le.refl _).orElse <|
    (Le.refl _).bind fun _ => (le grammar).bind fun _ => .refl _

theorem Le.term (grammar : Grammar) : Le (term nested grammar) (term larger grammar) :=
  Le.operations (Le.factor le grammar) (Le.factor le grammar)

theorem Le.sum (grammar : Grammar) : Le (sum nested grammar) (sum larger grammar) :=
  Le.operations
    (((Le.refl _).bind fun _ => (Le.term le grammar).bind fun _ => .refl _).orElse
      (Le.term le grammar))
    (Le.term le grammar)

theorem Le.comparison : Le (comparison nested) (comparison larger) :=
  (Le.sum le .condition).bind fun _ => Le.orElse
    (((Le.refl _).bind fun _ => (Le.sum le .condition).bind fun _ => .refl _).bind fun _ => .refl _)
    (.refl _)

theorem Le.negation : Le (negation nested) (negation larger) := by
  intro input operand rest reads
  induction reads with
  | plain read => exact .plain (Le.comparison le _ _ _ read)
  | not passed _ ih => exact .not passed ih

theorem Le.disjunction : Le (disjunction nested) (disjunction larger) :=
  have conjunction := Le.operations (Le.negation le) (Le.negation le)
  Le.operations conjunction conjunction

end

theorem monotone_level : Monotone level := by
  intro smaller larger le grammar
  cases grammar with
  | arithmetic => exact Le.sum le .arithmetic
  | condition => exact Le.disjunction le

theorem nested_eq (grammar : Grammar) : nested grammar = level nested grammar :=
  ext fun _ _ _ => Fix.iff monotone_level

theorem negation_eq (nested : Grammar → Rule Expr) : negation nested =
    ((do
      let _ ← token .notWord
      let operand ← negation nested
      return .not operand .nowhere) <|> comparison nested) :=
  ext fun input expr rest => by
    constructor
    · intro reads
      cases reads with
      | plain read => exact .inr read
      | not passed reads => exact .inl ⟨_, _, passed, _, _, reads, rfl, rfl⟩
    · rintro (⟨_, _, passed, _, _, reads, rfl, rfl⟩ | read)
      · exact .not passed reads
      · exact .plain read

/-! ### What expressions begin with -/

def BeginsOperand (kind : TokenKind) : Prop :=
  kind = .ident ∨ kind = .number ∨ kind = .leftParen

def BeginsExpression (kind : TokenKind) : Prop :=
  BeginsOperand kind ∨ kind = .minus ∨ kind = .notWord

section

variable (nested : Grammar → Rule Expr)

theorem begins_element (array : String) : Begins (· = .leftBracket) (element nested array) :=
  (begins_token _).bind _

theorem begins_arguments (callee : String) : Begins (· = .leftParen) (arguments nested callee) :=
  (begins_token _).bind _

theorem begins_assignable : Begins (· = .ident) (assignable nested) := begins_ident.bind _

theorem begins_reference : Begins (· = .ident) (reference nested) := begins_ident.bind _

theorem begins_number : Begins (· = .number) number := (begins_token _).bind _

theorem begins_parenthesised (grammar : Grammar) :
    Begins (· = .leftParen) (parenthesised nested grammar) :=
  (begins_token _).bind _

theorem begins_factor (grammar : Grammar) : Begins BeginsOperand (factor nested grammar) :=
  (begins_reference nested).union (begins_number.union (begins_parenthesised nested grammar))

theorem begins_term (grammar : Grammar) : Begins BeginsOperand (term nested grammar) :=
  (begins_factor nested grammar).bind _

theorem begins_sum (grammar : Grammar) :
    Begins (fun kind => BeginsOperand kind ∨ kind = .minus) (sum nested grammar) :=
  Begins.bind
    ((((begins_token .minus).bind _).mono fun _ => .inr).orElse <|
      (begins_term nested grammar).mono fun _ => .inl) _

theorem begins_comparison :
    Begins (fun kind => BeginsOperand kind ∨ kind = .minus) (comparison nested) :=
  (begins_sum nested .condition).bind _

theorem begins_negation : Begins BeginsExpression (negation nested) := by
  intro input operand rest reads
  cases reads with
  | plain read => exact (begins_comparison nested _ _ _ read).imp id .inl
  | not passed _ => exact .inr (.inr (begins_token _ _ _ _ passed))

theorem begins_level (grammar : Grammar) : Begins BeginsExpression (level nested grammar) := by
  cases grammar with
  | arithmetic => exact (begins_sum nested _).mono fun _ is => is.imp id .inl
  | condition => exact ((begins_negation nested).bind _).bind _

end

theorem begins_nested (grammar : Grammar) : Begins BeginsExpression (nested grammar) := by
  rw [nested_eq]
  exact begins_level nested grammar

end Rule

end MiniPascal
