import MiniPascal.Proofs.Grammar.Expressions

/-!
# Phrases of the two expression grammars

`Derives` is the grammar of expressions and conditions as a context-free one: which lexemes a phrase
consists of, and the tree of the derivation, without positions.  Operators of one level associate to
the left because what stands in front of an operator is a phrase of the same level.  A minus belongs
to the first term, a `not` to the negation behind it with its relation, and parentheses leave no node.

    sum g        = term g | "-" term g | sum g ("+" | "-") term g
    term g       = factor g | term g ("*" | "div" | "mod") factor g
    factor g     = ident | ident "[" sum arithmetic "]" | ident "(" arguments? ")" | number
                 | "(" inner g ")"
    condition    = conjunction | condition "or" conjunction
    conjunction  = negation | conjunction "and" negation
    negation     = "not" negation | sum condition (relation sum condition)?

The inner phrase of a factor is a sum outside of conditions and a condition inside of them.  Literal
text is the only argument of `write`, and `readln` and `dec` take places.
-/

namespace MiniPascal

inductive Phrase where
  | sum (grammar : Grammar)
  | term (grammar : Grammar)
  | factor (grammar : Grammar)
  | condition
  | conjunction
  | negation
  /-- A variable or an array element. -/
  | place
  | argument (callee : String)
  /-- At least one argument of a callable, with commas between them. -/
  | arguments (callee : String)
  deriving DecidableEq

def Phrase.inner : Grammar → Phrase
  | .arithmetic => .sum .arithmetic
  | .condition => .condition

def TakesPlaces (callee : String) : Prop :=
  Builtin.ofName? callee = some .readln ∨ Builtin.ofName? callee = some .dec

def TakesText (callee : String) : Prop := Builtin.ofName? callee = some .write

/-- A phrase consists of lexemes, and has a tree. -/
inductive Derives : Phrase → List Token → Expr → Prop where
  | term {grammar : Grammar} {words : List Token} {tree : Expr}
      (only : Derives (.term grammar) words tree) : Derives (.sum grammar) words tree
  | negated {grammar : Grammar} {sign : Token} {words : List Token} {tree : Expr}
      (isMinus : sign.kind = .minus) (operand : Derives (.term grammar) words tree) :
      Derives (.sum grammar) (sign :: words) (.negate tree .nowhere)
  | additive {grammar : Grammar} {sign : Token} {words words' : List Token} {op : BinaryOp}
      {left right : Expr} (first : Derives (.sum grammar) words left)
      (isOperator : BinaryOp.ofAdditive? sign.kind = some op)
      (second : Derives (.term grammar) words' right) :
      Derives (.sum grammar) (words ++ sign :: words') (.binary op left right .nowhere)
  | factor {grammar : Grammar} {words : List Token} {tree : Expr}
      (only : Derives (.factor grammar) words tree) : Derives (.term grammar) words tree
  | multiplicative {grammar : Grammar} {sign : Token} {words words' : List Token} {op : BinaryOp}
      {left right : Expr} (first : Derives (.term grammar) words left)
      (isOperator : BinaryOp.ofMultiplicative? sign.kind = some op)
      (second : Derives (.factor grammar) words' right) :
      Derives (.term grammar) (words ++ sign :: words') (.binary op left right .nowhere)
  | name {grammar : Grammar} {name : Token} (isIdent : name.kind = .ident) :
      Derives (.factor grammar) [name] (.ident name.text .nowhere)
  | element {grammar : Grammar} {name opening closing : Token} {words : List Token} {index : Expr}
      (isIdent : name.kind = .ident) (isOpening : opening.kind = .leftBracket)
      (inside : Derives (.sum .arithmetic) words index) (isClosing : closing.kind = .rightBracket) :
      Derives (.factor grammar) (name :: opening :: (words ++ [closing]))
        (.element name.text index .nowhere)
  | callEmpty {grammar : Grammar} {name opening closing : Token} (isIdent : name.kind = .ident)
      (noText : ¬ TakesText name.text) (isOpening : opening.kind = .leftParen)
      (isClosing : closing.kind = .rightParen) :
      Derives (.factor grammar) [name, opening, closing] (.call name.text [] .nowhere)
  | callText {grammar : Grammar} {name opening text closing : Token} (isIdent : name.kind = .ident)
      (takesText : TakesText name.text) (isOpening : opening.kind = .leftParen)
      (isText : text.kind = .apostrophe) (isClosing : closing.kind = .rightParen) :
      Derives (.factor grammar) [name, opening, text, closing]
        (.call name.text [.literal text.text .nowhere] .nowhere)
  | call {grammar : Grammar} {name opening closing : Token} {words : List Token} {tree : Expr}
      (isIdent : name.kind = .ident) (noText : ¬ TakesText name.text)
      (isOpening : opening.kind = .leftParen) (inside : Derives (.arguments name.text) words tree)
      (isClosing : closing.kind = .rightParen) :
      Derives (.factor grammar) (name :: opening :: (words ++ [closing])) tree
  | number {grammar : Grammar} {number : Token} (isNumber : number.kind = .number) :
      Derives (.factor grammar) [number] (.number number.value .nowhere)
  | parenthesised {grammar : Grammar} {opening closing : Token} {words : List Token} {tree : Expr}
      (isOpening : opening.kind = .leftParen) (inside : Derives (.inner grammar) words tree)
      (isClosing : closing.kind = .rightParen) :
      Derives (.factor grammar) (opening :: (words ++ [closing])) tree
  | conjunction {words : List Token} {tree : Expr} (only : Derives .conjunction words tree) :
      Derives .condition words tree
  | disjunctive {sign : Token} {words words' : List Token} {op : BinaryOp} {left right : Expr}
      (first : Derives .condition words left)
      (isOperator : BinaryOp.ofDisjunction? sign.kind = some op)
      (second : Derives .conjunction words' right) :
      Derives .condition (words ++ sign :: words') (.binary op left right .nowhere)
  | negation {words : List Token} {tree : Expr} (only : Derives .negation words tree) :
      Derives .conjunction words tree
  | conjunctive {sign : Token} {words words' : List Token} {op : BinaryOp} {left right : Expr}
      (first : Derives .conjunction words left)
      (isOperator : BinaryOp.ofConjunction? sign.kind = some op)
      (second : Derives .negation words' right) :
      Derives .conjunction (words ++ sign :: words') (.binary op left right .nowhere)
  | not {sign : Token} {words : List Token} {tree : Expr} (isNot : sign.kind = .notWord)
      (operand : Derives .negation words tree) :
      Derives .negation (sign :: words) (.not tree .nowhere)
  | unrelated {words : List Token} {tree : Expr} (only : Derives (.sum .condition) words tree) :
      Derives .negation words tree
  | related {sign : Token} {words words' : List Token} {op : BinaryOp} {left right : Expr}
      (first : Derives (.sum .condition) words left)
      (isOperator : BinaryOp.ofRelation? sign.kind = some op)
      (second : Derives (.sum .condition) words' right) :
      Derives .negation (words ++ sign :: words') (.binary op left right .nowhere)
  | placeVariable {name : Token} (isIdent : name.kind = .ident) :
      Derives .place [name] (.ident name.text .nowhere)
  | placeElement {name opening closing : Token} {words : List Token} {index : Expr}
      (isIdent : name.kind = .ident) (isOpening : opening.kind = .leftBracket)
      (inside : Derives (.sum .arithmetic) words index) (isClosing : closing.kind = .rightBracket) :
      Derives .place (name :: opening :: (words ++ [closing])) (.element name.text index .nowhere)
  | argumentPlace {callee : String} {words : List Token} {tree : Expr}
      (takesPlaces : TakesPlaces callee) (only : Derives .place words tree) :
      Derives (.argument callee) words tree
  | argumentValue {callee : String} {words : List Token} {tree : Expr}
      (noPlaces : ¬ TakesPlaces callee) (only : Derives (.sum .arithmetic) words tree) :
      Derives (.argument callee) words tree
  | oneArgument {callee : String} {words : List Token} {tree : Expr}
      (only : Derives (.argument callee) words tree) :
      Derives (.arguments callee) words (.call callee [tree] .nowhere)
  | furtherArgument {callee : String} {comma : Token} {words words' : List Token}
      {trees : List Expr} {tree : Expr}
      (first : Derives (.arguments callee) words (.call callee trees .nowhere))
      (isComma : comma.kind = .comma) (next : Derives (.argument callee) words' tree) :
      Derives (.arguments callee) (words ++ comma :: words') (.call callee (trees ++ [tree]) .nowhere)

end MiniPascal
