import MiniPascal.Proofs.Tree.Bare

/-!
# Rules of a grammar

A rule relates what it finds in front of it to the tree it reads and to what it leaves.  Rules are
put together as in the usual notation for grammars: one after the other, as alternatives, any number
of times.  Nothing here looks for a way to read a text; a rule says which ways there are.
-/

namespace MiniPascal

/-- What a rule finds in front of it: the lexemes still to come, without positions, and the number
of the next loop. -/
structure Input where
  lexemes : List Token
  loops : Nat

namespace Input

def kind (input : Input) : TokenKind :=
  match input.lexemes with
  | [] => .endOfInput
  | token :: _ => token.kind

def size (input : Input) : Nat := input.lexemes.length

end Input

def Rule (α : Type) : Type := Input → α → Input → Prop

namespace Rule

variable {α β ι : Type}

instance : Monad Rule where
  pure a := fun input b rest => b = a ∧ rest = input
  bind rule next := fun input b rest => ∃ a middle, rule input a middle ∧ next a middle b rest

instance : OrElse (Rule α) where
  orElse first second := fun input a rest => first input a rest ∨ second () input a rest

def fail : Rule α := fun _ _ _ => False

def guard (holds : Input → Prop) : Rule Unit := fun input _ rest => holds input ∧ rest = input

def ahead (kinds : TokenKind → Prop) : Rule Unit := guard fun input => kinds input.kind

/-- One lexeme of a kind.  The last lexeme of a text is the end of the input, which no rule passes. -/
def token (kind : TokenKind) : Rule Token := fun input token rest =>
  token.kind = kind ∧ ∃ next others, input.lexemes = token :: next :: others ∧
    rest = ⟨next :: others, input.loops⟩

def endOfInput : Rule Unit := fun input _ rest =>
  input.lexemes = [.plain .endOfInput .nowhere] ∧ rest = input

def ident : Rule String := do
  let name ← token .ident
  return name.text

def word (text : String) : Rule Unit := do
  let name ← ident
  guard fun _ => name = text

def freshLoop : Rule LoopId := fun input id rest =>
  id = ⟨input.loops⟩ ∧ rest = { input with loops := input.loops + 1 }

inductive Many (rule : Rule α) : Input → List α → Input → Prop where
  | nil {input : Input} : Many rule input [] input
  | cons {input middle rest : Input} {first : α} {others : List α}
      (head : rule input first middle) (tail : Many rule middle others rest) :
      Many rule input (first :: others) rest

def star (rule : Rule α) : Rule (List α) := Many rule

def plus (rule : Rule α) : Rule (List α) := do
  let first ← rule
  let others ← star rule
  return first :: others

/-- The least rules that satisfy the equations of a grammar: the root of a derivation is an
instance of an equation, and what stands for the rules in it has been derived. -/
inductive Fix (equations : (ι → Rule α) → ι → Rule α) : ι → Input → α → Input → Prop where
  | intro (inner : ι → Rule α)
      (below : ∀ index input a rest, inner index input a rest →
        Fix equations index input a rest)
      {index : ι} {input rest : Input} {a : α} (root : equations inner index input a rest) :
      Fix equations index input a rest

/-! ### Inclusion of rules -/

def Le (smaller larger : Rule α) : Prop :=
  ∀ input a rest, smaller input a rest → larger input a rest

theorem Le.refl (rule : Rule α) : Le rule rule := fun _ _ _ => id

theorem Le.bind {smaller larger : Rule α} {next after : α → Rule β} (first : Le smaller larger)
    (second : ∀ a, Le (next a) (after a)) : Le (smaller >>= next) (larger >>= after) := by
  rintro input b rest ⟨a, middle, read, reads⟩
  exact ⟨a, middle, first _ _ _ read, second a _ _ _ reads⟩

theorem Le.orElse {smaller larger smaller' larger' : Rule α} (first : Le smaller larger)
    (second : Le smaller' larger') : Le (smaller <|> smaller') (larger <|> larger') :=
  fun _ _ _ reads => reads.imp (first _ _ _) (second _ _ _)

theorem Le.star {smaller larger : Rule α} (le : Le smaller larger) :
    Le (star smaller) (star larger) := by
  intro input as rest reads
  induction reads with
  | nil => exact .nil
  | cons head _ ih => exact .cons (le _ _ _ head) ih

def Monotone (equations : (ι → Rule α) → ι → Rule α) : Prop :=
  ∀ {smaller larger : ι → Rule α}, (∀ index, Le (smaller index) (larger index)) →
    ∀ index, Le (equations smaller index) (equations larger index)

section

variable {equations : (ι → Rule α) → ι → Rule α}

theorem Fix.mk {index : ι} {input rest : Input} {a : α}
    (root : equations (Fix equations) index input a rest) : Fix equations index input a rest :=
  .intro (Fix equations) (fun _ _ _ _ => id) root

theorem Fix.iff (monotone : Monotone equations) {index : ι} {input rest : Input} {a : α} :
    Fix equations index input a rest ↔ equations (Fix equations) index input a rest := by
  refine ⟨fun derived => ?_, Fix.mk⟩
  obtain ⟨inner, below, root⟩ := derived
  exact monotone below index _ _ _ root

end

/-! ### What a rule can begin with -/

def Begins (kinds : TokenKind → Prop) (rule : Rule α) : Prop :=
  ∀ input a rest, rule input a rest → kinds input.kind

variable {kinds more : TokenKind → Prop}

theorem begins_token (kind : TokenKind) : Begins (· = kind) (token kind) := by
  rintro ⟨lexemes, loops⟩ a rest ⟨isKind, next, others, rfl, -⟩
  exact isKind

theorem Begins.mono {rule : Rule α} (begins : Begins kinds rule)
    (weaker : ∀ kind, kinds kind → more kind) : Begins more rule :=
  fun _ _ _ reads => weaker _ (begins _ _ _ reads)

theorem Begins.bind {rule : Rule α} (begins : Begins kinds rule) (next : α → Rule β) :
    Begins kinds (rule >>= next) := by
  rintro input b rest ⟨a, middle, read, -⟩
  exact begins _ _ _ read

theorem Begins.orElse {first second : Rule α} (left : Begins kinds first)
    (right : Begins kinds second) : Begins kinds (first <|> second) :=
  fun _ _ _ reads => reads.elim (left _ _ _) (right _ _ _)

theorem Begins.union {first second : Rule α} (left : Begins kinds first)
    (right : Begins more second) : Begins (fun kind => kinds kind ∨ more kind) (first <|> second) :=
  (left.mono fun _ => .inl).orElse (right.mono fun _ => .inr)

theorem begins_ident : Begins (· = .ident) ident := (begins_token .ident).bind _

theorem begins_ahead : Begins kinds (ahead kinds) := fun _ _ _ ⟨holds, _⟩ => holds

/-! ### Rules that are the same -/

theorem ext {first second : Rule α}
    (same : ∀ input a rest, first input a rest ↔ second input a rest) : first = second := by
  funext input a rest
  exact propext (same input a rest)

theorem bind_apply {rule : Rule α} {next : α → Rule β} {input rest : Input} {b : β} :
    (rule >>= next) input b rest ↔ ∃ a middle, rule input a middle ∧ next a middle b rest :=
  Iff.rfl

theorem orElse_apply {first second : Rule α} {input rest : Input} {a : α} :
    (first <|> second) input a rest ↔ first input a rest ∨ second input a rest :=
  Iff.rfl

theorem pure_apply {a b : α} {input rest : Input} :
    (pure a : Rule α) input b rest ↔ b = a ∧ rest = input :=
  Iff.rfl

instance : LawfulMonad Rule :=
  LawfulMonad.mk' Rule
    (fun rule => ext fun input a rest => by
      constructor
      · rintro ⟨_, _, read, rfl, rfl⟩
        exact read
      · exact fun read => ⟨a, rest, read, rfl, rfl⟩)
    (fun a next => ext fun input b rest => by
      constructor
      · rintro ⟨_, _, ⟨rfl, rfl⟩, reads⟩
        exact reads
      · exact fun reads => ⟨a, input, ⟨rfl, rfl⟩, reads⟩)
    (fun rule next after => ext fun input c rest => by
      constructor
      · rintro ⟨b, middle', ⟨a, middle, read, reads⟩, last⟩
        exact ⟨a, middle, read, b, middle', reads, last⟩
      · rintro ⟨a, middle, read, b, middle', reads, last⟩
        exact ⟨b, middle', ⟨a, middle, read, reads⟩, last⟩)

theorem orElse_bind (first second : Rule α) (next : α → Rule β) :
    (first <|> second) >>= next = ((first >>= next) <|> (second >>= next)) :=
  ext fun input b rest => by
    constructor
    · rintro ⟨a, middle, read | read, reads⟩
      · exact .inl ⟨a, middle, read, reads⟩
      · exact .inr ⟨a, middle, read, reads⟩
    · rintro (⟨a, middle, read, reads⟩ | ⟨a, middle, read, reads⟩)
      · exact ⟨a, middle, .inl read, reads⟩
      · exact ⟨a, middle, .inr read, reads⟩

theorem bind_orElse (rule : Rule α) (first second : α → Rule β) :
    (rule >>= fun a => first a <|> second a) = ((rule >>= first) <|> (rule >>= second)) :=
  ext fun input b rest => by
    constructor
    · rintro ⟨a, middle, read, reads | reads⟩
      · exact .inl ⟨a, middle, read, reads⟩
      · exact .inr ⟨a, middle, read, reads⟩
    · rintro (⟨a, middle, read, reads⟩ | ⟨a, middle, read, reads⟩)
      · exact ⟨a, middle, read, .inl reads⟩
      · exact ⟨a, middle, read, .inr reads⟩

theorem orElse_assoc (first second third : Rule α) :
    ((first <|> second) <|> third) = (first <|> second <|> third) :=
  ext fun _ _ _ => or_assoc

end Rule

end MiniPascal
