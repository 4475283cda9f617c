import MiniPascal.Proofs.Ensures
import MiniPascal.Tree.Basic
import MiniPascal.Lexical.Token

/-!
# Errors and trees with good positions

`Guarded` says of a step what `Ensures` says and, besides, which errors it can fail with.  `Located`
says of tokens and trees that all positions in them are good ones, whichever these are.
-/

namespace MiniPascal

/-! ### Steps with their errors -/

section

variable {ε σ α β : Type}

/-- From states with an invariant, a step either succeeds with a result of some kind and keeps the
invariant, or fails with an error of some kind. -/
def Guarded (invariant : σ → Prop) (fault : ε → Prop) (result : α → Prop)
    (action : EStateM ε σ α) : Prop :=
  ∀ s, invariant s →
    match action s with
    | .ok a s' => result a ∧ invariant s'
    | .error e _ => fault e

variable {invariant : σ → Prop} {fault : ε → Prop} {result : α → Prop} {result' : β → Prop}
  {action : EStateM ε σ α} {next : α → EStateM ε σ β}

theorem guarded_pure {a : α} (holds : result a) :
    Guarded invariant fault result (pure a : EStateM ε σ α) :=
  fun _ isState => ⟨holds, isState⟩

theorem guarded_throw {e : ε} (holds : fault e) :
    Guarded invariant fault result (throw e : EStateM ε σ α) :=
  fun _ _ => holds

theorem guarded_get : Guarded invariant fault invariant (get : EStateM ε σ σ) :=
  fun _ isState => ⟨isState, isState⟩

theorem guarded_modify {change : σ → σ} (keeps : ∀ s, invariant s → invariant (change s)) :
    Guarded invariant fault (fun _ => True) (modify change : EStateM ε σ Unit) :=
  fun s isState => ⟨trivial, keeps s isState⟩

theorem Guarded.bind (first : Guarded invariant fault result action)
    (second : ∀ a, result a → Guarded invariant fault result' (next a)) :
    Guarded invariant fault result' (action >>= next) := by
  intro s isState
  have outcome := first s isState
  cases isAction : action s with
  | ok a s' =>
      rw [isAction] at outcome
      rw [bind_of_ok next isAction]
      exact second a outcome.1 s' outcome.2
  | error e s' =>
      rw [isAction] at outcome
      rw [bind_of_error next isAction]
      exact outcome

theorem guarded_forM {items : List α} {step : α → EStateM ε σ Unit}
    (each : ∀ item ∈ items, Guarded invariant fault (fun _ => True) (step item)) :
    Guarded invariant fault (fun _ => True) (items.forM step) := by
  induction items with
  | nil => exact guarded_pure trivial
  | cons first others ih =>
      exact (each first List.mem_cons_self).bind fun _ _ =>
        ih fun item isIn => each item (List.mem_cons_of_mem _ isIn)

end

/-! ### Trees with their positions -/

class Located (α : Type) where
  /-- All positions are good. -/
  within : (Position → Prop) → α → Prop

instance : Located Position := ⟨fun good position => good position⟩

instance : Located Token := ⟨fun good token => good token.position⟩

instance : Located Unit := ⟨fun _ _ => True⟩

instance : Located String := ⟨fun _ _ => True⟩

instance : Located TokenKind := ⟨fun _ _ => True⟩

instance : Located LoopId := ⟨fun _ _ => True⟩

instance : Located BinaryOp := ⟨fun _ _ => True⟩

instance : Located Direction := ⟨fun _ _ => True⟩

variable {α β : Type} [Located α] [Located β]

instance : Located (Option α) := ⟨fun good items => ∀ item ∈ items, Located.within good item⟩

instance : Located (List α) := ⟨fun good items => ∀ item ∈ items, Located.within good item⟩

instance : Located (α × β) :=
  ⟨fun good pair => Located.within good pair.1 ∧ Located.within good pair.2⟩

variable {good : Position → Prop}

theorem located_nil : Located.within good ([] : List α) := fun _ isIn => absurd isIn List.not_mem_nil

theorem located_cons {first : α} {others : List α} :
    Located.within good (first :: others) ↔
      Located.within good first ∧ Located.within good others :=
  List.forall_mem_cons

theorem located_append {first second : List α} (h₁ : Located.within good first)
    (h₂ : Located.within good second) : Located.within good (first ++ second) :=
  List.forall_mem_append.2 ⟨h₁, h₂⟩

theorem located_flatten {lists : List (List α)} (each : Located.within good lists) :
    Located.within good lists.flatten := by
  intro item isIn
  obtain ⟨list, isList, isIn⟩ := List.mem_flatten.1 isIn
  exact each list isList item isIn

theorem located_none : Located.within good (none : Option α) := by simp [Located.within]

theorem located_some {item : α} : Located.within good (some item) ↔ Located.within good item := by
  simp [Located.within]

mutual

def Expr.Within (good : Position → Prop) : Expr → Prop
  | .ident _ position | .number _ position | .literal _ position => good position
  | .binary _ left right position => left.Within good ∧ right.Within good ∧ good position
  | .negate operand position | .not operand position => operand.Within good ∧ good position
  | .element _ index position => index.Within good ∧ good position
  | .call _ arguments position => Expr.AllWithin good arguments ∧ good position

def Expr.AllWithin (good : Position → Prop) : List Expr → Prop
  | [] => True
  | first :: others => first.Within good ∧ Expr.AllWithin good others

end

instance : Located Expr := ⟨Expr.Within⟩

theorem Expr.allWithin_iff {exprs : List Expr} :
    Expr.AllWithin good exprs ↔ Located.within good exprs := by
  induction exprs with
  | nil => exact iff_of_true trivial located_nil
  | cons first others ih =>
      rw [located_cons, ← ih]
      rfl

theorem Expr.Within.position {expr : Expr} (within : expr.Within good) : good expr.position := by
  cases expr with
  | ident name position | number value position | literal text position => exact within
  | negate operand position | not operand position | element array operand position
  | call callee arguments position => exact within.2
  | binary op left right position => exact within.2.2

def DataType.Within (good : Position → Prop) : DataType → Prop
  | .integer => True
  | .array low high => low.Within good ∧ high.Within good

instance : Located DataType := ⟨DataType.Within⟩

def VarGroup.Within (good : Position → Prop) (group : VarGroup) : Prop :=
  group.type.Within good ∧ good group.position

instance : Located VarGroup := ⟨VarGroup.Within⟩

def Assignment.Within (good : Position → Prop) (assignment : Assignment) : Prop :=
  assignment.target.Within good ∧ assignment.value.Within good ∧ good assignment.position

instance : Located Assignment := ⟨Assignment.Within⟩

def Heading.Within (good : Position → Prop) (heading : Heading) : Prop :=
  Located.within good heading.parameters ∧ Located.within good heading.returns ∧
    good heading.position

instance : Located Heading := ⟨Heading.Within⟩

mutual

def Statement.Within (good : Position → Prop) : Statement → Prop
  | .program _ => True
  | .vars group => group.Within good
  | .constant _ value position => value.Within good ∧ good position
  | .forward heading => heading.Within good
  | .callable heading body => heading.Within good ∧ Statement.AllWithin good body
  | .call _ arguments position => Located.within good arguments ∧ good position
  | .assign assignment => assignment.Within good
  | .block statements => Statement.AllWithin good statements
  | .ifThen condition holds position =>
      condition.Within good ∧ holds.Within good ∧ good position
  | .ifThenElse condition holds fails position =>
      condition.Within good ∧ holds.Within good ∧ fails.Within good ∧ good position
  | .whileLoop _ condition body position =>
      condition.Within good ∧ body.Within good ∧ good position
  | .forLoop _ initial _ limit body position =>
      initial.Within good ∧ limit.Within good ∧ body.Within good ∧ good position
  | .leave _ position => good position

def Statement.AllWithin (good : Position → Prop) : List Statement → Prop
  | [] => True
  | first :: others => first.Within good ∧ Statement.AllWithin good others

end

instance : Located Statement := ⟨Statement.Within⟩

theorem Statement.allWithin_iff {statements : List Statement} :
    Statement.AllWithin good statements ↔ Located.within good statements := by
  induction statements with
  | nil => exact iff_of_true trivial located_nil
  | cons first others ih =>
      rw [located_cons, ← ih]
      rfl

instance : Located Program := ⟨fun good program => Located.within good program.statements⟩

end MiniPascal
