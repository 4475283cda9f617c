import MiniPascal.Tree.Basic
import MiniPascal.Lexical.Token

/-!
# Literal text in trees

`Quoting.quotes` are the texts of the literals in a tree, or in a part of one, each with its position.
-/

namespace MiniPascal

mutual

def Expr.quotes : Expr → List (String × Position)
  | .literal text position => [(text, position)]
  | .ident _ _ | .number _ _ => []
  | .binary _ left right _ => left.quotes ++ right.quotes
  | .negate operand _ | .not operand _ => operand.quotes
  | .element _ index _ => index.quotes
  | .call _ arguments _ => Expr.allQuotes arguments

def Expr.allQuotes : List Expr → List (String × Position)
  | [] => []
  | first :: others => first.quotes ++ Expr.allQuotes others

end

def DataType.quotes : DataType → List (String × Position)
  | integer => []
  | array low high => low.quotes ++ high.quotes

def VarGroup.quotes (group : VarGroup) : List (String × Position) := group.type.quotes

def Assignment.quotes (assignment : Assignment) : List (String × Position) :=
  assignment.target.quotes ++ assignment.value.quotes

def Heading.quotes (heading : Heading) : List (String × Position) :=
  heading.parameters.flatMap VarGroup.quotes ++ heading.returns.elim [] DataType.quotes

mutual

def Statement.quotes : Statement → List (String × Position)
  | .program _ | .leave _ _ => []
  | .vars group => group.quotes
  | .constant _ value _ => value.quotes
  | .forward heading => heading.quotes
  | .callable heading body => heading.quotes ++ Statement.allQuotes body
  | .call _ arguments _ => Expr.allQuotes arguments
  | .assign assignment => assignment.quotes
  | .block statements => Statement.allQuotes statements
  | .ifThen condition holds _ => condition.quotes ++ holds.quotes
  | .ifThenElse condition holds fails _ => condition.quotes ++ (holds.quotes ++ fails.quotes)
  | .whileLoop _ condition body _ => condition.quotes ++ body.quotes
  | .forLoop _ initial _ limit body _ => initial.quotes ++ (limit.quotes ++ body.quotes)

def Statement.allQuotes : List Statement → List (String × Position)
  | [] => []
  | first :: others => first.quotes ++ Statement.allQuotes others

end

def Program.quotes (program : Program) : List (String × Position) :=
  Statement.allQuotes program.statements

theorem Expr.allQuotes_eq (exprs : List Expr) : Expr.allQuotes exprs = exprs.flatMap Expr.quotes := by
  induction exprs with
  | nil => rfl
  | cons first others ih => rw [Expr.allQuotes, List.flatMap_cons, ih]

theorem Statement.allQuotes_eq (statements : List Statement) :
    Statement.allQuotes statements = statements.flatMap Statement.quotes := by
  induction statements with
  | nil => rfl
  | cons first others ih => rw [Statement.allQuotes, List.flatMap_cons, ih]

class Quoting (α : Type) where
  quotes : α → List (String × Position)

instance : Quoting Expr := ⟨Expr.quotes⟩
instance : Quoting DataType := ⟨DataType.quotes⟩
instance : Quoting VarGroup := ⟨VarGroup.quotes⟩
instance : Quoting Assignment := ⟨Assignment.quotes⟩
instance : Quoting Heading := ⟨Heading.quotes⟩
instance : Quoting Statement := ⟨Statement.quotes⟩
instance : Quoting Program := ⟨Program.quotes⟩

instance : Quoting Unit := ⟨fun _ => []⟩
instance : Quoting String := ⟨fun _ => []⟩
instance : Quoting Position := ⟨fun _ => []⟩
instance : Quoting TokenKind := ⟨fun _ => []⟩
instance : Quoting Token := ⟨fun _ => []⟩
instance : Quoting LoopId := ⟨fun _ => []⟩
instance : Quoting BinaryOp := ⟨fun _ => []⟩
instance : Quoting Direction := ⟨fun _ => []⟩

variable {α β : Type} [Quoting α] [Quoting β]

instance : Quoting (Option α) := ⟨fun item => item.elim [] Quoting.quotes⟩
instance : Quoting (List α) := ⟨fun items => items.flatMap Quoting.quotes⟩
instance : Quoting (α × β) := ⟨fun pair => Quoting.quotes pair.1 ++ Quoting.quotes pair.2⟩

def OnlyQuotes (good : String → Position → Prop) (a : α) : Prop :=
  ∀ quote ∈ Quoting.quotes a, good quote.1 quote.2

variable {good : String → Position → Prop}

theorem onlyQuotes_of_nil {a : α} (noQuotes : Quoting.quotes a = []) : OnlyQuotes good a := by
  intro quote isIn
  rw [noQuotes] at isIn
  exact absurd isIn List.not_mem_nil

theorem onlyQuotes_of_append {γ : Type} [Quoting γ] {a : α} {b : β} {c : γ}
    (isBoth : Quoting.quotes c = Quoting.quotes a ++ Quoting.quotes b) (onlyLeft : OnlyQuotes good a)
    (onlyRight : OnlyQuotes good b) : OnlyQuotes good c := by
  intro quote isIn
  rw [isBoth, List.mem_append] at isIn
  exact isIn.elim (onlyLeft quote) (onlyRight quote)

theorem onlyQuotes_none : OnlyQuotes good (none : Option α) := onlyQuotes_of_nil rfl

theorem onlyQuotes_some {a : α} : OnlyQuotes good (some a) ↔ OnlyQuotes good a := Iff.rfl

theorem onlyQuotes_nil : OnlyQuotes good ([] : List α) := onlyQuotes_of_nil rfl

theorem onlyQuotes_cons {first : α} {others : List α} :
    OnlyQuotes good (first :: others) ↔ OnlyQuotes good first ∧ OnlyQuotes good others := by
  simp only [OnlyQuotes, Quoting.quotes, List.flatMap_cons, List.forall_mem_append]

theorem onlyQuotes_append {first second : List α} (onlyFirst : OnlyQuotes good first)
    (onlySecond : OnlyQuotes good second) : OnlyQuotes good (first ++ second) :=
  onlyQuotes_of_append List.flatMap_append onlyFirst onlySecond

theorem onlyQuotes_flatten {lists : List (List α)} (only : OnlyQuotes good lists) :
    OnlyQuotes good lists.flatten := by
  intro quote isIn
  obtain ⟨item, isItem, isIn⟩ := List.mem_flatMap.1 isIn
  obtain ⟨list, isList, isItem⟩ := List.mem_flatten.1 isItem
  exact only quote (List.mem_flatMap.2 ⟨list, isList, List.mem_flatMap.2 ⟨item, isItem, isIn⟩⟩)

theorem onlyQuotes_pair {a : α} {b : β} :
    OnlyQuotes good (a, b) ↔ OnlyQuotes good a ∧ OnlyQuotes good b := by
  simp only [OnlyQuotes, Quoting.quotes, List.forall_mem_append]

theorem Expr.onlyQuotes_all {exprs : List Expr} (only : OnlyQuotes good exprs) :
    ∀ quote ∈ Expr.allQuotes exprs, good quote.1 quote.2 := by
  rw [Expr.allQuotes_eq]
  exact only

theorem Statement.onlyQuotes_all {statements : List Statement} (only : OnlyQuotes good statements) :
    ∀ quote ∈ Statement.allQuotes statements, good quote.1 quote.2 := by
  rw [Statement.allQuotes_eq]
  exact only

end MiniPascal
