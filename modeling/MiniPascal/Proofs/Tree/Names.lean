import MiniPascal.Lowering.Basic
import MiniPascal.Proofs.Tree.Grammatical

/-!
# Names that a program declares

Which names the statements of a program declare, outside of callables and in all, and three conditions
on them: that no declared name looks like the name of a result, that the names of callables declared
forward are not used for variables and constants, and that only the last statement is a callable `main`.
-/

namespace MiniPascal

/-- The names of variables and constants that a statement declares where it stands. -/
def Statement.storageNames : Statement → List String
  | .vars group => group.names
  | .constant name _ _ => [name]
  | _ => []

def Statement.globalNames : Statement → List String
  | .callable heading _ => [heading.name]
  | statement => statement.storageNames

theorem Statement.globalNames_of_isStorage {declaration : Statement}
    (isStorage : declaration.IsStorage) : declaration.globalNames = declaration.storageNames := by
  cases declaration with
  | vars group | constant name value position => rfl
  | _ => exact isStorage.elim

/-- All names that a top-level statement declares, those of parameters and of a body's variables and
constants included. -/
def Statement.declaredNames : Statement → List String
  | .forward heading => heading.name :: heading.parameterNames
  | .callable heading body =>
      heading.name :: heading.parameterNames ++ body.flatMap Statement.storageNames
  | statement => statement.storageNames

def Statement.forwardName? : Statement → Option String
  | .forward heading => some heading.name
  | _ => none

def Statement.callableName? : Statement → Option String
  | .forward heading | .callable heading _ => some heading.name
  | _ => none

/-- No declared name ends like the name of a result. -/
def Program.LeavesResults (program : Program) : Prop :=
  ∀ statement ∈ program.statements, ∀ name ∈ statement.declaredNames,
    ∀ callable, name ≠ resultName callable

/-- No global variable or constant has the name of a callable that is declared forward. -/
def Program.LeavesForwards (program : Program) : Prop :=
  ∀ heading, .forward heading ∈ program.statements →
    ∀ statement ∈ program.statements, heading.name ∉ statement.storageNames

/-- No statement in front of the last one declares a callable `main`. -/
def Program.HasOneMain (program : Program) : Prop :=
  ∀ statement ∈ program.statements.dropLast, statement.callableName? ≠ some mainName

instance (name : String) : Decidable (∀ callable, name ≠ resultName callable) :=
  decidable_of_iff (¬ "_return".toList <:+ name.toList) <| by
    refine not_congr ?_ |>.trans not_exists
    constructor
    · rintro ⟨front, isName⟩
      refine ⟨String.ofList front, String.toList_injective ?_⟩
      rw [resultName, String.toList_append, String.toList_ofList, isName]
    · rintro ⟨callable, rfl⟩
      exact ⟨callable.toList, by rw [resultName, String.toList_append]⟩

instance (program : Program) : Decidable program.LeavesResults := by
  unfold Program.LeavesResults
  infer_instance

instance (program : Program) : Decidable program.LeavesForwards :=
  decidable_of_iff (∀ name ∈ program.statements.filterMap Statement.forwardName?,
      ∀ statement ∈ program.statements, name ∉ statement.storageNames) <| by
    simp only [Program.LeavesForwards, List.mem_filterMap]
    constructor
    · intro leaves heading isIn
      exact leaves heading.name ⟨_, isIn, rfl⟩
    · rintro leaves name ⟨statement, isIn, isName⟩
      cases statement with
      | forward heading =>
          obtain rfl := Option.some.inj isName
          exact leaves heading isIn
      | _ => cases isName

instance (program : Program) : Decidable program.HasOneMain := by
  unfold Program.HasOneMain
  infer_instance

/-- A statement as it stands in a program: the header, or what may stand outside of callables. -/
def Statement.IsItem (statement : Statement) : Prop :=
  (∃ name, statement = .program name) ∨ ∃ next, statement.IsTopLevel next

theorem Statement.isTopLevel_of_mem {next : Nat} {declarations : List Statement}
    (areTopLevel : Statement.AreTopLevel next declarations) {declaration : Statement}
    (isIn : declaration ∈ declarations) : ∃ next, declaration.IsTopLevel next := by
  induction declarations generalizing next with
  | nil => cases isIn
  | cons first others ih =>
      rcases List.mem_cons.1 isIn with rfl | isIn
      · exact ⟨next, areTopLevel.1⟩
      · exact ih areTopLevel.2 isIn

theorem isIdentifier_mainName : IsIdentifier mainName := by
  refine ⟨⟨by decide, 'm', ['a', 'i', 'n'], by decide, by decide, fun char isIn => .inl ?_⟩, by decide⟩
  simp only [List.mem_cons, List.not_mem_nil, or_false] at isIn
  rcases isIn with rfl | rfl | rfl <;> decide

theorem Program.Grammatical.isItem {program : Program} (grammatical : program.Grammatical)
    {statement : Statement} (isIn : statement ∈ program.statements) : statement.IsItem := by
  obtain ⟨header, declarations, position, actions, isProgram, isHeader, areTopLevel, areActions⟩ :=
    grammatical
  rw [isProgram, List.append_assoc, List.mem_append, List.mem_append, List.mem_singleton] at isIn
  rcases isIn with isIn | isIn | rfl
  · rcases isHeader with rfl | ⟨name, -, rfl⟩
    · cases isIn
    · exact .inl ⟨name, List.mem_singleton.1 isIn⟩
  · exact .inr (Statement.isTopLevel_of_mem areTopLevel isIn)
  · refine .inr ⟨Statement.totalLoops declarations, ⟨isIdentifier_mainName, by simp, .inr rfl⟩, ?_⟩
    exact ⟨[], actions, rfl, by simp, areActions⟩

end MiniPascal
