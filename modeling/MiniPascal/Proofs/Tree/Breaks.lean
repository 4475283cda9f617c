import MiniPascal.Proofs.Tree.Grammatical

/-!
# Loops and the ways out of them

In trees that the grammar derives, every `break` names the innermost loop around it, within the body of
its callable, and the loops are numbered in the order of their keywords, from some number on.
-/

namespace MiniPascal

mutual

def Statement.loopIds : Statement → List LoopId
  | .block statements | .callable _ statements => Statement.allLoopIds statements
  | .ifThen _ holds _ => holds.loopIds
  | .ifThenElse _ holds fails _ => holds.loopIds ++ fails.loopIds
  | .whileLoop id _ body _ | .forLoop id _ _ _ body _ => id :: body.loopIds
  | _ => []

def Statement.allLoopIds : List Statement → List LoopId
  | [] => []
  | first :: others => first.loopIds ++ Statement.allLoopIds others

end

mutual

/-- Every `break` names the innermost loop around it; `loop` is the one around the statement.  The body
of a callable is inside of no loop. -/
def Statement.BreaksBind (loop : Option LoopId) : Statement → Prop
  | .leave id _ => loop = some id
  | .block statements => Statement.AllBreaksBind loop statements
  | .callable _ body => Statement.AllBreaksBind none body
  | .ifThen _ holds _ => holds.BreaksBind loop
  | .ifThenElse _ holds fails _ => holds.BreaksBind loop ∧ fails.BreaksBind loop
  | .whileLoop id _ body _ | .forLoop id _ _ _ body _ => body.BreaksBind (some id)
  | _ => True

def Statement.AllBreaksBind (loop : Option LoopId) : List Statement → Prop
  | [] => True
  | first :: others => first.BreaksBind loop ∧ Statement.AllBreaksBind loop others

end

def Program.loopIds (program : Program) : List LoopId := Statement.allLoopIds program.statements

def Program.loops (program : Program) : Nat := Statement.totalLoops program.statements

def Program.BreaksBind (program : Program) : Prop :=
  Statement.AllBreaksBind none program.statements

def LoopId.run (next count : Nat) : List LoopId := (List.range' next count).map LoopId.mk

theorem LoopId.run_add (next first second : Nat) :
    run next (first + second) = run next first ++ run (next + first) second := by
  rw [run, run, run, ← List.map_append, List.range'_append_1]

theorem LoopId.mem_run {next count : Nat} {id : LoopId} :
    id ∈ run next count ↔ next ≤ id.index ∧ id.index < next + count := by
  simp only [run, List.mem_map, List.mem_range'_1]
  constructor
  · rintro ⟨index, bounds, rfl⟩
    exact bounds
  · exact fun bounds => ⟨id.index, bounds, rfl⟩

theorem LoopId.nodup_run (next count : Nat) : (run next count).Nodup :=
  List.pairwise_map.2 ((List.nodup_range' 1).imp fun differ same => differ (LoopId.mk.inj same))

mutual

theorem Statement.IsAction.breaks {loop : Option LoopId} {next : Nat} {action : Statement}
    (isAction : action.IsAction loop next) :
    action.BreaksBind loop ∧ action.loopIds = LoopId.run next action.loops := by
  cases action with
  | call callee arguments position | assign assignment => exact ⟨trivial, rfl⟩
  | leave id position => exact ⟨isAction, rfl⟩
  | block statements => exact areActions_breaks statements isAction
  | ifThen condition holds position => exact isAction.2.breaks
  | ifThenElse condition holds fails position =>
      obtain ⟨-, isHolds, isFails⟩ := isAction
      obtain ⟨bindHolds, idsHolds⟩ := isHolds.breaks
      obtain ⟨bindFails, idsFails⟩ := isFails.breaks
      refine ⟨⟨bindHolds, bindFails⟩, ?_⟩
      rw [loopIds, loops, LoopId.run_add, idsHolds, idsFails]
  | whileLoop id condition body position =>
      obtain ⟨rfl, -, isBody⟩ := isAction
      obtain ⟨bind, ids⟩ := isBody.breaks
      refine ⟨bind, ?_⟩
      rw [loopIds, loops, Nat.add_comm, LoopId.run_add, ids]
      rfl
  | forLoop id initial direction limit body position =>
      obtain ⟨rfl, -, -, -, isBody⟩ := isAction
      obtain ⟨bind, ids⟩ := isBody.breaks
      refine ⟨bind, ?_⟩
      rw [loopIds, loops, Nat.add_comm, LoopId.run_add, ids]
      rfl
  | _ => exact isAction.elim

theorem Statement.areActions_breaks {loop : Option LoopId} {next : Nat} (actions : List Statement)
    (areActions : AreActions loop next actions) :
    AllBreaksBind loop actions ∧ allLoopIds actions = LoopId.run next (totalLoops actions) := by
  cases actions with
  | nil => exact ⟨trivial, rfl⟩
  | cons first others =>
      obtain ⟨isAction, areOthers⟩ := areActions
      obtain ⟨bindFirst, idsFirst⟩ := isAction.breaks
      obtain ⟨bindOthers, idsOthers⟩ := areActions_breaks others areOthers
      refine ⟨⟨bindFirst, bindOthers⟩, ?_⟩
      rw [allLoopIds, totalLoops, LoopId.run_add, idsFirst, idsOthers]

end

theorem Statement.allBreaksBind_append {loop : Option LoopId} {first second : List Statement} :
    AllBreaksBind loop (first ++ second) ↔ AllBreaksBind loop first ∧ AllBreaksBind loop second := by
  induction first with
  | nil => simp [AllBreaksBind]
  | cons statement others ih => simp [AllBreaksBind, ih, and_assoc]

theorem Statement.allLoopIds_append (first second : List Statement) :
    allLoopIds (first ++ second) = allLoopIds first ++ allLoopIds second := by
  induction first with
  | nil => rfl
  | cons statement others ih => simp [allLoopIds, ih]

theorem Statement.IsStorage.breaks {declaration : Statement} (isStorage : declaration.IsStorage)
    (loop : Option LoopId) : declaration.BreaksBind loop ∧ declaration.loopIds = [] := by
  cases declaration with
  | vars group | constant name value position => exact ⟨trivial, rfl⟩
  | _ => exact isStorage.elim

theorem Statement.storage_breaks {declarations : List Statement} (loop : Option LoopId)
    (areStorage : ∀ declaration ∈ declarations, declaration.IsStorage) :
    AllBreaksBind loop declarations ∧ allLoopIds declarations = [] := by
  induction declarations with
  | nil => exact ⟨trivial, rfl⟩
  | cons first others ih =>
      obtain ⟨bindFirst, idsFirst⟩ := (areStorage first (by simp)).breaks loop
      obtain ⟨bindOthers, idsOthers⟩ := ih fun other isOther => areStorage other (by simp [isOther])
      exact ⟨⟨bindFirst, bindOthers⟩, by rw [allLoopIds, idsFirst, idsOthers, List.nil_append]⟩

end MiniPascal
