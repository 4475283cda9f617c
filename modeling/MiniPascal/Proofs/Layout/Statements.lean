import MiniPascal.Proofs.Acceptance.Statements
import MiniPascal.Proofs.Layout.Expressions

/-!
# Statements in two layouts

The steps that parse statements agree for all parsers that stand alike.
-/

namespace MiniPascal

namespace Parse

open MiniPascal.Parser

variable {size fuel fuel' : Nat}

theorem agree_expression (le : size ≤ fuel) (le' : size ≤ fuel') :
    Agree 1 size anyKind (expression fuel) (expression fuel') := agree_nested le le' .arithmetic

theorem agree_condition (le : size ≤ fuel) (le' : size ≤ fuel') :
    Agree 1 size anyKind (condition fuel) (condition fuel') := agree_nested le le' .condition

theorem agree_call_arguments (le : size ≤ fuel) (le' : size ≤ fuel') (callee : String) :
    Agree 1 size anyKind (arguments fuel (nested fuel) callee)
      (arguments fuel' (nested fuel') callee) := by
  cases size with
  | zero => exact agree_zero
  | succ size =>
      exact agree_arguments (fun grammar => (agree_nested (Nat.le_of_succ_le le)
        (Nat.le_of_succ_le le') grammar).weaken) le le' callee

theorem agree_index (le : size ≤ fuel) (le' : size ≤ fuel') {array array' : Token}
    (same : Placed.bare array = Placed.bare array') : Agree 1 size (· = .leftBracket)
    (element (nested fuel) array) (element (nested fuel') array') :=
  (agree_element (fun grammar => (agree_nested le le' grammar).weaken) same).atSize
    (Nat.le_succ size)

theorem agree_separator : Agree 0 size anyKind separator separator := by
  have semicolon : Agree 0 size anyKind (do let _ ← expect .semicolon : Parse Unit)
      (do let _ ← expect .semicolon) :=
    (agree_expect .semicolon (by decide)).weaken.bind fun _ _ _ => agree_pure rfl
  refine agree_kind fun front _ => ?_
  split
  · exact agree_pure rfl
  · exact agree_pure rfl
  · exact semicolon.ofAny

theorem agree_assignTo (le : size ≤ fuel) (le' : size ≤ fuel') {target target' : Expr}
    (same : Placed.bare target = Placed.bare target') :
    Agree 1 size anyKind (assignTo fuel target) (assignTo fuel' target') := by
  refine (agree_expect .assign (by decide)).bind fun _ _ _ =>
    (agree_expression le le').weaken.bind fun _ _ same' => agree_pure ?_
  change Assignment.mk (Placed.bare target) (Placed.bare _) .nowhere =
    ⟨Placed.bare target', Placed.bare _, .nowhere⟩
  rw [same, same']

theorem agree_freshLoop : Agree 0 size anyKind freshLoop freshLoop := by
  intro first second alike _ _
  refine .ok (congrArg LoopId.mk alike.nextLoop) ⟨?_, alike.ending, alike.settled, alike.settled'⟩
    ⟨List.suffix_refl _, Nat.le_refl _⟩ ⟨List.suffix_refl _, Nat.le_refl _⟩
  exact congrArg (fun input => Input.mk input.lexemes (input.loops + 1)) alike.input

theorem agree_direction : Agree 1 size anyKind direction direction := by
  refine agree_kind fun front _ => ?_
  cases front with
  | toWord => exact (agree_advance .toWord (by decide)).bind fun _ _ _ => agree_pure rfl
  | downtoWord => exact (agree_advance .downtoWord (by decide)).bind fun _ _ _ => agree_pure rfl
  | _ => exact agree_unexpected .toWord

theorem bare_call_statement {callee : String} {arguments arguments' : List Expr}
    {position position' : Position} (same : Placed.bare arguments = Placed.bare arguments') :
    Placed.bare (Statement.call callee arguments position) =
      Placed.bare (Statement.call callee arguments' position') := by
  change Statement.call callee (Expr.bareAll arguments) .nowhere =
    .call callee (Expr.bareAll arguments') .nowhere
  rw [Expr.bareAll_eq, Expr.bareAll_eq, same]

theorem agree_identStatement (le : size ≤ fuel) (le' : size ≤ fuel') :
    Agree 1 size (· = .ident) (identStatement fuel) (identStatement fuel') := by
  refine (agree_advance .ident (by decide)).bind fun token token' same =>
    agree_kind fun behind _ => ?_
  have assigns {target target' : Expr} (same : Placed.bare target = Placed.bare target') :
      Agree 0 size anyKind (do return .assign (← assignTo fuel target) : Parse Statement)
        (do return .assign (← assignTo fuel' target')) :=
    (agree_assignTo le le' same).weaken.bind fun _ _ same =>
      agree_pure (congrArg Statement.assign same)
  cases behind with
  | assign => exact (assigns (congrArg (Expr.ident · .nowhere) (bare_text same))).ofAny
  | leftBracket => exact (agree_index le le' same).weaken.bind fun _ _ same => assigns same
  | leftParen =>
      rw [← bare_text same]
      exact (agree_call_arguments le le' token.text).weaken.ofAny.bind fun _ _ same' =>
        agree_pure (bare_call_statement same')
  | semicolon | endWord | elseWord =>
      rw [← bare_text same]
      exact agree_pure rfl
  | _ =>
      refine agree_throw ?_ (by simp)
      simp [ParseError.bare, bare_text same]

theorem agree_breakStatement (loop : Option LoopId) :
    Agree 1 size (· = .breakWord) (breakStatement loop) (breakStatement loop) := by
  refine (agree_advance .breakWord (by decide)).bind fun _ _ _ => ?_
  cases loop with
  | some loop => exact agree_pure rfl
  | none => exact agree_throw rfl (by simp)

/-! ### Statements with others inside -/

section

variable {inner inner' : Option LoopId → Parse Statement}
  (agree : ∀ loop, Agree 1 size anyKind (inner loop) (inner' loop))
  (le : size + 1 ≤ fuel) (le' : size + 1 ≤ fuel')

theorem bare_block {statements statements' : List Statement}
    (same : Placed.bare statements = Placed.bare statements') :
    Placed.bare (Statement.block statements) = Placed.bare (Statement.block statements') := by
  change Statement.block (Statement.bareAll statements) = .block (Statement.bareAll statements')
  rw [Statement.bareAll_eq, Statement.bareAll_eq, same]

include agree le le'

theorem agree_blockStatement (loop : Option LoopId) : Agree 1 (size + 1) (· = .beginWord)
    (blockStatement fuel (inner loop)) (blockStatement fuel' (inner' loop)) := by
  refine (agree_expect .beginWord (by decide)).bindFewer fun _ _ _ => ?_
  refine Agree.bindEnds (· = .endWord) (agree_many_kind (· = .endWord) (by omega) (by omega) ?_ ?_)
    (fun _ _ _ => stops_of_many (· = .endWord) ?_ ?_) fun statements statements' same => ?_
  · rintro _ rfl
    exact ⟨rfl, rfl⟩
  · intro kind notEnd
    split
    · exact absurd rfl notEnd
    · exact agree_unexpected .endWord
    · exact (agree loop).ofAny.bind fun _ _ same => agree_pure (congrArg some same)
  · rintro _ rfl
    rfl
  · intro kind notEnd parser rest isOk
    split at isOk
    · exact absurd rfl notEnd
    · exact absurd isOk (unexpected_ne_ok _ _ _)
    · obtain ⟨_, _, -, isOk⟩ := bind_eq_ok.1 isOk
      cases isOk
  · exact (agree_advance .endWord (by decide)).weaken.bind fun _ _ _ =>
      agree_separator.bind fun _ _ _ => agree_pure (bare_block same)

theorem agree_ifStatement (loop : Option LoopId) : Agree 1 (size + 1) (· = .ifWord)
    (ifStatement fuel (inner loop)) (ifStatement fuel' (inner' loop)) := by
  refine (agree_advance .ifWord (by decide)).bindFewer fun _ _ _ =>
    (agree_condition (by omega) (by omega)).weaken.bind fun test test' same =>
      (agree_expect .thenWord (by decide)).weaken.bind fun _ _ _ =>
        (agree loop).weaken.bind fun holds holds' same' => agree_kind fun front _ => ?_
  by_cases isElse : front = .elseWord
  · subst isElse
    rw [if_pos rfl, if_pos rfl]
    refine (agree_advance .elseWord (by decide)).weaken.bind fun _ _ _ =>
      (agree loop).weaken.bind fun fails fails' same'' => agree_pure ?_
    change Statement.ifThenElse (Placed.bare test) (Placed.bare holds) (Placed.bare fails) .nowhere =
      .ifThenElse (Placed.bare test') (Placed.bare holds') (Placed.bare fails') .nowhere
    rw [same, same', same'']
  · rw [if_neg isElse, if_neg isElse]
    refine agree_pure ?_
    change Statement.ifThen (Placed.bare test) (Placed.bare holds) .nowhere =
      .ifThen (Placed.bare test') (Placed.bare holds') .nowhere
    rw [same, same']

theorem agree_whileStatement : Agree 1 (size + 1) (· = .whileWord)
    (whileStatement fuel fun id => inner (some id))
    (whileStatement fuel' fun id => inner' (some id)) := by
  refine (agree_advance .whileWord (by decide)).bindFewer fun _ _ _ =>
    (agree_condition (by omega) (by omega)).weaken.bind fun test test' same =>
      (agree_expect .doWord (by decide)).weaken.bind fun _ _ _ =>
        agree_freshLoop.bind fun id id' sameId => ?_
  obtain rfl : id = id' := sameId
  refine (agree (some id)).weaken.bind fun body body' same' => agree_pure ?_
  change Statement.whileLoop id (Placed.bare test) (Placed.bare body) .nowhere =
    .whileLoop id (Placed.bare test') (Placed.bare body') .nowhere
  rw [same, same']

theorem agree_forStatement : Agree 1 (size + 1) (· = .forWord)
    (forStatement fuel fun id => inner (some id))
    (forStatement fuel' fun id => inner' (some id)) := by
  refine (agree_advance .forWord (by decide)).bindFewer fun _ _ _ =>
    (agree_expect .ident (by decide)).weaken.bind fun counter counter' isCounter =>
      (agree_assignTo (by omega) (by omega)
        (congrArg (Expr.ident · .nowhere) (bare_text isCounter))).weaken.bind
        fun initial initial' same => agree_direction.weaken.bind fun direction direction' isDirection =>
          (agree_expression (by omega) (by omega)).weaken.bind fun limit limit' same' =>
            (agree_expect .doWord (by decide)).weaken.bind fun _ _ _ =>
              agree_freshLoop.bind fun id id' sameId => ?_
  obtain rfl : id = id' := sameId
  obtain rfl : direction = direction' := isDirection
  refine (agree (some id)).weaken.bind fun body body' same'' => agree_pure ?_
  change Statement.forLoop id (Placed.bare initial) direction (Placed.bare limit) (Placed.bare body)
      .nowhere =
    .forLoop id (Placed.bare initial') direction (Placed.bare limit') (Placed.bare body') .nowhere
  rw [same, same', same'']

theorem agree_statementAt (loop : Option LoopId) {front : TokenKind} {step step' : Parse Statement}
    (isStep : statementAt fuel inner loop front = some step)
    (isStep' : statementAt fuel' inner' loop front = some step') :
    Agree 1 (size + 1) (· = front) step step' := by
  have ends {action action' : Parse Statement} (agree : Agree 1 (size + 1) (· = front) action action') :
      Agree 1 (size + 1) (· = front) (do
        let statement ← action
        separator
        return statement) (do
        let statement ← action'
        separator
        return statement) :=
    agree.bind fun _ _ same => agree_separator.bind fun _ _ _ => agree_pure same
  cases front with
  | ifWord =>
      cases isStep
      cases isStep'
      exact agree_ifStatement agree le le' loop
  | whileWord =>
      cases isStep
      cases isStep'
      exact agree_whileStatement agree le le'
  | forWord =>
      cases isStep
      cases isStep'
      exact agree_forStatement agree le le'
  | beginWord =>
      cases isStep
      cases isStep'
      exact agree_blockStatement agree le le' loop
  | ident =>
      cases isStep
      cases isStep'
      exact ends (agree_identStatement le le')
  | breakWord =>
      cases isStep
      cases isStep'
      exact ends (agree_breakStatement loop)
  | _ => cases isStep

end

section

variable {at? at'? : TokenKind → Option (Parse Statement)}
  (isNone : ∀ front, at? front = none ↔ at'? front = none)
  (agree : ∀ front step step', at? front = some step → at'? front = some step' →
    Agree 1 size (· = front) step step')

include isNone agree

theorem decided_cases (front : TokenKind) :
    at? front = none ∧ at'? front = none ∨
      ∃ step step', at? front = some step ∧ at'? front = some step' ∧
        Agree 1 size (· = front) step step' := by
  cases isStep : at? front with
  | none => exact .inl ⟨rfl, (isNone front).1 isStep⟩
  | some step =>
      obtain ⟨step', isStep'⟩ := Option.ne_none_iff_exists'.1 fun isNone' =>
        Option.some_ne_none step (isStep.symm.trans ((isNone front).2 isNone'))
      exact .inr ⟨step, step', rfl, isStep', agree front step step' isStep isStep'⟩

theorem agree_required : Agree 1 size anyKind (required (Parse.kind >>= decided at?))
    (required (Parse.kind >>= decided at'?)) := by
  unfold required decided
  simp only [bind_assoc]
  refine agree_kind fun front _ => ?_
  rcases decided_cases isNone agree front with ⟨isNil, isNil'⟩ | ⟨step, step', isStep, isStep', agree⟩
  · rw [isNil, isNil']
    exact agree_cannotExpand .statement
  · rw [isStep, isStep']
    simpa only [Option.elim_some, map_eq_pure_bind, bind_assoc, pure_bind, bind_pure] using agree

theorem agree_statements (le : size ≤ fuel) (le' : size ≤ fuel') :
    Agree 0 size anyKind (many fuel (Parse.kind >>= decided at?))
      (many fuel' (Parse.kind >>= decided at'?)) := by
  refine agree_many_kind (fun front => at? front = none) le le' (fun front isNil => ?_)
    fun front isSome => ?_
  · unfold decided
    rw [isNil, (isNone front).1 isNil]
    exact ⟨rfl, rfl⟩
  · unfold decided
    rcases decided_cases isNone agree front with ⟨isNil, -⟩ | ⟨step, step', isStep, isStep', agree⟩
    · exact absurd isNil isSome
    · rw [isStep, isStep', Option.elim_some, Option.elim_some, map_eq_pure_bind, map_eq_pure_bind]
      exact agree.bind fun _ _ same => agree_pure (congrArg some same)

end

theorem statementAt_eq_none_iff (fuel fuel' : Nat) (inner inner' : Option LoopId → Parse Statement)
    (loop : Option LoopId) (front : TokenKind) :
    statementAt fuel inner loop front = none ↔ statementAt fuel' inner' loop front = none := by
  rw [statementAt_eq_none, statementAt_eq_none]

theorem agree_statement (le : size ≤ fuel) (le' : size ≤ fuel') (loop : Option LoopId) :
    Agree 1 size anyKind (required (statement? fuel loop)) (required (statement? fuel' loop)) := by
  induction size generalizing fuel fuel' loop with
  | zero => exact agree_zero
  | succ size ih =>
      obtain ⟨fuel, rfl⟩ := Nat.exists_eq_add_one_of_ne_zero (by omega : fuel ≠ 0)
      obtain ⟨fuel', rfl⟩ := Nat.exists_eq_add_one_of_ne_zero (by omega : fuel' ≠ 0)
      rw [statement?, statement?, statementWith_eq, statementWith_eq]
      refine agree_required (statementAt_eq_none_iff _ _ _ _ loop) fun front step step' => ?_
      exact agree_statementAt (fun loop => ih (by omega) (by omega) loop) le le' loop

theorem agree_body (le : size ≤ fuel) (le' : size ≤ fuel') :
    Agree 0 size anyKind (many fuel (statement? fuel none)) (many fuel' (statement? fuel' none)) := by
  cases size with
  | zero => exact agree_zero
  | succ size =>
      obtain ⟨fuel, rfl⟩ := Nat.exists_eq_add_one_of_ne_zero (by omega : fuel ≠ 0)
      obtain ⟨fuel', rfl⟩ := Nat.exists_eq_add_one_of_ne_zero (by omega : fuel' ≠ 0)
      rw [statement?, statement?, statementWith_eq, statementWith_eq]
      refine agree_statements (statementAt_eq_none_iff _ _ _ _ none) (fun front step step' => ?_) le le'
      exact agree_statementAt (fun loop => agree_statement (by omega) (by omega) loop) le le' none

end Parse

end MiniPascal
