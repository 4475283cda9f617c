import MiniPascal.Proofs.Acceptance.Statements
import MiniPascal.Proofs.Printing.Expressions

/-!
# Printed statements are read again

A printed statement has no separator of its own: what it is read as is said for the statement with a
separator behind it.  Only a block may stand in front of an `else`.
-/

namespace MiniPascal

def Separates (tail rest : List Token) : Prop :=
  ∀ loops, Rule.separator ⟨tail, loops⟩ () ⟨rest, loops⟩

theorem separates_semicolon {tokens others : List Token} {next : Token} :
    Separates (.sign .semicolon :: (tokens ++ next :: others)) (tokens ++ next :: others) :=
  fun _ => .inr ⟨_, _, Rule.sign_append, rfl, rfl⟩

theorem separates_word (first : Token) (others : List Token)
    (isWord : first.kind = .endWord ∨ first.kind = .elseWord) :
    Separates (first :: others) (first :: others) :=
  fun _ => .inl ⟨isWord, rfl⟩

theorem Separates.ends {tail rest : List Token} (separates : Separates tail rest) :
    ∃ first others, tail = first :: others ∧ EndsExpression first.kind := by
  rcases separates 0 with ⟨isWord, -⟩ | ⟨_, _, ⟨isKind, next, others, isTail, -⟩, -⟩
  · cases tail with
    | nil => rcases isWord with isWord | isWord <;> cases isWord
    | cons first others =>
        refine ⟨first, others, rfl, ?_⟩
        have isWord : first.kind = .endWord ∨ first.kind = .elseWord := isWord
        rcases isWord with isWord | isWord <;> rw [isWord] <;> decide
  · refine ⟨_, _, isTail, ?_⟩
    rw [isKind]
    decide

namespace Statement

def isBlock : Statement → Bool
  | .block _ => true
  | _ => false

def Rereads (loop : Option LoopId) (next : Nat) (statement : Statement) : Prop :=
  ∀ depth, ∃ tokens, Writes (statement.render depth) tokens ∧
    ∀ tail rest, Separates tail rest →
      (statement.isBlock = false → Parse.noElse (Input.kind ⟨rest, next + statement.loops⟩)) →
      Rule.statement Parse.noElse loop ⟨tokens ++ tail, next⟩ statement.norm.bare
        ⟨rest, next + statement.loops⟩

def RereadAll (loop : Option LoopId) (next : Nat) (statements : List Statement) : Prop :=
  ∀ depth, ∃ tokens, Closed (renderItems depth (renderAll depth statements)) tokens ∧
    ∀ last others, Rule.star (Rule.statement Parse.noElse loop)
      ⟨tokens ++ .sign .endWord :: last :: others, next⟩ (bareAll (normAll statements))
      ⟨.sign .endWord :: last :: others, next + totalLoops statements⟩

variable {loop : Option LoopId} {next : Nat}

/-! ### Lists of statements -/

theorem closed_indentation (depth : Nat) : Closed (indentation depth) [] := by
  induction depth with
  | zero => rfl
  | succ depth ih =>
      have blank : Closed "  " [] := rfl
      have isText : indentation (depth + 1) = "  " ++ indentation depth := by
        simp [indentation, List.replicate_succ, String.join_cons]
      rw [isText]
      exact blank.append ih

theorem noElse_of_star {input : Input} {statements : List Statement} {behind : List Token}
    {loops : Nat} (read : Rule.star (Rule.statement Parse.noElse loop) input statements
      ⟨.sign .endWord :: behind, loops⟩) : Parse.noElse input.kind := by
  intro isElse
  cases read with
  | nil => cases isElse
  | cons head tail =>
      have begins := Rule.begins_statement _ _ _ _ _ head
      rw [isElse] at begins
      exact absurd begins (by simp [Rule.BeginsStatement])

theorem rereadAll_nil : RereadAll loop next [] :=
  fun _ => ⟨[], by rw [renderAll, renderItems]; rfl, fun _ _ => .nil⟩

theorem rereadAll_cons {first : Statement} {others : List Statement}
    (rereads : first.Rereads loop next) (all : RereadAll loop (next + first.loops) others) :
    RereadAll loop next (first :: others) := by
  intro depth
  obtain ⟨tokens, writes, reads⟩ := rereads depth
  have front := (closed_indentation depth).append_writes writes
  cases others with
  | nil =>
      have back : Closed "\n" [] := rfl
      refine ⟨tokens, by simpa [renderAll, renderItems] using front.append_closed (by decide) back, ?_⟩
      intro last behind
      refine .cons (reads _ _ (separates_word (.sign .endWord) _ (.inl rfl)) fun _ isElse => ?_) .nil
      cases isElse
  | cons second others =>
      obtain ⟨more, closed, readAll⟩ := all depth
      have back : Closed ";\n" [.sign .semicolon] := rfl
      refine ⟨tokens ++ .sign .semicolon :: more, ?_, fun last behind => ?_⟩
      · simpa [renderAll, renderItems] using (front.append_closed (by decide) back).append closed
      · have readOthers := readAll last behind
        rw [List.append_assoc, List.cons_append]
        rw [Nat.add_assoc] at readOthers
        exact .cons (reads _ _ separates_semicolon fun _ => noElse_of_star readOthers) readOthers

/-! ### Blocks -/

theorem writes_end : Writes "end" [.sign .endWord] :=
  ⟨[], _, .scan (.word .nowhere "end"), rfl, .word, rfl⟩

theorem rereads_renderBlock {statements : List Statement} (all : RereadAll loop next statements)
    (depth : Nat) :
    ∃ tokens, Writes (renderBlock depth (renderAll (depth + 1) statements)) tokens ∧
      ∀ tail rest, Separates tail rest →
        Rule.statement Parse.noElse loop ⟨tokens ++ tail, next⟩
          (.block (bareAll (normAll statements))) ⟨rest, next + totalLoops statements⟩ := by
  obtain ⟨tokens, closed, reads⟩ := all (depth + 1)
  have front : Closed "begin\n" [.sign .beginWord] := rfl
  have writes := ((front.append closed).append (closed_indentation depth)).append_writes writes_end
  refine ⟨_, writes, fun tail rest separates => .mk ?_⟩
  obtain ⟨last, others, rfl, -⟩ := separates.ends
  simp only [List.append_assoc, List.cons_append, List.nil_append]
  exact .inr (.inr (.inr (.inl ⟨_, _, Rule.sign_append, _, _, reads last others, _, _, Rule.sign_cons, _, _,
    separates _, rfl, rfl⟩)))

theorem rereads_block {statements : List Statement} (all : RereadAll loop next statements) :
    (Statement.block statements).Rereads loop next := by
  intro depth
  obtain ⟨tokens, writes, reads⟩ := rereads_renderBlock all depth
  rw [← render] at writes
  exact ⟨tokens, writes, fun tail rest separates _ => reads tail rest separates⟩

theorem rereads_braced {statement : Statement} (rereads : statement.Rereads loop next) (depth : Nat) :
    ∃ tokens, Writes (statement.renderBraced depth) tokens ∧
      ∀ tail rest, Separates tail rest →
        Rule.statement Parse.noElse loop ⟨tokens ++ tail, next⟩ statement.norm.braced.bare
          ⟨rest, next + statement.loops⟩ := by
  have single := rereads_renderBlock (rereadAll_cons rereads rereadAll_nil) depth
  rw [renderAll, renderAll] at single
  cases statement with
  | block statements =>
      obtain ⟨tokens, writes, reads⟩ := rereads depth
      rw [render] at writes
      rw [renderBraced]
      exact ⟨tokens, writes, fun tail rest separates =>
        reads tail rest separates fun isOther => Bool.noConfusion isOther⟩
  | _ =>
      rw [renderBraced]
      · exact single
      · intro _ isBlock
        cases isBlock

/-! ### Control -/

theorem rereads_ifThen {condition : Expr} {holds : Statement} {position : Position}
    (fits : condition.Fits .condition) (rereads : holds.Rereads loop next) :
    (Statement.ifThen condition holds position).Rereads loop next := by
  intro depth
  obtain ⟨tokens, writes, reads⟩ := Expr.spells_nested fits
  obtain ⟨tokens', writes', reads'⟩ := rereads depth
  have front : Closed "if " [.sign .ifWord] := rfl
  have middle : Closed " then " [.sign .thenWord] := rfl
  have closed := (front.append_writes writes).append_closed (by decide) middle
  have written := closed.append_writes writes'
  rw [← render] at written
  refine ⟨_, written, fun tail rest separates notElse => .mk (.inl ?_)⟩
  have notElse := notElse rfl
  have read := reads' tail rest separates fun _ => notElse
  obtain ⟨last, others, rfl, -⟩ := separates.ends
  simp only [List.append_assoc, List.cons_append, List.nil_append]
  exact ⟨_, _, Rule.sign_append, _, _, reads _ _ _ (by decide), _, _, Rule.sign_append, _, _, read,
    .inr ⟨(), _, ⟨notElse, rfl⟩, rfl, rfl⟩⟩

theorem rereads_ifThenElse {condition : Expr} {holds fails : Statement} {position : Position}
    (fits : condition.Fits .condition) (rereads : holds.Rereads loop next)
    (rereads' : fails.Rereads loop (next + holds.loops)) :
    (Statement.ifThenElse condition holds fails position).Rereads loop next := by
  intro depth
  obtain ⟨tokens, writes, reads⟩ := Expr.spells_nested fits
  obtain ⟨braced, writesBraced, readsBraced⟩ := rereads_braced rereads depth
  obtain ⟨tokens', writes', reads'⟩ := rereads' depth
  have front : Closed "if " [.sign .ifWord] := rfl
  have middle : Closed " then " [.sign .thenWord] := rfl
  have back : Closed " else " [.sign .elseWord] := rfl
  have closed := (((front.append_writes writes).append_closed (by decide) middle).append_writes
    writesBraced).append_closed (by decide) back
  have written := closed.append_writes writes'
  rw [← render] at written
  refine ⟨_, written, fun tail rest separates notElse => .mk (.inl ?_)⟩
  have notElse := notElse rfl
  have read := reads' tail rest separates fun _ => notElse
  obtain ⟨last, others, rfl, -⟩ := separates.ends
  have readBraced := readsBraced _ _ (separates_word (.sign .elseWord) (tokens' ++ last :: others) (.inr rfl))
  rw [Nat.add_assoc] at read
  simp only [List.append_assoc, List.cons_append, List.nil_append]
  exact ⟨_, _, Rule.sign_append, _, _, reads _ _ _ (by decide), _, _, Rule.sign_append, _, _, readBraced,
    .inl ⟨_, _, Rule.sign_append, _, _, read, rfl, rfl⟩⟩

theorem rereads_whileLoop {condition : Expr} {body : Statement} {position : Position}
    (fits : condition.Fits .condition) (rereads : body.Rereads (some ⟨next⟩) (next + 1)) :
    (Statement.whileLoop ⟨next⟩ condition body position).Rereads loop next := by
  intro depth
  obtain ⟨tokens, writes, reads⟩ := Expr.spells_nested fits
  obtain ⟨tokens', writes', reads'⟩ := rereads depth
  have front : Closed "while " [.sign .whileWord] := rfl
  have middle : Closed " do " [.sign .doWord] := rfl
  have closed := (front.append_writes writes).append_closed (by decide) middle
  have written := closed.append_writes writes'
  rw [← render] at written
  refine ⟨_, written, fun tail rest separates notElse => .mk (.inr (.inl ?_))⟩
  have notElse := notElse rfl
  have read := reads' tail rest separates fun _ => notElse
  obtain ⟨last, others, rfl, -⟩ := separates.ends
  rw [Nat.add_assoc, Nat.add_comm 1] at read
  simp only [List.append_assoc, List.cons_append, List.nil_append]
  exact ⟨_, _, Rule.sign_append, _, _, reads _ _ _ (by decide), _, _, Rule.sign_append, _, _, ⟨rfl, rfl⟩,
    _, _, read, rfl, rfl⟩

theorem closed_direction (direction : Direction) :
    Detaches (" " ++ direction.spelling ++ " ") ∧
      ∃ sign, Closed (" " ++ direction.spelling ++ " ") [sign] ∧ EndsExpression sign.kind ∧
        ∀ {tokens others last loops}, Rule.direction ⟨sign :: (tokens ++ last :: others), loops⟩ direction
          ⟨tokens ++ last :: others, loops⟩ := by
  cases direction with
  | upward =>
      exact ⟨by decide, .sign .toWord, rfl, by decide, .inl ⟨_, _, Rule.sign_append, rfl, rfl⟩⟩
  | downward =>
      exact ⟨by decide, .sign .downtoWord, rfl, by decide, .inr ⟨_, _, Rule.sign_append, rfl, rfl⟩⟩

theorem spells_assignTo {value : Expr} (target : Expr) (fits : value.Fits .arithmetic) :
    (Rule.assignTo target).Spells EndsExpression (" := " ++ value.render)
      ⟨target, value.norm.bare, .nowhere⟩ := by
  obtain ⟨tokens, writes, reads⟩ := Expr.spells_nested fits
  have front : Closed " := " [.sign .assign] := rfl
  refine ⟨_, front.append_writes writes, fun next others loops ends => ?_⟩
  exact ⟨_, _, Rule.sign_append, _, _, reads next others loops ends, rfl, rfl⟩

theorem detaches_assign (text : String) : Detaches (" := " ++ text) :=
  Detaches.append (by decide)

theorem rereads_forLoop {initial : Assignment} {direction : Direction} {limit : Expr}
    {body : Statement} {counter : String} {position position' : Position}
    (isCounter : initial.target = .ident counter position') (isIdentifier : IsIdentifier counter)
    (fits : initial.value.Fits .arithmetic) (fits' : limit.Fits .arithmetic)
    (rereads : body.Rereads (some ⟨next⟩) (next + 1)) :
    (Statement.forLoop ⟨next⟩ initial direction limit body position).Rereads loop next := by
  intro depth
  obtain ⟨target, value, origin⟩ := initial
  obtain rfl : target = _ := isCounter
  obtain ⟨tokens, writes, reads⟩ := (Rule.spells_ident isIdentifier).bind
    (fun name => Rule.assignTo (.ident name .nowhere)) (detaches_assign _) (spells_assignTo _ fits)
  obtain ⟨limits, writesLimit, readsLimit⟩ := Expr.spells_nested fits'
  obtain ⟨tokens', writes', reads'⟩ := rereads depth
  obtain ⟨detaches, sign, isSign, endsSign, isDirection⟩ := closed_direction direction
  have front : Closed "for " [.sign .forWord] := rfl
  have middle : Closed " do " [.sign .doWord] := rfl
  have closed := (((front.append_writes writes).append_closed detaches isSign).append_writes
    writesLimit).append_closed (by decide) middle
  have written := closed.append_writes writes'
  refine ⟨_, by simpa [render, Assignment.render, Expr.render, String.append_assoc] using written, ?_⟩
  intro tail rest separates notElse
  have notElse := notElse rfl
  have read := reads' tail rest separates fun _ => notElse
  obtain ⟨last, others, rfl, -⟩ := separates.ends
  obtain ⟨_, _, isName, isValue⟩ :=
    reads sign (limits ++ .sign .doWord :: (tokens' ++ last :: others)) next endsSign
  rw [Nat.add_assoc, Nat.add_comm 1] at read
  refine .mk (.inr (.inr (.inl ?_)))
  simp only [List.append_assoc, List.cons_append]
  exact ⟨_, _, Rule.sign_append, _, _, isName, _, _, isValue, _, _, isDirection, _, _,
    readsLimit _ _ _ (by decide), _, _, Rule.sign_append, _, _, ⟨rfl, rfl⟩, _, _, read, rfl, rfl⟩

/-! ### Simple statements -/

theorem rereads_simple {statement : Statement} {spelled : Statement}
    (isNormal : statement.norm.bare = spelled) (noLoops : statement.loops = 0)
    (spells : ∀ depth, (Rule.assignment <|> Rule.call <|> Rule.breakLoop loop).Spells EndsExpression
      (statement.render depth) spelled) : statement.Rereads loop next := by
  intro depth
  obtain ⟨tokens, writes, reads⟩ := spells depth
  refine ⟨tokens, writes, fun tail rest separates _ => .mk (.inr (.inr (.inr (.inr ?_))))⟩
  obtain ⟨last, others, rfl, ends⟩ := separates.ends
  rw [isNormal, noLoops]
  exact ⟨_, _, reads last others next ends, (), _, separates next, rfl, rfl⟩

theorem rereads_assign {assignment : Assignment} (isPlace : assignment.target.target?.isSome)
    (fits : assignment.target.Fits .arithmetic) (fits' : assignment.value.Fits .arithmetic) :
    (Statement.assign assignment).Rereads loop next := by
  refine rereads_simple rfl rfl fun depth => ?_
  rw [render, Assignment.render, String.append_assoc]
  have spells := (Expr.spells_target isPlace fits).bind
    (fun target => do
      let assignment ← Rule.assignTo target
      return Statement.assign assignment)
    (detaches_assign _) ((spells_assignTo assignment.target.norm.bare fits').map Statement.assign)
  rw [Rule.target, bind_assoc] at spells
  exact spells.le fun _ _ _ => .inl

theorem spells_call {callee : String} {arguments : List Expr} (isIdentifier : IsIdentifier callee)
    (fits : arguments = [] ∨ ArgumentsFit callee arguments) :
    Rule.call.Spells EndsExpression (renderCall callee (Expr.renderAll arguments))
      (.call callee (Expr.bareAll (Expr.normAll arguments)) .nowhere) := by
  cases arguments with
  | nil =>
      obtain ⟨tokens, writes, reads⟩ := Rule.spells_ident isIdentifier
      exact ⟨tokens, writes, fun last others loops _ =>
        ⟨_, _, reads last others loops trivial, _, _, .inr ⟨rfl, rfl⟩, rfl, rfl⟩⟩
  | cons first others =>
      have notEmpty := List.cons_ne_nil first others
      obtain ⟨shape, fit⟩ := fits.resolve_left notEmpty
      obtain ⟨tokens, closed, reads⟩ := Rule.closed_arguments notEmpty shape fun notWrite =>
        Expr.rereadAll (first :: others) (fit notWrite)
      rw [← Expr.renderAll_eq] at closed
      have detaches : Detaches "(" := by decide
      have written := (writes_ident isIdentifier).append_closed detaches.append.append closed
      rw [Expr.bareAll_normAll]
      refine ⟨_, by simpa [renderCall, Expr.renderAll, String.append_assoc] using written.writes, ?_⟩
      intro last behind loops _
      exact ⟨_, _, Rule.ident_cons, _, _, .inl (reads last behind loops), rfl, rfl⟩

theorem rereads_call {callee : String} {arguments : List Expr} {position : Position}
    (isIdentifier : IsIdentifier callee) (fits : arguments = [] ∨ ArgumentsFit callee arguments) :
    (Statement.call callee arguments position).Rereads loop next := by
  refine rereads_simple rfl rfl fun depth => ?_
  rw [render]
  exact (spells_call isIdentifier fits).le fun _ _ _ read => .inr (.inl read)

theorem rereads_leave {id : LoopId} {position : Position} (isLoop : loop = some id) :
    (Statement.leave id position).Rereads loop next := by
  subst isLoop
  refine rereads_simple rfl rfl fun depth => ?_
  rw [render]
  refine ⟨[.sign .breakWord], ⟨[], _, .scan (.word .nowhere "break"), rfl, .word, rfl⟩, ?_⟩
  exact fun last others loops _ => .inr (.inr ⟨_, _, Rule.sign_cons, rfl, rfl⟩)

/-! ### Statements -/

mutual

/-- Every statement that can be written is read again from its text. -/
theorem rereads : (statement : Statement) → (loop : Option LoopId) → (next : Nat) →
    statement.IsAction loop next → statement.Rereads loop next
  | .call _ _ _, _, _, ⟨isIdentifier, fits⟩ => rereads_call isIdentifier fits
  | .assign _, _, _, ⟨isPlace, fits, fits'⟩ => rereads_assign isPlace fits fits'
  | .block statements, loop, next, areActions =>
      rereads_block (rereadAll statements loop next areActions)
  | .ifThen _ holds _, loop, next, ⟨fits, isAction⟩ =>
      rereads_ifThen fits (rereads holds loop next isAction)
  | .ifThenElse _ holds fails _, loop, next, ⟨fits, isAction, isAction'⟩ =>
      rereads_ifThenElse fits (rereads holds loop next isAction)
        (rereads fails loop (next + holds.loops) isAction')
  | .whileLoop id _ body _, _, next, ⟨isId, fits, isAction⟩ => by
      subst isId
      exact rereads_whileLoop fits (rereads body (some ⟨next⟩) (next + 1) isAction)
  | .forLoop id _ _ _ body _, _, next, ⟨isId, ⟨counter, _, isCounter, isIdentifier⟩, fits, fits', isAction⟩ => by
      subst isId
      exact rereads_forLoop isCounter isIdentifier fits fits'
        (rereads body (some ⟨next⟩) (next + 1) isAction)
  | .leave _ _, _, _, isLoop => rereads_leave isLoop
  | .program _, _, _, isAction | .vars _, _, _, isAction | .constant _ _ _, _, _, isAction
  | .forward _, _, _, isAction | .callable _ _, _, _, isAction => isAction.elim

theorem rereadAll : (statements : List Statement) → (loop : Option LoopId) → (next : Nat) →
    AreActions loop next statements → RereadAll loop next statements
  | [], _, _, _ => rereadAll_nil
  | first :: others, loop, next, ⟨isAction, areActions⟩ =>
      rereadAll_cons (rereads first loop next isAction)
        (rereadAll others loop (next + first.loops) areActions)

end

end Statement

end MiniPascal
