import MiniPascal.Proofs.Acceptance.Expressions
import MiniPascal.Proofs.Grammar.Programs

/-!
# The parser of statements reads the grammar of statements

An `else` is always taken by the `if` that the parser has in hand, which is the nearest one.
-/

namespace MiniPascal

namespace Parse

def noElse : TokenKind → Prop := (· ≠ .elseWord)

theorem reads_expression (size : Nat) : Reads 1 size anyKind (expression size) Rule.expression :=
  reads_nested size .arithmetic

theorem reads_condition (size : Nat) : Reads 1 size anyKind (condition size) Rule.condition :=
  reads_nested size .condition

theorem reads_call_arguments (size : Nat) (callee : String) : Reads 1 size anyKind
    (arguments size (nested size) callee) (Rule.arguments Rule.nested callee) := by
  cases size with
  | zero => exact reads_zero
  | succ size =>
      exact reads_arguments
        (fun grammar => (reads_nested (size + 1) grammar).weaken.atSize (Nat.le_succ size))
        Rule.begins_nested callee

theorem reads_index (size : Nat) (array : Token) : Reads 1 size (· = .leftBracket)
    (element (nested size) array) (Rule.element Rule.nested array.text) :=
  (reads_element (fun grammar => (reads_nested size grammar).weaken) array).atSize
    (Nat.le_succ size)

theorem reads_separator {size : Nat} : Reads 0 size anyKind separator Rule.separator := by
  have semicolon : Reads 0 size anyKind (do let _ ← expect .semicolon) (do
      let _ ← Rule.token .semicolon
      return ()) :=
    (reads_expect .semicolon (by decide)).weaken.bind fun _ => reads_pure rfl
  have begins : Rule.Begins (· = .semicolon) (do
      let _ ← Rule.token .semicolon
      return () : Rule Unit) := (Rule.begins_token .semicolon).bind _
  refine reads_kind fun front _ => ?_
  by_cases isEnd : front = .endWord ∨ front = .elseWord
  · refine Reads.left ?_ begins fun _ isKind => ?_
    · have stays : Reads 0 size (· = front) (pure ())
          (Rule.ahead fun kind => kind = .endWord ∨ kind = .elseWord) := by
        have nothing : Reads 0 size (· = front) (pure ()) (pure ()) := reads_pure rfl
        simpa only [bind_pure_unit] using nothing.ahead fun _ isKind => isKind ▸ isEnd
      rcases isEnd with rfl | rfl <;> exact stays
    · rcases isEnd with rfl | rfl <;> simp [isKind]
  · refine Reads.right ?_ Rule.begins_ahead fun _ isKind isOther => isEnd (isKind ▸ isOther)
    split
    · simp at isEnd
    · simp at isEnd
    · exact semicolon.ofAny

theorem reads_assignTo (size : Nat) (target : Expr) : Reads 1 size anyKind
    (assignTo size target) (Rule.assignTo target.bare) :=
  (reads_expect .assign (by decide)).bind fun _ => (reads_expression size).weaken.bind fun _ =>
    reads_pure rfl

theorem reads_freshLoop {size : Nat} : Reads 0 size anyKind freshLoop Rule.freshLoop where
  exact parser _ _ id rest := by
    constructor
    · rintro ⟨_, _, isOk, rfl, rfl⟩
      cases isOk
      exact ⟨rfl, rfl⟩
    · rintro ⟨rfl, rfl⟩
      exact ⟨_, _, rfl, rfl, rfl⟩
  shorter parser _ _ id parser' isOk := by
    cases isOk
    exact Nat.le_refl _

theorem reads_direction {size : Nat} : Reads 1 size anyKind direction Rule.direction := by
  refine reads_kind fun front _ => ?_
  have upward : Rule.Begins (· = .toWord) (do
      let _ ← Rule.token .toWord
      return Direction.upward) :=
    (Rule.begins_token .toWord).bind _
  have downward : Rule.Begins (· = .downtoWord) (do
      let _ ← Rule.token .downtoWord
      return Direction.downward) :=
    (Rule.begins_token .downtoWord).bind _
  cases front with
  | toWord =>
      exact Reads.left ((reads_advance .toWord (by decide)).bind fun _ => reads_pure rfl) downward
        fun _ isKind => by simp [isKind]
  | downtoWord =>
      exact Reads.right ((reads_advance .downtoWord (by decide)).bind fun _ => reads_pure rfl) upward
        fun _ isKind => by simp [isKind]
  | _ =>
      refine reads_never unexpected_ne_ok fun input a rest isKind reads => ?_
      rcases reads with reads | reads
      · simpa [isKind] using upward _ _ _ reads
      · simpa [isKind] using downward _ _ _ reads

/-! ### Simple statements -/

theorem begins_separator :
    Rule.Begins (fun kind => kind = .semicolon ∨ kind = .endWord ∨ kind = .elseWord)
      Rule.separator :=
  (Rule.begins_ahead.mono fun _ => .inr).orElse
    (((Rule.begins_token .semicolon).bind _).mono fun _ => .inl)

theorem reads_named (size : Nat) : Reads 1 size (· = .ident) (do
    let statement ← identStatement size
    separator
    return statement) (do
      let name ← Rule.ident
      Rule.namedBehind name) := by
  have split : (do let name ← Rule.ident; Rule.namedBehind name) =
      Rule.token .ident >>= fun token => Rule.namedBehind token.text := by
    simp only [Rule.ident, bind_assoc, pure_bind]
  rw [split]
  simp only [identStatement, bind_assoc]
  refine (reads_advance .ident (by decide)).bind fun name => reads_kind fun front _ => ?_
  have element : Rule.Begins (· = .leftBracket) (do
      let target ← Rule.element Rule.nested name.text
      let assignment ← Rule.assignTo target
      Rule.separator
      return Statement.assign assignment) := (Rule.begins_element Rule.nested name.text).bind _
  have variable_ : Rule.Begins (· = .assign) (do
      let assignment ← Rule.assignTo (.ident name.text .nowhere)
      Rule.separator
      return Statement.assign assignment) := Rule.Begins.bind ((Rule.begins_token .assign).bind _) _
  have call : Rule.Begins (· = .leftParen) (do
      let arguments ← Rule.arguments Rule.nested name.text
      Rule.separator
      return Statement.call name.text arguments .nowhere) :=
    (Rule.begins_arguments Rule.nested name.text).bind _
  have bare : Rule.Begins (fun kind => kind = .semicolon ∨ kind = .endWord ∨ kind = .elseWord) (do
      Rule.separator
      return Statement.call name.text [] .nowhere) := begins_separator.bind _
  have assigns := element.union variable_
  have calls := call.union bare
  have ends {size : Nat} {statement statement' : Statement} (same : statement.bare = statement') :
      Reads 0 size anyKind (do separator; return statement) (do
        Rule.separator
        return statement') :=
    reads_separator.bind fun _ => reads_pure same
  cases front with
  | assign =>
      refine ((Reads.right ?_ element ?_).left calls ?_)
      · simp only [bind_assoc, pure_bind]
        exact ((reads_assignTo size (.ident name.text name.position)).weaken.ofAny.bind fun _ =>
          ends rfl)
      all_goals simp
  | leftBracket =>
      refine ((Reads.left ?_ variable_ ?_).left calls ?_)
      · simp only [bind_assoc, pure_bind]
        exact (reads_index size name).weaken.bind fun target =>
          (reads_assignTo size target).weaken.bind fun _ => ends rfl
      all_goals simp
  | leftParen =>
      refine ((Reads.left ?_ bare ?_).right assigns ?_)
      · simp only [bind_assoc, pure_bind]
        exact (reads_call_arguments size name.text).weaken.ofAny.bind fun arguments =>
          ends (congrArg (Statement.call name.text · .nowhere) (Expr.bareAll_eq arguments))
      all_goals simp
  | semicolon | endWord | elseWord =>
      refine ((Reads.right (ends rfl).ofAny call ?_).right assigns ?_)
      all_goals simp
  | _ =>
      refine reads_never (fun parser a parser' => throw_eq_ok) fun _ _ _ isKind reads => ?_
      rcases reads with reads | reads
      · simpa [isKind] using assigns _ _ _ reads
      · simpa [isKind] using calls _ _ _ reads

theorem reads_break {size : Nat} (loop : Option LoopId) : Reads 1 size (· = .breakWord) (do
    let statement ← breakStatement loop
    separator
    return statement) (do
      let statement ← Rule.breakLoop loop
      Rule.separator
      return statement) := by
  simp only [breakStatement, bind_assoc]
  cases loop with
  | some loop =>
      simp only [Rule.breakLoop, bind_assoc, pure_bind]
      exact (reads_advance .breakWord (by decide)).bind fun _ => reads_separator.bind fun _ =>
        reads_pure rfl
  | none =>
      refine reads_never (fun parser a parser' isOk => ?_) fun _ _ _ _ reads => ?_
      · obtain ⟨_, _, -, isOk⟩ := bind_eq_ok.1 isOk
        cases isOk
      · obtain ⟨_, _, impossible, -⟩ := reads
        exact impossible

/-! ### Statements with others inside -/

section

variable {size : Nat} {inner : Option LoopId → Parse Statement}
  {rule : Option LoopId → Rule Statement}
  (reads : ∀ loop, Reads 1 size anyKind (inner loop) (rule loop))
  (loop : Option LoopId)

include reads

theorem reads_ifStatement : Reads 1 (size + 1) (· = .ifWord)
    (ifStatement (size + 1) (inner loop)) (Rule.ifAction noElse rule loop) := by
  refine (reads_advance .ifWord (by decide)).bindFewer fun _ =>
    ((reads_condition (size + 1)).weaken.atSize (Nat.le_succ size)).bind fun condition =>
      (reads_expect .thenWord (by decide)).weaken.bind fun _ => (reads loop).weaken.bind fun holds =>
        reads_kind fun front _ => ?_
  have stays : Rule.Begins noElse (do
      Rule.ahead noElse
      return Statement.ifThen condition.bare holds.bare .nowhere) := Rule.begins_ahead.bind _
  by_cases isElse : front = .elseWord
  · subst isElse
    rw [if_pos rfl]
    refine Reads.left ?_ stays fun _ isKind isOther => isOther isKind
    exact (reads_advance .elseWord (by decide)).weaken.bind fun _ => (reads loop).weaken.bind fun fails =>
      reads_pure rfl
  · rw [if_neg isElse]
    refine Reads.right ?_ ((Rule.begins_token .elseWord).bind _) fun _ isKind isOther =>
      isElse (isKind.symm.trans isOther)
    exact (reads_pure rfl).ahead fun _ isKind => isKind ▸ isElse

theorem reads_whileStatement : Reads 1 (size + 1) (· = .whileWord)
    (whileStatement (size + 1) fun id => inner (some id)) (Rule.whileAction rule) :=
  (reads_advance .whileWord (by decide)).bindFewer fun _ =>
    ((reads_condition (size + 1)).weaken.atSize (Nat.le_succ size)).bind fun condition =>
      (reads_expect .doWord (by decide)).weaken.bind fun _ => reads_freshLoop.bind fun id =>
        (reads (some id)).weaken.bind fun body => reads_pure rfl

theorem reads_forStatement : Reads 1 (size + 1) (· = .forWord)
    (forStatement (size + 1) fun id => inner (some id)) (Rule.forAction rule) := by
  have expression := (reads_expression (size + 1)).weaken.atSize (Nat.le_succ size)
  simp only [Rule.forAction, Rule.ident, bind_assoc, pure_bind]
  exact (reads_advance .forWord (by decide)).bindFewer fun _ =>
    (reads_expect .ident (by decide)).weaken.bind fun counter =>
      ((reads_assignTo (size + 1) _).weaken.atSize (Nat.le_succ size)).bind fun initial =>
        reads_direction.weaken.bind fun direction => expression.bind fun limit =>
          (reads_expect .doWord (by decide)).weaken.bind fun _ => reads_freshLoop.bind fun id =>
            (reads (some id)).weaken.bind fun body => reads_pure rfl

theorem reads_blockStatement (begins : Rule.Begins Rule.BeginsStatement (rule loop)) :
    Reads 1 (size + 1) (· = .beginWord)
      (blockStatement (size + 1) (inner loop)) (Rule.blockAction rule loop) := by
  have others : Rule.Begins (fun kind => ¬ kind = .endWord) (rule loop) :=
    begins.mono fun _ begins isEnd => by simp [isEnd, Rule.BeginsStatement] at begins
  refine (reads_expect .beginWord (by decide)).bindFewer fun _ => Reads.bindLoop
    (reads_many others ?_ ?_ (Nat.le_succ size)) (fun statements => ?_) ?_
  · rintro _ rfl
    exact reads_pure rfl
  · intro front notEnd
    split
    · exact absurd rfl notEnd
    · refine reads_never unexpected_ne_ok fun _ _ _ isKind reads => ?_
      obtain ⟨_, _, read, -⟩ := reads
      simpa [isKind, Rule.BeginsStatement] using begins _ _ _ read
    · exact ((reads loop).map some some fun _ => rfl).ofAny
  · exact (reads_advance .endWord (by decide)).weaken.bind fun _ => reads_separator.bind fun _ =>
      reads_pure (congrArg Statement.block (Statement.bareAll_eq statements))
  · exact fun _ => (Rule.begins_token .endWord).bind _

def statementAt (fuel : Nat) (inner : Option LoopId → Parse Statement) (loop : Option LoopId) :
    TokenKind → Option (Parse Statement)
  | .ifWord => some (ifStatement fuel (inner loop))
  | .whileWord => some (whileStatement fuel fun id => inner (some id))
  | .forWord => some (forStatement fuel fun id => inner (some id))
  | .beginWord => some (blockStatement fuel (inner loop))
  | .ident => some do
      let statement ← identStatement fuel
      separator
      return statement
  | .breakWord => some do
      let statement ← breakStatement loop
      separator
      return statement
  | _ => none

def decided (at? : TokenKind → Option (Parse Statement)) (front : TokenKind) :
    Parse (Option Statement) :=
  (at? front).elim (pure none) fun step => some <$> step

omit reads in
theorem statementWith_eq (fuel : Nat) : statementWith fuel inner loop =
    Parse.kind >>= decided (statementAt fuel inner loop) := by
  unfold statementWith decided
  refine congrArg (Parse.kind >>= ·) (funext fun front => ?_)
  cases front <;>
    simp only [statementAt, Option.elim_some, Option.elim_none, map_eq_pure_bind, bind_assoc,
      pure_bind]

omit reads in
theorem statementAt_eq_none {fuel : Nat} {front : TokenKind} :
    statementAt fuel inner loop front = none ↔ ¬ Rule.BeginsStatement front := by
  cases front <;> simp [statementAt, Rule.BeginsStatement]

theorem reads_statementAt (begins : Rule.Begins Rule.BeginsStatement (rule loop))
    {front : TokenKind} {step : Parse Statement}
    (isStep : statementAt (size + 1) inner loop front = some step) :
    Reads 1 (size + 1) (· = front) step (Rule.action noElse rule loop) := by
  have isIf : Rule.Begins (· = .ifWord) (Rule.ifAction noElse rule loop) :=
    (Rule.begins_token .ifWord).bind _
  have isWhile : Rule.Begins (· = .whileWord) (Rule.whileAction rule) :=
    (Rule.begins_token .whileWord).bind _
  have isFor : Rule.Begins (· = .forWord) (Rule.forAction rule) :=
    (Rule.begins_token .forWord).bind _
  have isBlock : Rule.Begins (· = .beginWord) (Rule.blockAction rule loop) :=
    (Rule.begins_token .beginWord).bind _
  have isSimple := Rule.begins_simple loop
  have fromBlock := isBlock.union isSimple
  have fromFor := isFor.union fromBlock
  have fromWhile := isWhile.union fromFor
  cases front with
  | ifWord =>
      cases isStep
      exact (reads_ifStatement reads loop).left fromWhile fun _ isKind => by simp [isKind]
  | whileWord =>
      cases isStep
      refine Reads.right ((reads_whileStatement reads).left fromFor ?_) isIf ?_ <;> simp
  | forWord =>
      cases isStep
      refine Reads.right (Reads.right ((reads_forStatement reads).left fromBlock ?_) isWhile ?_) isIf ?_
        <;> simp
  | beginWord =>
      cases isStep
      refine Reads.right (Reads.right (Reads.right
        ((reads_blockStatement reads loop begins).left isSimple ?_) isFor ?_) isWhile ?_) isIf ?_
        <;> simp
  | ident =>
      cases isStep
      refine Reads.right (Reads.right (Reads.right (Reads.right ?_ isBlock ?_) isFor ?_)
        isWhile ?_) isIf ?_
      · rw [Rule.simple_eq]
        exact (reads_named (size + 1)).left ((Rule.begins_breakLoop loop).bind _) fun _ isKind => by
          simp [isKind]
      all_goals simp
  | breakWord =>
      cases isStep
      refine Reads.right (Reads.right (Reads.right (Reads.right ?_ isBlock ?_) isFor ?_)
        isWhile ?_) isIf ?_
      · rw [Rule.simple_eq]
        exact (reads_break loop).right (Rule.begins_ident.bind _) fun _ isKind => by simp [isKind]
      all_goals simp
  | _ => cases isStep

end

section

variable {size : Nat} {at? : TokenKind → Option (Parse Statement)} {rule : Rule Statement}
  (begins : Rule.Begins Rule.BeginsStatement rule)
  (isNone : ∀ front, at? front = none ↔ ¬ Rule.BeginsStatement front)
  (reads : ∀ front step, at? front = some step → Reads 1 size (· = front) step rule)

include begins isNone reads

theorem reads_required : Reads 1 size anyKind (required (Parse.kind >>= decided at?)) rule := by
  unfold required decided
  simp only [bind_assoc]
  refine reads_kind fun front _ => ?_
  cases isStep : at? front with
  | none =>
      refine reads_never cannotExpand_ne_ok fun _ _ _ isKind read => ?_
      exact (isNone front).1 isStep (isKind ▸ begins _ _ _ read)
  | some step =>
      simpa only [Option.elim_some, map_eq_pure_bind, bind_assoc, pure_bind, bind_pure] using
        reads front step isStep

theorem reads_statements {fuel : Nat} (le : size ≤ fuel) :
    Reads 0 size anyKind (many fuel (Parse.kind >>= decided at?)) (do
      let statements ← Rule.star rule
      Rule.ahead fun kind => ¬ Rule.BeginsStatement kind
      return statements) := by
  refine reads_many (begins.mono fun _ => not_not_intro) (fun front stops => ?_)
    (fun front goesOn => ?_) le
  · rw [decided, (isNone front).2 stops]
    exact reads_pure rfl
  · obtain ⟨step, isStep⟩ := Option.ne_none_iff_exists'.1 fun none => goesOn ((isNone front).1 none)
    rw [decided, isStep]
    simpa only [Option.elim_some, map_eq_pure_bind] using
      (reads front step isStep).map some some fun _ => rfl

end

theorem reads_statement (size : Nat) (loop : Option LoopId) :
    Reads 1 size anyKind (required (statement? size loop)) (Rule.statement noElse loop) := by
  induction size generalizing loop with
  | zero => exact reads_zero
  | succ size ih =>
      rw [Rule.statement_eq, statement?, statementWith_eq]
      exact reads_required (Rule.begins_action _ _ _) (fun front => statementAt_eq_none loop)
        fun front step => reads_statementAt ih loop (Rule.begins_statement _ _)

end Parse

end MiniPascal
