import MiniPascal.Proofs.Parser.Passing

/-!
# Rules pass tokens

Every rule of the grammar moves on: it passes a token or, if it may find nothing, ends where it began.
The rules that contain others inside of them are shown for any such others that move on from behind a
token, `Parse.Inner`.  That is where they are called, so that a fuel one smaller is enough for them.
-/

namespace MiniPascal

namespace Parse

variable {α β : Type} {start : Parser} {passed fuel fuel' : Nat} {kinds : TokenKind → Prop}

def Inner (start : Parser) (passed : Nat) (inner inner' : β → Parse α) : Prop :=
  ∀ b count, passed < count → Advances start count anyKind (fun _ => count + 1) (inner b) (inner' b)

theorem Inner.mono {inner inner' : β → Parse α} (isInner : Inner start passed inner inner')
    {more : Nat} (le : passed ≤ more) : Inner start more inner inner' :=
  fun b count lt => isInner b count (Nat.lt_of_le_of_lt le lt)

/-! ### Expressions -/

theorem advances_operation? {operator? : TokenKind → Option BinaryOp} {operand operand' : Parse Expr}
    (begins : operator? .endOfInput = none)
    (isOperand : ∀ count, passed < count →
      Advances start count anyKind (fun _ => count + 1) operand operand') :
    Advances start passed kinds (behind passed) (operation? operator? operand)
      (operation? operator? operand') := by
  refine advances_kind fun kind _ => ?_
  split
  · exact advances_pure (Nat.le_refl _)
  · rename_i op isOp
    have notEnd : kind ≠ .endOfInput := by
      rintro rfl
      rw [begins] at isOp
      cases isOp
    refine (advances_advance notEnd).bind fun token => ?_
    refine (isOperand (passed + 1) (Nat.lt_succ_self _)).bind fun right => ?_
    exact advances_pure (Nat.le_succ _)

theorem advances_operations {operator? : TokenKind → Option BinaryOp}
    {first first' operand operand' : Parse Expr} (enough : start.ahead < fuel + passed)
    (enough' : start.ahead < fuel' + passed) (begins : operator? .endOfInput = none)
    (isFirst : Advances start passed kinds (fun _ => passed + 1) first first')
    (isOperand : ∀ count, passed < count →
      Advances start count anyKind (fun _ => count + 1) operand operand') :
    Advances start passed kinds (fun _ => passed + 1) (operations fuel operator? first operand)
      (operations fuel' operator? first' operand') := by
  refine isFirst.bind fun left => ?_
  have round (count : Nat) (le : passed + 1 ≤ count) :=
    @advances_operation? start count anyKind operator? operand operand' begins
      fun more lt => isOperand more (Nat.lt_trans le lt)
  refine (advances_many (by omega) (by omega) round).bind fun others => ?_
  exact advances_pure (Nat.le_refl _)

section

variable {nested nested' : Grammar → Parse Expr} (isNested : Inner start passed nested nested')
include isNested

theorem advances_element {kind : TokenKind} (notEnd : kind ≠ .endOfInput) (array : Token) :
    Advances start passed (· = kind) (fun _ => passed + 1) (element nested array)
      (element nested' array) := by
  refine (advances_advance notEnd).bind fun _ => ?_
  refine (isNested .arithmetic (passed + 1) (Nat.lt_succ_self _)).bind fun index => ?_
  refine (advances_expect (by simp)).bind fun _ => ?_
  exact advances_pure (by omega)

theorem advances_assignable :
    Advances start passed kinds (fun _ => passed + 1) (assignable nested) (assignable nested') := by
  refine (advances_expect (by simp)).bind fun token => ?_
  refine advances_kind fun kind _ => ?_
  split
  · rename_i isBracket
    have further := advances_element (isNested.mono (Nat.le_succ passed))
      (show kind ≠ .endOfInput by simp [isBracket]) token
    exact further.weaken fun _ => Nat.le_succ _
  · exact advances_pure (Nat.le_refl _)

omit isNested in
theorem advances_literal : Advances start passed kinds (fun _ => passed + 1) literal literal := by
  refine advances_kind fun kind _ => ?_
  split
  · exact advances_unexpected_bind .apostrophe
  · refine advances_position fun position => ?_
    refine advances_rawText.bind fun text => ?_
    refine advances_advance_any.bind fun _ => ?_
    -- the closing quote is a token in any case
    refine (advances_expect (by simp)).bind fun _ => ?_
    exact advances_pure (Nat.le_refl _)

theorem advances_argument
    (isHere : Advances start passed anyKind (fun _ => passed + 1) (nested .arithmetic)
      (nested' .arithmetic)) (callee : String) :
    Advances start passed kinds (fun _ => passed + 1) (argument nested callee)
      (argument nested' callee) := by
  unfold argument
  split
  · exact advances_assignable isNested
  · exact advances_assignable isNested
  · exact isHere.ofAny

end

/-! ### Arguments and factors -/

def nextArgument? (item : Parse Expr) : Parse (Option Expr) := do
  if (← kind) = .rightParen then return none
  let _ ← expect .comma
  return some (← item)

theorem argumentList_eq (item : Parse Expr) : argumentList fuel item = (do
    if (← kind) = .rightParen then return []
    let first ← item
    return first :: (← many fuel (nextArgument? item))) :=
  rfl

theorem advances_nextArgument? {item item' : Parse Expr}
    (isItem : Advances start (passed + 1) anyKind (fun _ => passed + 1 + 1) item item') :
    Advances start passed kinds (behind passed) (nextArgument? item) (nextArgument? item') := by
  refine advances_kind fun kind _ => ?_
  split
  · exact advances_pure (Nat.le_refl _)
  · refine (advances_expect (by simp)).bind fun _ => ?_
    refine isItem.bind fun argument => ?_
    exact advances_pure (Nat.le_succ _)

theorem advances_argumentList {item item' : Parse Expr} (enough : start.ahead < fuel + passed)
    (enough' : start.ahead < fuel' + passed)
    (isItem : ∀ count, passed ≤ count →
      Advances start count anyKind (fun _ => count + 1) item item') :
    Advances start passed kinds (fun _ => passed) (argumentList fuel item)
      (argumentList fuel' item') := by
  rw [argumentList_eq, argumentList_eq]
  refine advances_kind fun kind _ => ?_
  split
  · exact advances_pure (Nat.le_refl _)
  · refine (isItem passed (Nat.le_refl _)).ofAny.bind fun first => ?_
    refine (advances_many (by omega) (by omega) fun count le =>
      advances_nextArgument? (isItem (count + 1) (by omega))).bind fun others => ?_
    exact advances_pure (Nat.le_succ _)

section

variable {nested nested' : Grammar → Parse Expr} (isNested : Inner start passed nested nested')
  (enough : start.ahead < fuel + passed) (enough' : start.ahead < fuel' + passed)
include isNested enough enough'

theorem advances_arguments (callee : String) :
    Advances start passed kinds (fun _ => passed + 1) (arguments fuel nested callee)
      (arguments fuel' nested' callee) := by
  refine (advances_expect (by simp)).bind fun _ => ?_
  have close (count : Nat) (le : passed ≤ count) (found : List Expr) :
      Advances start count anyKind (fun _ => passed + 1)
        (do
          let _ ← expect .rightParen
          return found)
        (do
          let _ ← expect .rightParen
          return found) :=
    (advances_expect (by simp)).bind fun _ => advances_pure (by omega)
  split
  · exact advances_literal.bind fun only => close _ (by omega) [only]
  · refine Advances.bind ?_ (close (passed + 1) (Nat.le_succ _))
    refine advances_argumentList (by omega) (by omega) fun count le => ?_
    exact advances_argument (isNested.mono (Nat.le_of_lt le)) (isNested .arithmetic count le) callee

theorem advances_factor (grammar : Grammar) :
    Advances start passed kinds (fun _ => passed + 1) (factor fuel nested grammar)
      (factor fuel' nested' grammar) := by
  refine advances_kind fun kind _ => ?_
  have further := isNested.mono (Nat.le_succ passed)
  cases kind with
  | ident =>
      refine (advances_advance (by simp)).bind fun token => ?_
      refine advances_kind fun kind _ => ?_
      cases kind with
      | leftBracket =>
          refine Advances.weaken ?_ fun _ => Nat.le_succ (passed + 1)
          exact advances_element further (by simp) token
      | leftParen =>
          refine (advances_arguments further (by omega) (by omega) token.text).bind fun _ => ?_
          exact advances_pure (Nat.le_succ _)
      | _ => exact advances_pure (Nat.le_refl _)
  | number =>
      refine (advances_advance (by simp)).bind fun token => ?_
      exact advances_pure (Nat.le_refl _)
  | leftParen =>
      refine (advances_advance (by simp)).bind fun _ => ?_
      refine (isNested grammar (passed + 1) (Nat.lt_succ_self _)).bind fun inner => ?_
      refine (advances_expect (by simp)).bind fun _ => ?_
      exact advances_pure (by omega)
  | _ => exact advances_cannotExpand .factor

end

section

variable {nested nested' : Grammar → Parse Expr} (isNested : Inner start passed nested nested')
  (enough : start.ahead < fuel + passed) (enough' : start.ahead < fuel' + passed)
include isNested enough enough'

theorem advances_term (grammar : Grammar) :
    Advances start passed kinds (fun _ => passed + 1) (term fuel nested grammar)
      (term fuel' nested' grammar) := by
  refine advances_operations enough enough' rfl (advances_factor isNested enough enough' grammar) ?_
  intro count lt
  exact advances_factor (isNested.mono (Nat.le_of_lt lt)) (by omega) (by omega) grammar

theorem advances_signedTerm (grammar : Grammar) :
    Advances start passed kinds (fun _ => passed + 1) (signedTerm fuel nested grammar)
      (signedTerm fuel' nested' grammar) := by
  refine advances_kind fun kind _ => ?_
  split
  · rename_i isMinus
    refine (advances_advance (by simp [isMinus])).bind fun token => ?_
    refine (advances_term (isNested.mono (Nat.le_succ _)) (by omega) (by omega) grammar).bind ?_
    exact fun operand => advances_pure (Nat.le_succ _)
  · exact advances_term isNested enough enough' grammar

theorem advances_sum (grammar : Grammar) :
    Advances start passed kinds (fun _ => passed + 1) (sum fuel nested grammar)
      (sum fuel' nested' grammar) := by
  refine advances_operations enough enough' rfl (advances_signedTerm isNested enough enough' grammar) ?_
  intro count lt
  exact advances_term (isNested.mono (Nat.le_of_lt lt)) (by omega) (by omega) grammar

theorem advances_comparison :
    Advances start passed kinds (fun _ => passed + 1) (comparison fuel nested)
      (comparison fuel' nested') := by
  refine (advances_sum isNested enough enough' .condition).bind fun left => ?_
  refine (advances_operation? rfl fun count lt => advances_sum
    (isNested.mono (by omega)) (by omega) (by omega) .condition).bind fun found => ?_
  cases found with
  | none => exact advances_pure (Nat.le_refl _)
  | some operation => exact advances_pure (Nat.le_succ _)

def negationOf (fuel : Nat) (nested : Grammar → Parse Expr) (operand : Unit → Parse Expr) :
    Parse Expr := do
  if (← kind) = .notWord then
    let token ← advance
    return .not (← operand ()) token.position
  else comparison fuel nested

omit isNested enough enough' in
theorem negation_succ (depth : Nat) :
    negation fuel nested (depth + 1) = negationOf fuel nested fun _ => negation fuel nested depth :=
  rfl

theorem advances_negationOf {operand operand' : Unit → Parse Expr}
    (isOperand : Inner start passed operand operand') :
    Advances start passed kinds (fun _ => passed + 1) (negationOf fuel nested operand)
      (negationOf fuel' nested' operand') := by
  refine advances_kind fun kind _ => ?_
  split
  · rename_i isNot
    refine (advances_advance (by simp [isNot])).bind fun token => ?_
    refine (isOperand () (passed + 1) (Nat.lt_succ_self _)).bind fun operand => ?_
    exact advances_pure (Nat.le_succ _)
  · exact advances_comparison isNested enough enough'

theorem advances_negation {depth depth' : Nat} (deep : start.ahead < depth + passed)
    (deep' : start.ahead < depth' + passed) :
    Advances start passed kinds (fun _ => passed + 1) (negation fuel nested depth)
      (negation fuel' nested' depth') := by
  induction depth generalizing passed depth' kinds with
  | zero => exact advances_of_ahead_lt (by omega)
  | succ depth ih =>
      cases depth' with
      | zero => exact advances_of_ahead_lt (by omega)
      | succ depth' =>
          rw [negation_succ, negation_succ]
          refine advances_negationOf isNested enough enough' fun _ count lt => ?_
          exact ih (isNested.mono (Nat.le_of_lt lt)) (by omega) (by omega) (by omega) (by omega)

theorem advances_conjunction :
    Advances start passed kinds (fun _ => passed + 1) (conjunction fuel nested)
      (conjunction fuel' nested') := by
  refine advances_operations enough enough' rfl
    (advances_negation isNested enough enough' enough enough') ?_
  intro count lt
  exact advances_negation (isNested.mono (Nat.le_of_lt lt)) (by omega) (by omega) (by omega) (by omega)

theorem advances_disjunction :
    Advances start passed kinds (fun _ => passed + 1) (disjunction fuel nested)
      (disjunction fuel' nested') := by
  refine advances_operations enough enough' rfl (advances_conjunction isNested enough enough') ?_
  intro count lt
  exact advances_conjunction (isNested.mono (Nat.le_of_lt lt)) (by omega) (by omega)

end

theorem advances_nested (enough : start.ahead < fuel + passed) (enough' : start.ahead < fuel' + passed)
    (grammar : Grammar) :
    Advances start passed kinds (fun _ => passed + 1) (nested fuel grammar) (nested fuel' grammar) := by
  induction fuel generalizing passed fuel' kinds grammar with
  | zero => exact advances_of_ahead_lt (by omega)
  | succ fuel ih =>
      cases fuel' with
      | zero => exact advances_of_ahead_lt (by omega)
      | succ fuel' =>
          have isNested : Inner start passed (nested fuel) (nested fuel') :=
            fun grammar count lt => ih (by omega) (by omega) grammar
          cases grammar with
          | arithmetic => exact advances_sum isNested enough enough' .arithmetic
          | condition => exact advances_disjunction isNested enough enough'

theorem inner_nested (enough : start.ahead ≤ fuel + passed) (enough' : start.ahead ≤ fuel' + passed) :
    Inner start passed (nested fuel) (nested fuel') :=
  fun grammar _ lt => advances_nested (by omega) (by omega) grammar

/-! ### Statements -/

section

variable (enough : start.ahead ≤ fuel + passed) (enough' : start.ahead ≤ fuel' + passed)
include enough enough'

theorem advances_assignTo (target : Expr) :
    Advances start passed kinds (fun _ => passed + 1) (assignTo fuel target)
      (assignTo fuel' target) := by
  refine (advances_expect (by simp)).bind fun sign => ?_
  refine (advances_nested (by omega) (by omega) .arithmetic).bind fun value => ?_
  exact advances_pure (Nat.le_succ _)

theorem advances_identStatement :
    Advances start passed (· = .ident) (fun _ => passed + 1) (identStatement fuel)
      (identStatement fuel') := by
  have isNested : Inner start (passed + 1) (nested fuel) (nested fuel') :=
    inner_nested (by omega) (by omega)
  refine (advances_advance (by simp)).bind fun token => ?_
  refine advances_kind fun kind _ => ?_
  cases kind with
  | assign =>
      refine (advances_assignTo (by omega) (by omega) _).bind fun _ => ?_
      exact advances_pure (Nat.le_succ _)
  | leftBracket =>
      refine (advances_element isNested (by simp) token).bind fun target => ?_
      refine (advances_assignTo (by omega) (by omega) target).bind fun _ => ?_
      exact advances_pure (by omega)
  | leftParen =>
      refine (advances_arguments isNested (by omega) (by omega) token.text).bind fun _ => ?_
      exact advances_pure (Nat.le_succ _)
  | semicolon | endWord | elseWord => exact advances_pure (Nat.le_refl _)
  | _ => exact advances_throw (by simp)

end

theorem advances_separator : Advances start passed kinds (fun _ => passed) separator separator := by
  refine advances_kind fun kind _ => ?_
  split
  · exact advances_pure (Nat.le_refl _)
  · exact advances_pure (Nat.le_refl _)
  · exact (advances_expect (by simp)).bind fun _ => advances_pure (Nat.le_succ _)

theorem advances_breakStatement (loop : Option LoopId) :
    Advances start passed (· = .breakWord) (fun _ => passed + 1) (breakStatement loop)
      (breakStatement loop) := by
  refine (advances_advance (by simp)).bind fun token => ?_
  cases loop with
  | some loop => exact advances_pure (Nat.le_refl _)
  | none => exact advances_throw (by simp)

theorem advances_direction :
    Advances start passed kinds (fun _ => passed + 1) direction direction := by
  refine advances_kind fun kind _ => ?_
  split
  · exact (advances_advance (by simp)).bind fun _ => advances_pure (Nat.le_refl _)
  · exact (advances_advance (by simp)).bind fun _ => advances_pure (Nat.le_refl _)
  · exact advances_unexpected .toWord

def nextStatement? (inner : Parse Statement) : Parse (Option Statement) := do
  match ← kind with
  | .endWord => return none
  | .endOfInput => unexpected .endWord
  | _ => return some (← inner)

theorem blockStatement_eq (inner : Parse Statement) : blockStatement fuel inner = (do
    let _ ← expect .beginWord
    let statements ← many fuel (nextStatement? inner)
    let _ ← advance
    separator
    return .block statements) :=
  rfl

theorem advances_nextStatement? {inner inner' : Parse Statement}
    (isInner : Advances start passed anyKind (fun _ => passed + 1) inner inner') :
    Advances start passed kinds (behind passed) (nextStatement? inner) (nextStatement? inner') := by
  have found : Advances start passed anyKind (behind passed) (do return some (← inner))
      (do return some (← inner')) :=
    isInner.bind fun _ => advances_pure (Nat.le_refl _)
  refine advances_kind fun kind _ => ?_
  split
  · exact advances_pure (Nat.le_refl _)
  · exact advances_unexpected .endWord
  · exact found.ofAny

section

variable (enough : start.ahead < fuel + passed) (enough' : start.ahead < fuel' + passed)
include enough enough'

theorem advances_blockStatement {inner inner' : Parse Statement}
    (isInner : ∀ count, passed < count →
      Advances start count anyKind (fun _ => count + 1) inner inner') :
    Advances start passed kinds (fun _ => passed + 1) (blockStatement fuel inner)
      (blockStatement fuel' inner') := by
  rw [blockStatement_eq, blockStatement_eq]
  refine (advances_expect (by simp)).bind fun _ => ?_
  refine (advances_many (by omega) (by omega) fun count le =>
    advances_nextStatement? (isInner count le)).bind fun statements => ?_
  refine advances_advance_any.bind fun _ => ?_
  refine advances_separator.bind fun _ => ?_
  exact advances_pure (Nat.le_refl _)

theorem advances_ifStatement {inner inner' : Parse Statement}
    (isInner : ∀ count, passed < count →
      Advances start count anyKind (fun _ => count + 1) inner inner') :
    Advances start passed (· = .ifWord) (fun _ => passed + 1) (ifStatement fuel inner)
      (ifStatement fuel' inner') := by
  refine (advances_advance (by simp)).bind fun token => ?_
  refine (advances_nested (by omega) (by omega) .condition).bind fun condition => ?_
  refine (advances_expect (by simp)).bind fun _ => ?_
  refine (isInner _ (by omega)).bind fun holds => ?_
  refine advances_kind fun kind _ => ?_
  split
  · rename_i isElse
    refine (advances_advance (by simp [isElse])).bind fun _ => ?_
    refine (isInner _ (by omega)).bind fun fails => ?_
    exact advances_pure (by omega)
  · exact advances_pure (by omega)

theorem advances_whileStatement {inner inner' : LoopId → Parse Statement}
    (isInner : Inner start passed inner inner') :
    Advances start passed (· = .whileWord) (fun _ => passed + 1) (whileStatement fuel inner)
      (whileStatement fuel' inner') := by
  refine (advances_advance (by simp)).bind fun token => ?_
  refine (advances_nested (by omega) (by omega) .condition).bind fun condition => ?_
  refine (advances_expect (by simp)).bind fun _ => ?_
  refine advances_freshLoop.bind fun id => ?_
  refine (isInner id _ (by omega)).bind fun body => ?_
  exact advances_pure (by omega)

theorem advances_forStatement {inner inner' : LoopId → Parse Statement}
    (isInner : Inner start passed inner inner') :
    Advances start passed (· = .forWord) (fun _ => passed + 1) (forStatement fuel inner)
      (forStatement fuel' inner') := by
  refine (advances_advance (by simp)).bind fun token => ?_
  refine (advances_expect (by simp)).bind fun counter => ?_
  refine (advances_assignTo (by omega) (by omega) _).bind fun initial => ?_
  refine advances_direction.bind fun direction => ?_
  refine (advances_nested (by omega) (by omega) .arithmetic).bind fun limit => ?_
  refine (advances_expect (by simp)).bind fun _ => ?_
  refine advances_freshLoop.bind fun id => ?_
  refine (isInner id _ (by omega)).bind fun body => ?_
  exact advances_pure (by omega)

theorem advances_statementWith {inner inner' : Option LoopId → Parse Statement}
    (isInner : Inner start passed inner inner') (loop : Option LoopId) :
    Advances start passed kinds (behind passed) (statementWith fuel inner loop)
      (statementWith fuel' inner' loop) := by
  have found {kind : TokenKind} {rule rule' : Parse Statement}
      (isRule : Advances start passed (· = kind) (fun _ => passed + 1) rule rule') :
      Advances start passed (· = kind) (behind passed) (do return some (← rule))
        (do return some (← rule')) :=
    isRule.bind fun statement => advances_pure (Nat.le_refl _)
  have separated {kind : TokenKind} {rule rule' : Parse Statement}
      (isRule : Advances start passed (· = kind) (fun _ => passed + 1) rule rule') :
      Advances start passed (· = kind) (behind passed) (do
        let statement ← rule
        separator
        return some statement) (do
        let statement ← rule'
        separator
        return some statement) :=
    isRule.bind fun statement => advances_separator.bind fun _ => advances_pure (Nat.le_refl _)
  refine advances_kind fun kind _ => ?_
  cases kind with
  | ifWord => exact found (advances_ifStatement enough enough' (isInner loop))
  | whileWord => exact found (advances_whileStatement enough enough' fun id => isInner (some id))
  | forWord => exact found (advances_forStatement enough enough' fun id => isInner (some id))
  | beginWord => exact found (advances_blockStatement enough enough' (isInner loop))
  | ident => exact separated (advances_identStatement (by omega) (by omega))
  | breakWord => exact separated (advances_breakStatement loop)
  | _ => exact advances_pure (Nat.le_refl _)

end

theorem advances_required {statement? statement?' : Parse (Option Statement)}
    (isStatement : Advances start passed kinds (behind passed) statement? statement?') :
    Advances start passed kinds (fun _ => passed + 1) (required statement?)
      (required statement?') := by
  refine isStatement.bind fun found => ?_
  cases found with
  | some statement => exact advances_pure (Nat.le_refl _)
  | none => exact advances_cannotExpand .statement

theorem advances_statement? (enough : start.ahead < fuel + passed)
    (enough' : start.ahead < fuel' + passed) (loop : Option LoopId) :
    Advances start passed kinds (behind passed) (statement? fuel loop) (statement? fuel' loop) := by
  induction fuel generalizing passed fuel' kinds loop with
  | zero => exact advances_of_ahead_lt (by omega)
  | succ fuel ih =>
      cases fuel' with
      | zero => exact advances_of_ahead_lt (by omega)
      | succ fuel' =>
          refine advances_statementWith enough enough' (fun loop count lt => ?_) loop
          exact advances_required (ih (by omega) (by omega) loop)

/-! ### Declarations -/

theorem advances_ordinaryType :
    Advances start passed kinds (fun _ => passed + 1) ordinaryType ordinaryType := by
  refine advances_current fun token _ => ?_
  split
  · rename_i isInteger
    exact (advances_advance (by simp [isInteger.1])).bind fun _ => advances_pure (Nat.le_refl _)
  · split <;> exact advances_throw (by simp)

def dataTypeOf (fuel : Nat) (element : Unit → Parse DataType) : Parse DataType := do
  let token ← current
  if token.kind = .ident ∧ token.text = "array" then
    let _ ← advance
    let _ ← expect .leftBracket
    let low ← expression fuel
    let _ ← expect .dot
    let _ ← expect .dot
    let high ← expression fuel
    let _ ← expect .rightBracket
    let _ ← expect .ofWord
    let _ ← element ()
    return .array low high
  else ordinaryType

theorem dataType_eq : dataType fuel = dataTypeOf fuel fun _ => ordinaryType := rfl

theorem advances_dataTypeOf (enough : start.ahead < fuel + passed)
    (enough' : start.ahead < fuel' + passed) {element element' : Unit → Parse DataType}
    (isElement : Inner start passed element element') :
    Advances start passed kinds (fun _ => passed + 1) (dataTypeOf fuel element)
      (dataTypeOf fuel' element') := by
  refine advances_current fun token _ => ?_
  split
  · rename_i isArray
    refine (advances_advance (by simp [isArray.1])).bind fun _ => ?_
    refine (advances_expect (by simp)).bind fun _ => ?_
    refine (advances_nested (by omega) (by omega) .arithmetic).bind fun low => ?_
    refine (advances_expect (by simp)).bind fun _ => ?_
    refine (advances_expect (by simp)).bind fun _ => ?_
    refine (advances_nested (by omega) (by omega) .arithmetic).bind fun high => ?_
    refine (advances_expect (by simp)).bind fun _ => ?_
    refine (advances_expect (by simp)).bind fun _ => ?_
    refine (isElement () _ (by omega)).bind fun _ => ?_
    exact advances_pure (by omega)
  · exact advances_ordinaryType

def nextName? : Parse (Option String) := do
  if (← kind) = .comma then
    let _ ← advance
    return some (← name)
  else return none

theorem varGroup_eq (type : Parse DataType) (first : Token) : varGroup fuel type first = (do
    let others ← many fuel nextName?
    let _ ← expect .colon
    return ⟨first.text :: others, ← type, first.position⟩) :=
  rfl

theorem advances_nextName? : Advances start passed kinds (behind passed) nextName? nextName? := by
  refine advances_kind fun kind _ => ?_
  split
  · rename_i isComma
    refine (advances_advance (by simp [isComma])).bind fun _ => ?_
    exact advances_name.bind fun _ => advances_pure (Nat.le_succ _)
  · exact advances_pure (Nat.le_refl _)

section

variable (enough : start.ahead < fuel + passed) (enough' : start.ahead < fuel' + passed)
include enough enough'

theorem advances_dataType :
    Advances start passed kinds (fun _ => passed + 1) (dataType fuel) (dataType fuel') := by
  rw [dataType_eq, dataType_eq]
  exact advances_dataTypeOf enough enough' fun _ _ _ => advances_ordinaryType

theorem advances_varGroup {type type' : Parse DataType}
    (isType : Advances start (passed + 1) anyKind (fun _ => passed + 1 + 1) type type')
    (first : Token) :
    Advances start passed kinds (fun _ => passed + 1) (varGroup fuel type first)
      (varGroup fuel' type' first) := by
  rw [varGroup_eq, varGroup_eq]
  refine (advances_many enough enough' fun _ _ => advances_nextName?).bind fun others => ?_
  refine (advances_expect (by simp)).bind fun _ => ?_
  exact isType.bind fun _ => advances_pure (Nat.le_succ _)

theorem advances_nextVarGroup? :
    Advances start passed kinds (behind passed) (nextVarGroup? fuel) (nextVarGroup? fuel') := by
  have group (token : Token) :
      Advances start (passed + 1 + 1) anyKind (behind passed)
        (do return some (← varGroup fuel (dataType fuel) token))
        (do return some (← varGroup fuel' (dataType fuel') token)) := by
    refine (advances_varGroup (by omega) (by omega)
      (advances_dataType (by omega) (by omega)) token).bind fun _ => ?_
    exact advances_pure (show passed + 1 ≤ _ by omega)
  refine (advances_expect (by simp)).bind fun _ => ?_
  refine advances_kind fun kind _ => ?_
  split
  · exact advances_pure (Nat.le_succ _)
  · rename_i isIdent
    obtain rfl : kind = .ident := Decidable.not_not.1 isIdent
    refine advances_advance_bind fun s token s' passes begins ok => ?_
    have passes' := passes.token (begins ▸ by simp) ok
    refine advancesAt_kind fun found _ => ?_
    -- whether or not the name is handed back, the semicolon in front of it has been passed
    cases found with
    | comma | colon => exact group token s' passes' trivial
    | _ => exact advancesAt_backtrack passes ok (Nat.le_succ _)

theorem advances_varBlock :
    Advances start passed kinds (fun _ => passed + 1) (varBlock fuel) (varBlock fuel') := by
  refine (advances_expect (by simp)).bind fun _ => ?_
  refine (advances_expect (by simp)).bind fun first => ?_
  refine (advances_varGroup (by omega) (by omega)
    (advances_dataType (by omega) (by omega)) first).bind fun group => ?_
  refine (advances_many (by omega) (by omega) fun count le =>
    advances_nextVarGroup? (by omega) (by omega)).bind fun groups => ?_
  exact advances_pure (by omega)

theorem advances_constantItem (token : Token) :
    Advances start passed kinds (fun _ => passed + 1) (constantItem fuel token)
      (constantItem fuel' token) := by
  refine (advances_expect (by simp)).bind fun _ => ?_
  refine (advances_nested (by omega) (by omega) .arithmetic).bind fun value => ?_
  refine (advances_expect (by simp)).bind fun _ => ?_
  exact advances_pure (by omega)

theorem advances_nextConstant? :
    Advances start passed kinds (behind passed) (nextConstant? fuel) (nextConstant? fuel') := by
  refine advances_kind fun kind _ => ?_
  split
  · exact advances_pure (Nat.le_refl _)
  · rename_i isIdent
    obtain rfl : kind = .ident := Decidable.not_not.1 isIdent
    refine advances_advance_bind fun s token s' passes begins ok => ?_
    have passes' := passes.token (begins ▸ by simp) ok
    refine advancesAt_kind fun found _ => ?_
    -- a name handed back leaves no token passed, but then this is the last round
    split
    · have made : Advances start (passed + 1) anyKind (behind passed)
          (do return some (← constantItem fuel token)) (do return some (← constantItem fuel' token)) :=
        (advances_constantItem (by omega) (by omega) token).bind fun _ => advances_pure (Nat.le_succ _)
      exact made s' passes' trivial
    · exact advancesAt_backtrack passes ok (Nat.le_refl _)

theorem advances_constBlock :
    Advances start passed kinds (fun _ => passed + 1) (constBlock fuel) (constBlock fuel') := by
  refine (advances_expect (by simp)).bind fun _ => ?_
  refine (advances_expect (by simp)).bind fun token => ?_
  refine (advances_constantItem (by omega) (by omega) token).bind fun first => ?_
  refine (advances_many (by omega) (by omega) fun count le =>
    advances_nextConstant? (by omega) (by omega)).bind fun others => ?_
  exact advances_pure (by omega)

theorem advances_storageBlock? :
    Advances start passed kinds (behind passed) (storageBlock? fuel) (storageBlock? fuel') := by
  refine advances_kind fun kind _ => ?_
  split
  · exact (advances_varBlock enough enough').bind fun _ => advances_pure (Nat.le_refl _)
  · exact (advances_constBlock enough enough').bind fun _ => advances_pure (Nat.le_refl _)
  · exact advances_pure (Nat.le_refl _)

/-! ### Callables and programs -/

theorem advances_parameterGroup :
    Advances start passed kinds (fun _ => passed + 1) (parameterGroup fuel)
      (parameterGroup fuel') := by
  refine (advances_expect (by simp)).bind fun first => ?_
  refine Advances.weaken ?_ fun _ => Nat.le_succ (passed + 1)
  exact advances_varGroup (by omega) (by omega) advances_ordinaryType first

end

def nextParameterGroup? (fuel : Nat) : Parse (Option VarGroup) := do
  if (← kind) = .semicolon then
    let _ ← advance
    return some (← parameterGroup fuel)
  else return none

theorem parameters_eq : parameters fuel = (do
    let _ ← expect .leftParen
    if (← kind) = .rightParen then
      let _ ← advance
      return []
    let first ← parameterGroup fuel
    let others ← many fuel (nextParameterGroup? fuel)
    let _ ← expect .rightParen
    return first :: others) :=
  rfl

section

variable (enough : start.ahead < fuel + passed) (enough' : start.ahead < fuel' + passed)
include enough enough'

theorem advances_nextParameterGroup? :
    Advances start passed kinds (behind passed) (nextParameterGroup? fuel)
      (nextParameterGroup? fuel') := by
  refine advances_kind fun kind _ => ?_
  split
  · rename_i isSemicolon
    refine (advances_advance (by simp [isSemicolon])).bind fun _ => ?_
    refine (advances_parameterGroup (by omega) (by omega)).bind fun group => ?_
    exact advances_pure (Nat.le_succ _)
  · exact advances_pure (Nat.le_refl _)

theorem advances_parameters :
    Advances start passed kinds (fun _ => passed + 1) (parameters fuel) (parameters fuel') := by
  rw [parameters_eq, parameters_eq]
  refine (advances_expect (by simp)).bind fun _ => ?_
  refine advances_kind fun kind _ => ?_
  split
  · exact advances_advance_any.bind fun _ => advances_pure (Nat.le_refl _)
  · refine (advances_parameterGroup (by omega) (by omega)).bind fun first => ?_
    refine (advances_many (by omega) (by omega) fun count le =>
      advances_nextParameterGroup? (by omega) (by omega)).bind fun others => ?_
    refine (advances_expect (by simp)).bind fun _ => ?_
    exact advances_pure (by omega)

theorem advances_heading :
    Advances start passed kinds (fun _ => passed + 1) (heading fuel) (heading fuel') := by
  refine advances_advance_any.bind fun keyword => ?_
  refine advances_name.bind fun name => ?_
  have result (count : Nat) (le : passed + 1 ≤ count) (groups : List VarGroup) :
      Advances start count anyKind (fun _ => passed + 1)
        (do
          if keyword.kind = .procedureWord then
            return (⟨name, groups, none, keyword.position⟩ : Heading)
          let _ ← expect .colon
          return ⟨name, groups, some (← ordinaryType), keyword.position⟩)
        (do
          if keyword.kind = .procedureWord then
            return (⟨name, groups, none, keyword.position⟩ : Heading)
          let _ ← expect .colon
          return ⟨name, groups, some (← ordinaryType), keyword.position⟩) := by
    split
    · exact advances_pure le
    · refine (advances_expect (by simp)).bind fun _ => ?_
      exact advances_ordinaryType.bind fun _ => advances_pure (by omega)
  refine advances_kind fun found _ => ?_
  by_cases isParen : found = .leftParen
  · rw [if_pos isParen, if_pos isParen]
    exact (advances_parameters (by omega) (by omega)).bind (result (passed + 1 + 1) (by omega))
  · rw [if_neg isParen, if_neg isParen]
    exact (result (passed + 1) (Nat.le_refl _) []).ofAny

theorem advances_actions :
    Advances start passed kinds (fun _ => passed + 1) (actions fuel) (actions fuel') := by
  refine (advances_expect (by simp)).bind fun token => ?_
  refine (advances_many (by omega) (by omega) fun count le =>
    advances_statement? (by omega) (by omega) none).bind fun statements => ?_
  refine (advances_expect (by simp)).bind fun _ => ?_
  exact advances_pure (Nat.le_succ _)

end

def callableOf (fuel : Nat) (body : Heading → Parse Statement) : Parse Statement := do
  let heading ← heading fuel
  let _ ← expect .semicolon
  if (← kind) = .forwardWord then
    let _ ← advance
    let _ ← expect .semicolon
    return .forward heading
  body heading

def callableBody (fuel : Nat) (heading : Heading) : Parse Statement := do
  let declarations ← many fuel (storageBlock? fuel)
  let (_, statements) ← actions fuel
  let _ ← expect .semicolon
  return .callable heading (declarations.flatten ++ statements)

theorem callable_eq : callable fuel = callableOf fuel (callableBody fuel) := rfl

section

variable (enough : start.ahead < fuel + passed) (enough' : start.ahead < fuel' + passed)
include enough enough'

theorem advances_callableOf {body body' : Heading → Parse Statement}
    (isBody : Inner start passed body body') :
    Advances start passed kinds (fun _ => passed + 1) (callableOf fuel body)
      (callableOf fuel' body') := by
  refine (advances_heading enough enough').bind fun heading => ?_
  refine (advances_expect (by simp)).bind fun _ => ?_
  refine advances_kind fun kind _ => ?_
  split
  · rename_i isForward
    refine (advances_advance (by simp [isForward])).bind fun _ => ?_
    refine (advances_expect (by simp)).bind fun _ => ?_
    exact advances_pure (by omega)
  · exact ((isBody heading _ (by omega)).weaken fun _ => by omega).ofAny

theorem advances_callableBody (heading : Heading) :
    Advances start passed kinds (fun _ => passed + 1) (callableBody fuel heading)
      (callableBody fuel' heading) := by
  refine (advances_many enough enough' fun count le =>
    advances_storageBlock? (by omega) (by omega)).bind fun declarations => ?_
  refine (advances_actions (by omega) (by omega)).bind fun body => ?_
  refine (advances_expect (by simp)).bind fun _ => ?_
  exact advances_pure (Nat.le_succ _)

theorem advances_callable :
    Advances start passed kinds (fun _ => passed + 1) (callable fuel) (callable fuel') := by
  rw [callable_eq, callable_eq]
  refine advances_callableOf enough enough' fun heading count lt => ?_
  exact advances_callableBody (by omega) (by omega) heading

theorem advances_topLevel? :
    Advances start passed kinds (behind passed) (topLevel? fuel) (topLevel? fuel') := by
  refine advances_kind fun kind _ => ?_
  cases kind with
  | functionWord | procedureWord =>
      refine (advances_callable enough enough').bind fun _ => ?_
      exact advances_pure (Nat.le_refl _)
  | _ => exact advances_storageBlock? enough enough'

omit enough enough' in
theorem advances_programHeader :
    Advances start passed kinds (fun found => passed + found.length) programHeader programHeader := by
  refine advances_kind fun kind _ => ?_
  split
  · rename_i isProgram
    refine (advances_advance (by simp [isProgram])).bind fun _ => ?_
    refine advances_name.bind fun name => ?_
    refine (advances_expect (by simp)).bind fun _ => ?_
    exact advances_pure (show passed + 1 ≤ _ by omega)
  · exact advances_pure (Nat.le_refl _)

theorem advances_programWith :
    Advances start passed kinds (fun _ => passed + 1) (programWith fuel) (programWith fuel') := by
  refine (advances_programHeader.weaken fun found => Nat.le_add_right passed found.length).bind ?_
  intro header
  refine (advances_many enough enough' fun count le =>
    advances_topLevel? (by omega) (by omega)).bind fun declarations => ?_
  refine (advances_actions enough enough').bind fun body => ?_
  refine (advances_expect (by simp)).bind fun _ => ?_
  refine advances_expect_endOfInput.bind fun _ => ?_
  exact advances_pure (Nat.le_succ _)

end

end Parse

end MiniPascal
