import MiniPascal.Proofs.Acceptance.Programs
import MiniPascal.Proofs.Layout.Statements

/-!
# Declarations in two layouts

The steps that parse declarations agree for all parsers that stand alike, also where they go back
over a name.
-/

namespace MiniPascal

namespace Parse

open MiniPascal.Parser

variable {size fuel fuel' : Nat}

/-! ### Types -/

theorem agree_current {α : Type} [Placed α] {least : Nat} {kinds : TokenKind → Prop}
    {next next' : Token → Parse α}
    (agree : ∀ token token' : Token,
      (∀ text, token.kind = .ident ∧ token.text = text ↔ token'.kind = .ident ∧ token'.text = text) →
        Agree least size (fun kind => kinds kind ∧ kind = token.kind) (next token) (next' token')) :
    Agree least size kinds (current >>= next) (current >>= next') := by
  intro first second alike bounded begins
  refine agree first.current second.current (fun text => ?_) first second alike bounded ⟨begins, rfl⟩
  rw [← atWord_input, ← atWord_input, alike.input]

theorem agree_ordinaryType : Agree 1 size anyKind ordinaryType ordinaryType := by
  refine agree_current fun token token' same => ?_
  by_cases isInteger : token.kind = .ident ∧ token.text = "integer"
  · rw [if_pos isInteger, if_pos ((same _).1 isInteger)]
    refine ((agree_advance .ident (by decide)).bind fun _ _ _ => agree_pure rfl).onKinds ?_
    exact fun _ isKind => isKind.2.trans isInteger.1
  rw [if_neg isInteger, if_neg fun isInteger' => isInteger ((same _).2 isInteger')]
  by_cases isArray : token.kind = .ident ∧ token.text = "array"
  · rw [if_pos isArray, if_pos ((same _).1 isArray)]
    exact agree_throw rfl (by simp)
  · rw [if_neg isArray, if_neg fun isArray' => isArray ((same _).2 isArray')]
    exact agree_throw rfl (by simp)

theorem agree_dataType (le : size ≤ fuel) (le' : size ≤ fuel') :
    Agree 1 size anyKind (dataType fuel) (dataType fuel') := by
  have expression := (agree_expression le le').weaken
  refine agree_current fun token token' same => ?_
  by_cases isArray : token.kind = .ident ∧ token.text = "array"
  · rw [if_pos isArray, if_pos ((same _).1 isArray)]
    refine Agree.onKinds ?_ fun _ isKind => isKind.2.trans isArray.1
    refine (agree_advance .ident (by decide)).bind fun _ _ _ =>
      (agree_expect .leftBracket (by decide)).weaken.bind fun _ _ _ =>
        expression.bind fun low low' same => (agree_expect .dot (by decide)).weaken.bind fun _ _ _ =>
          (agree_expect .dot (by decide)).weaken.bind fun _ _ _ =>
            expression.bind fun high high' same' =>
              (agree_expect .rightBracket (by decide)).weaken.bind fun _ _ _ =>
                (agree_expect .ofWord (by decide)).weaken.bind fun _ _ _ =>
                  agree_ordinaryType.weaken.bind fun _ _ _ => agree_pure ?_
    change DataType.array (Placed.bare low) (Placed.bare high) =
      .array (Placed.bare low') (Placed.bare high')
    rw [same, same']
  · rw [if_neg isArray, if_neg fun isArray' => isArray ((same _).2 isArray')]
    exact agree_ordinaryType.ofAny

/-! ### Groups of names -/

theorem agree_varGroup (le : size ≤ fuel) (le' : size ≤ fuel') {type type' : Parse DataType}
    (agree : Agree 0 size anyKind type type') {first first' : Token}
    (same : Placed.bare first = Placed.bare first') :
    Agree 0 size anyKind (varGroup fuel type first) (varGroup fuel' type' first') := by
  refine Agree.bind (agree_many_kind (· ≠ .comma) le le' (fun kind notComma => ?_)
    fun kind isComma => ?_) fun others others' sameOthers => ?_
  · rw [if_neg notComma]
    exact ⟨rfl, rfl⟩
  · obtain rfl := Decidable.not_not.1 isComma
    rw [if_pos rfl]
    exact (agree_advance .comma (by decide)).bind fun _ _ _ =>
      agree_name.weaken.bind fun _ _ same => agree_pure (congrArg some same)
  · refine (agree_expect .colon (by decide)).weaken.bind fun _ _ _ =>
      agree.bind fun type type' sameType => agree_pure ?_
    obtain rfl : others = others' :=
      (List.map_id others).symm.trans (sameOthers.trans (List.map_id others'))
    change VarGroup.mk (first.text :: others) (Placed.bare type) .nowhere =
      ⟨first'.text :: others, Placed.bare type', .nowhere⟩
    rw [bare_text same, sameType]

/-! ### Looking behind a name -/

section

variable {α : Type} [Placed α] (kinds : TokenKind → Prop)
  {next next' : Token → TokenKind → Parse (Option α)}
  (goesOn : ∀ token token' kind, Placed.bare token = Placed.bare token' → kinds kind →
    Agree 0 size (· = kind) (next token kind) (next' token' kind))
  (goesBack : ∀ token kind, ¬ kinds kind →
    next token kind = (do backtrack token; return none) ∧
      next' token kind = (do backtrack token; return none))

omit [Placed α] in
theorem backtrack_advance {parser rest : Parser} {token : Token} (settled : parser.Settled)
    (isName : parser.current.kind = .ident) (passed : advance parser = .ok token rest) :
    ∃ back, (do backtrack token; return none : Parse (Option α)) rest = .ok none back ∧
      back.lexemes = parser.lexemes ∧ back.ending = parser.ending ∧
      back.nextLoop = parser.nextLoop ∧ back.Settled := by
  obtain ⟨next, lexer, isNext, rfl, rfl⟩ := advance_eq_ok.1 passed
  have ordinary : IsOrdinary parser.current.kind := isName ▸ by decide
  have again : (lexer.giveBack next).next = .ok next lexer := rfl
  refine ⟨_, bind_of_ok _ (backtrack_apply _ _), lexemes_backtrack isName isNext, ?_, rfl, .inr ⟨?_, isName⟩⟩
  · have same : (lexer.giveBack next).ending = parser.lexer.ending :=
      (Lexer.ending_of_next again).trans (Lexer.ending_of_next isNext).symm
    simp only [Parser.ending, Lexer.endingFrom, Lexer.complete, if_neg ordinary.1, if_neg ordinary.2]
    exact same
  · have isNil := (Lexer.returned_next isNext).trans settled.tail_eq_nil
    simp [Lexer.giveBack, isNil]

include goesOn goesBack in
theorem agree_lookBehind : Agree 0 size (· = .ident) (do
    let token ← advance
    next token (← kind)) (do
    let token ← advance
    next' token (← kind)) := by
  intro first second alike bounded isName
  have outcome := agree_advance .ident (by decide) first second alike bounded isName
  rw [bind_run, bind_run]
  cases passed : advance first with
  | error error first' =>
      rw [passed] at outcome
      generalize advance second = result' at outcome
      cases outcome with | error same fuelled => exact .error same fuelled
  | ok token first' =>
      cases passed' : advance second with
      | error error second' =>
          rw [passed, passed'] at outcome
          cases outcome
      | ok token' second' =>
          rw [passed, passed'] at outcome
          cases outcome with | ok same alike' leads leads' => ?_
          dsimp only
          rw [kind_bind_apply, kind_bind_apply, kind_input, kind_input, ← alike'.kind]
          by_cases isKind : kinds first'.current.kind
          · have shorter := leads.shorter
            exact .behind leads.weaken leads'.weaken
              (goesOn token token' _ same isKind first' second' alike' (by omega) rfl)
          · rw [(goesBack token _ isKind).1, (goesBack token' _ isKind).2]
            obtain ⟨back, isOk, lexemes, ending, loops, settled⟩ :=
              @backtrack_advance α _ _ _ alike.settled isName passed
            obtain ⟨back', isOk', lexemes', ending', loops', settled'⟩ :=
              @backtrack_advance α _ _ _ alike.settled' (alike.kind ▸ isName) passed'
            rw [isOk, isOk']
            refine .ok rfl ⟨?_, ?_, settled, settled'⟩ (.ofEq lexemes) (.ofEq lexemes')
            · rw [Parser.input, Parser.input, lexemes, lexemes', loops, loops']
              exact alike.input
            · rw [ending, ending', alike.ending]

include goesOn goesBack in
theorem shorter_lookBehind {parser rest : Parser} (settled : parser.Settled)
    (bounded : parser.lexemes.length ≤ size) (isName : parser.current.kind = .ident) {a : α}
    (isOk : (do
      let token ← advance
      next token (← kind) : Parse (Option α)) parser = .ok (some a) rest) :
    rest.lexemes.length < parser.lexemes.length := by
  obtain ⟨token, middle, passed, isOk⟩ := bind_eq_ok.1 isOk
  obtain ⟨leads, settled'⟩ := (agree_advance .ident (by decide)).leads settled bounded isName passed
  have shorter := leads.shorter
  rw [kind_bind_apply, kind_input] at isOk
  by_cases isKind : kinds middle.current.kind
  · have shorter' := ((goesOn token token _ rfl isKind).leads settled' (by omega) rfl isOk).1.shorter
    omega
  · rw [(goesBack token _ isKind).1] at isOk
    obtain ⟨back, isOk', -⟩ := @backtrack_advance α _ _ _ settled isName passed
    cases isOk.symm.trans isOk'

end

/-! ### Blocks of variables and constants -/

theorem agree_nextVarGroup? (le : size ≤ fuel) (le' : size ≤ fuel') :
    Agree 1 size anyKind (nextVarGroup? fuel) (nextVarGroup? fuel') := by
  refine (agree_expect .semicolon (by decide)).bind fun _ _ _ => agree_kind fun front _ => ?_
  by_cases isName : front = .ident
  · subst isName
    rw [if_neg (by simp), if_neg (by simp)]
    refine agree_lookBehind (fun kind => kind = .comma ∨ kind = .colon)
      (fun token token' kind same isKind => ?_) fun token kind isOther => ?_
    · have group : Agree 0 size anyKind
          (do return some (← varGroup fuel (dataType fuel) token) : Parse (Option VarGroup))
          (do return some (← varGroup fuel' (dataType fuel') token')) :=
        (agree_varGroup le le' (agree_dataType le le').weaken same).bind fun _ _ same' =>
          agree_pure (congrArg some same')
      rcases isKind with rfl | rfl <;> exact group.ofAny
    · split
      · simp at isOther
      · simp at isOther
      · exact ⟨rfl, rfl⟩
  · rw [if_pos isName, if_pos isName]
    exact agree_pure rfl

theorem agree_varBlock (le : size ≤ fuel) (le' : size ≤ fuel') :
    Agree 1 size anyKind (varBlock fuel) (varBlock fuel') := by
  refine (agree_expect .varWord (by decide)).bind fun _ _ _ =>
    (agree_expect .ident (by decide)).weaken.bind fun first first' same =>
      (agree_varGroup le le' (agree_dataType le le').weaken same).bind fun group group' sameGroup => ?_
  refine (agree_many le le' (agree_nextVarGroup? le le').weaken fun parser settled bounded a rest isOk =>
    ?_).bind fun groups groups' sameGroups => agree_pure ?_
  · exact ((agree_nextVarGroup? le le').leads settled bounded trivial isOk).1.shorter
  · rw [bare_vars, bare_vars, bare_cons sameGroup sameGroups]

theorem agree_constantItem (le : size ≤ fuel) (le' : size ≤ fuel') {token token' : Token}
    (same : Placed.bare token = Placed.bare token') :
    Agree 1 size anyKind (constantItem fuel token) (constantItem fuel' token') := by
  refine (agree_expect .equal (by decide)).bind fun _ _ _ =>
    (agree_expression le le').weaken.bind fun value value' sameValue =>
      (agree_expect .semicolon (by decide)).weaken.bind fun _ _ _ => agree_pure ?_
  change Statement.constant token.text (Placed.bare value) .nowhere =
    .constant token'.text (Placed.bare value') .nowhere
  rw [bare_text same, sameValue]

section

variable (le : size ≤ fuel) (le' : size ≤ fuel')

include le le'

theorem constant_goesOn (token token' : Token) (kind : TokenKind)
    (same : Placed.bare token = Placed.bare token') (isEqual : kind = .equal) :
    Agree 0 size (· = kind)
      (if kind = .equal then do return some (← constantItem fuel token)
        else do backtrack token; return none : Parse (Option Statement))
      (if kind = .equal then do return some (← constantItem fuel' token')
        else do backtrack token'; return none) := by
  rw [if_pos isEqual, if_pos isEqual]
  exact (agree_constantItem le le' same).weaken.ofAny.bind fun _ _ same' =>
    agree_pure (congrArg some same')

omit le le' in
theorem constant_goesBack (token : Token) (kind : TokenKind) (isOther : ¬ kind = .equal) :
    (if kind = .equal then do return some (← constantItem fuel token)
        else do backtrack token; return none : Parse (Option Statement)) =
      (do backtrack token; return none) ∧
    (if kind = .equal then do return some (← constantItem fuel' token)
        else do backtrack token; return none : Parse (Option Statement)) =
      (do backtrack token; return none) :=
  ⟨if_neg isOther, if_neg isOther⟩

theorem agree_nextConstant? : Agree 0 size anyKind (nextConstant? fuel) (nextConstant? fuel') := by
  refine agree_kind fun front _ => ?_
  by_cases isName : front = .ident
  · subst isName
    rw [if_neg (by simp), if_neg (by simp)]
    exact agree_lookBehind (· = .equal) (constant_goesOn le le') constant_goesBack
  · rw [if_pos isName, if_pos isName]
    exact agree_pure rfl

theorem shorter_nextConstant? {parser rest : Parser} (settled : parser.Settled)
    (bounded : parser.lexemes.length ≤ size) {statement : Statement}
    (isOk : nextConstant? fuel parser = .ok (some statement) rest) :
    rest.lexemes.length < parser.lexemes.length := by
  rw [nextConstant?, kind_bind_apply, kind_input] at isOk
  by_cases isName : parser.current.kind = .ident
  · rw [if_neg (Decidable.not_not.2 isName)] at isOk
    exact shorter_lookBehind (· = .equal) (constant_goesOn le le') constant_goesBack settled bounded
      isName isOk
  · rw [if_pos isName] at isOk
    cases isOk

theorem agree_constBlock : Agree 1 size anyKind (constBlock fuel) (constBlock fuel') := by
  refine (agree_expect .constWord (by decide)).bind fun _ _ _ =>
    (agree_expect .ident (by decide)).weaken.bind fun token token' same =>
      (agree_constantItem le le' same).weaken.bind fun first first' sameFirst => ?_
  exact (agree_many le le' (agree_nextConstant? le le')
    fun parser settled bounded a rest isOk => shorter_nextConstant? le le' settled bounded isOk).bind
    fun others others' sameOthers => agree_pure (bare_cons sameFirst sameOthers)

theorem agree_storageBlocks : Agree 0 size anyKind (many fuel (storageBlock? fuel))
    (many fuel' (storageBlock? fuel')) := by
  have some_ {kind : TokenKind} {action action' : Parse (List Statement)}
      (agree : Agree 1 size anyKind action action') :
      Agree 1 size (· = kind) (do return some (← action)) (do return some (← action')) :=
    agree.ofAny.bind fun _ _ same => agree_pure (congrArg some same)
  refine agree_many_kind (¬ Rule.BeginsStorage ·) le le' (fun kind isOther => ?_) fun kind begins => ?_
  · cases kind with
    | varWord | constWord => simp [Rule.BeginsStorage] at isOther
    | _ => exact ⟨rfl, rfl⟩
  · rcases Classical.not_not.1 begins with rfl | rfl
    · exact some_ (agree_varBlock le le')
    · exact some_ (agree_constBlock le le')

end

/-! ### Callables -/

theorem agree_parameterGroup (le : size ≤ fuel) (le' : size ≤ fuel') :
    Agree 1 size anyKind (parameterGroup fuel) (parameterGroup fuel') :=
  (agree_expect .ident (by decide)).bind fun _ _ same =>
    agree_varGroup le le' agree_ordinaryType.weaken same

theorem agree_parameters (le : size ≤ fuel) (le' : size ≤ fuel') :
    Agree 1 size anyKind (parameters fuel) (parameters fuel') := by
  refine (agree_expect .leftParen (by decide)).bind fun _ _ _ => agree_kind fun front _ => ?_
  by_cases isEnd : front = .rightParen
  · subst isEnd
    rw [if_pos rfl, if_pos rfl]
    exact (agree_advance .rightParen (by decide)).weaken.bind fun _ _ _ => agree_pure rfl
  rw [if_neg isEnd, if_neg isEnd]
  refine (agree_parameterGroup le le').weaken.ofAny.bind fun first first' same => ?_
  refine Agree.bind (agree_many_kind (· ≠ .semicolon) le le' (fun kind isOther => ?_)
    fun kind isSemicolon => ?_) fun others others' sameOthers => ?_
  · rw [if_neg isOther, if_neg isOther]
    exact ⟨rfl, rfl⟩
  · obtain rfl := Decidable.not_not.1 isSemicolon
    rw [if_pos rfl, if_pos rfl]
    exact (agree_advance .semicolon (by decide)).bind fun _ _ _ =>
      (agree_parameterGroup le le').weaken.bind fun _ _ same => agree_pure (congrArg some same)
  · exact (agree_expect .rightParen (by decide)).weaken.bind fun _ _ _ =>
      agree_pure (bare_cons same sameOthers)

theorem bare_kind {token token' : Token} (same : Placed.bare token = Placed.bare token') :
    token.kind = token'.kind :=
  (congrArg Token.kind same : (Placed.bare token).kind = (Placed.bare token').kind)

theorem agree_heading (le : size ≤ fuel) (le' : size ≤ fuel') {keyword : TokenKind}
    (isKeyword : keyword = .functionWord ∨ keyword = .procedureWord) :
    Agree 1 size (· = keyword) (heading fuel) (heading fuel') := by
  have ordinary : IsOrdinary keyword := by rcases isKeyword with rfl | rfl <;> decide
  refine (agree_advance keyword ordinary).bind fun token token' sameToken =>
    agree_name.weaken.bind fun name name' sameName => ?_
  obtain rfl : name = name' := sameName
  have rest {parameters parameters' : List VarGroup}
      (same : Placed.bare parameters = Placed.bare parameters') : Agree 0 size anyKind (do
        if token.kind = .procedureWord then return ⟨name, parameters, none, token.position⟩
        let _ ← expect .colon
        return ⟨name, parameters, some (← ordinaryType), token.position⟩ : Parse Heading) (do
        if token'.kind = .procedureWord then return ⟨name, parameters', none, token'.position⟩
        let _ ← expect .colon
        return ⟨name, parameters', some (← ordinaryType), token'.position⟩) := by
    rw [← bare_kind sameToken]
    by_cases isProcedure : token.kind = .procedureWord
    · rw [if_pos isProcedure, if_pos isProcedure]
      refine agree_pure ?_
      change Heading.mk name (Placed.bare parameters) none .nowhere =
        ⟨name, Placed.bare parameters', none, .nowhere⟩
      rw [same]
    · rw [if_neg isProcedure, if_neg isProcedure]
      refine (agree_expect .colon (by decide)).weaken.bind fun _ _ _ =>
        agree_ordinaryType.weaken.bind fun type type' sameType => agree_pure ?_
      change Heading.mk name (Placed.bare parameters) (some (Placed.bare type)) .nowhere =
        ⟨name, Placed.bare parameters', some (Placed.bare type'), .nowhere⟩
      rw [same, sameType]
  refine agree_kind fun front _ => ?_
  by_cases isParen : front = .leftParen
  · rw [if_pos isParen, if_pos isParen]
    exact (agree_parameters le le').weaken.ofAny.bind fun _ _ same => rest same
  · rw [if_neg isParen, if_neg isParen]
    exact (agree_pure rfl).bind fun _ _ same => rest same

theorem agree_actions (le : size ≤ fuel) (le' : size ≤ fuel') :
    Agree 1 size anyKind (actions fuel) (actions fuel') :=
  (agree_expect .beginWord (by decide)).bind fun _ _ _ => (agree_body le le').bind
    fun statements statements' same => (agree_expect .endWord (by decide)).weaken.bind fun _ _ _ =>
      agree_pure (congrArg (Position.nowhere, ·) same)

theorem bare_append_congr {α : Type} [Placed α] {first first' second second' : List α}
    (same : Placed.bare first = Placed.bare first') (same' : Placed.bare second = Placed.bare second') :
    Placed.bare (first ++ second) = Placed.bare (first' ++ second') := by
  rw [Placed.bare_append, Placed.bare_append, same, same']

theorem bare_flatten_congr {α : Type} [Placed α] {lists lists' : List (List α)}
    (same : Placed.bare lists = Placed.bare lists') :
    Placed.bare lists.flatten = Placed.bare lists'.flatten := by
  rw [Placed.bare_flatten, Placed.bare_flatten, same]

theorem agree_callable (le : size ≤ fuel) (le' : size ≤ fuel') {keyword : TokenKind}
    (isKeyword : keyword = .functionWord ∨ keyword = .procedureWord) :
    Agree 1 size (· = keyword) (callable fuel) (callable fuel') := by
  refine (agree_heading le le' isKeyword).bind fun heading heading' sameHeading =>
    (agree_expect .semicolon (by decide)).weaken.bind fun _ _ _ => agree_kind fun front _ => ?_
  by_cases isForward : front = .forwardWord
  · subst isForward
    rw [if_pos rfl, if_pos rfl]
    exact (agree_advance .forwardWord (by decide)).weaken.bind fun _ _ _ =>
      (agree_expect .semicolon (by decide)).weaken.bind fun _ _ _ =>
        agree_pure (congrArg Statement.forward sameHeading)
  · rw [if_neg isForward, if_neg isForward]
    refine (agree_storageBlocks le le').ofAny.bind fun declarations declarations' sameDeclarations =>
      (agree_actions le le').weaken.bind fun actions actions' sameActions =>
        (agree_expect .semicolon (by decide)).weaken.bind fun _ _ _ => agree_pure ?_
    have same := bare_append_congr (bare_flatten_congr sameDeclarations) (congrArg Prod.snd sameActions)
    change Statement.callable (Placed.bare heading) (Statement.bareAll _) =
      .callable (Placed.bare heading') (Statement.bareAll _)
    rw [Statement.bareAll_eq, Statement.bareAll_eq, sameHeading]
    exact congrArg (Statement.callable (Placed.bare heading')) same

/-! ### Programs -/

theorem agree_programHeader : Agree 0 size anyKind programHeader programHeader := by
  refine agree_kind fun front _ => ?_
  by_cases isProgram : front = .programWord
  · subst isProgram
    rw [if_pos rfl]
    refine (agree_advance .programWord (by decide)).weaken.bind fun _ _ _ =>
      agree_name.weaken.bind fun name name' sameName =>
        (agree_expect .semicolon (by decide)).weaken.bind fun _ _ _ => agree_pure ?_
    obtain rfl : name = name' := sameName
    rfl
  · rw [if_neg isProgram]
    exact agree_pure rfl

section

variable (le : size ≤ fuel) (le' : size ≤ fuel')

include le le'

theorem agree_topLevelAt {kind : TokenKind} (begins : Rule.BeginsTopLevel kind) :
    Agree 1 size (· = kind) (topLevelAt fuel kind) (topLevelAt fuel' kind) := by
  have block {action action' : Parse (List Statement)} (agree : Agree 1 size anyKind action action') :
      Agree 1 size (· = kind) (do return some (← action)) (do return some (← action')) :=
    agree.ofAny.bind fun _ _ same => agree_pure (congrArg some same)
  have definition (isKeyword : kind = .functionWord ∨ kind = .procedureWord) :
      Agree 1 size (· = kind) (do return some [← callable fuel]) (do return some [← callable fuel']) :=
    (agree_callable le le' isKeyword).bind fun _ _ same =>
      agree_pure (congrArg some (bare_cons same rfl))
  rcases begins with (rfl | rfl) | rfl | rfl
  · exact definition (.inl rfl)
  · exact definition (.inr rfl)
  · exact block (agree_varBlock le le')
  · exact block (agree_constBlock le le')

theorem agree_topLevels : Agree 0 size anyKind (many fuel (topLevel? fuel))
    (many fuel' (topLevel? fuel')) := by
  rw [topLevel?_eq, topLevel?_eq]
  refine agree_many_kind (¬ Rule.BeginsTopLevel ·) le le' (fun kind isOther => ?_)
    fun kind begins => agree_topLevelAt le le' (Classical.not_not.1 begins)
  cases kind with
  | functionWord | procedureWord | varWord | constWord =>
      simp [Rule.BeginsTopLevel, Rule.BeginsStorage] at isOther
  | _ => exact ⟨rfl, rfl⟩

end

theorem agree_programStatements (le : size ≤ fuel) (le' : size ≤ fuel') :
    Agree 0 size anyKind (programStatements fuel) (programStatements fuel') := by
  refine agree_programHeader.bind fun header header' sameHeader =>
    (agree_topLevels le le').bind fun declarations declarations' sameDeclarations =>
      (agree_actions le le').weaken.bind fun body body' sameBody =>
        (agree_expect .dot (by decide)).weaken.bind fun _ _ _ => agree_pure ?_
  refine bare_append_congr (bare_append_congr sameHeader (bare_flatten_congr sameDeclarations))
    (bare_cons ?_ rfl)
  have same : Placed.bare body.2 = Placed.bare body'.2 := congrArg Prod.snd sameBody
  change Statement.callable _ (Statement.bareAll body.2) = .callable _ (Statement.bareAll body'.2)
  rw [Statement.bareAll_eq, Statement.bareAll_eq, same]
  rfl

theorem expect_endOfInput {parser : Parser} (isEnd : parser.current.kind = .endOfInput) :
    (∃ token rest, expect .endOfInput parser = .ok token rest ∧
      parser.lexemes.map Token.bare = [.plain .endOfInput .nowhere]) ∨
    ∃ error rest, expect .endOfInput parser = .error (.lexical error) rest ∧
      parser.ending = some error ∧
      parser.lexemes.map Token.bare = [⟨.endOfInput, "unreadable", 0, .nowhere⟩] := by
  have isNone : parser.lexer.complete parser.current = none := if_pos isEnd
  have isExpect : expect .endOfInput parser = advance parser := by
    rw [expect, kind_bind_apply, kind_input, if_pos isEnd]
  rw [isExpect, Parser.lexemes, Lexer.lexemesFrom, isNone, Parser.ending, Lexer.endingFrom, isNone]
  cases isNext : parser.lexer.next with
  | ok token lexer =>
      refine .inl ⟨_, _, advance_eq_ok.2 ⟨token, lexer, isNext, rfl, rfl⟩, ?_⟩
      simp [Lexer.final, isEnd, isNext, Token.bare, Token.plain]
  | error error lexer =>
      refine .inr ⟨error, _, advance_of_error isNext, ?_, ?_⟩
      · simp [Lexer.fault, isEnd, isNext]
      · simp [Lexer.final, isEnd, isNext, Token.bare]

inductive SameResult : EStateM.Result ParseError Parser Program →
    EStateM.Result ParseError Parser Program → Prop where
  | ok {program program' : Program} {rest rest' : Parser} (same : program.bare = program'.bare) :
      SameResult (.ok program rest) (.ok program' rest')
  | error {error error' : ParseError} {rest rest' : Parser} (same : error.bare = error'.bare)
      (fuelled : error ≠ .outOfFuel) : SameResult (.error error rest) (.error error' rest')

theorem sameResult_end {first second : Parser} (alike : first.Alike second)
    {program program' : Program} (same : program.bare = program'.bare) :
    SameResult ((do let _ ← expect .endOfInput; return program : Parse Program) first)
      ((do let _ ← expect .endOfInput; return program' : Parse Program) second) := by
  have lexemes := alike.lexemes
  by_cases isEnd : first.current.kind = .endOfInput
  · rcases expect_endOfInput isEnd with ⟨token, rest, isOk, isLast⟩ | ⟨error, rest, isError, ends, isLast⟩
    · rcases expect_endOfInput (alike.kind ▸ isEnd) with ⟨token', rest', isOk', -⟩ |
          ⟨error', rest', -, -, isLast'⟩
      · rw [bind_of_ok _ isOk, bind_of_ok _ isOk']
        exact .ok same
      · rw [isLast, isLast'] at lexemes
        exact absurd lexemes (by simp [Token.plain])
    · rcases expect_endOfInput (alike.kind ▸ isEnd) with ⟨token', rest', -, isLast'⟩ |
          ⟨error', rest', isError', ends', -⟩
      · rw [isLast, isLast'] at lexemes
        exact absurd lexemes (by simp [Token.plain])
      · rw [bind_of_error _ isError, bind_of_error _ isError']
        refine .error ?_ (by simp)
        have ending := alike.ending
        rw [ends, ends'] at ending
        exact congrArg ParseError.lexical (Option.some.inj ending)
  · have throws {parser : Parser} (notEnd : parser.current.kind ≠ .endOfInput) :
        expect .endOfInput parser =
          .error (.expected .endOfInput parser.current.kind parser.current.position) parser := by
      rw [expect, kind_bind_apply, kind_input, if_neg notEnd]
      rfl
    rw [bind_of_error _ (throws isEnd), bind_of_error _ (throws (alike.kind ▸ isEnd))]
    exact .error (by simp [ParseError.bare, alike.kind]) (by simp)

theorem sameResult_programWith {first second : Parser} (alike : first.Alike second)
    (le : first.lexemes.length ≤ fuel) (le' : first.lexemes.length ≤ fuel') :
    SameResult (programWith fuel first) (programWith fuel' second) := by
  have outcome := agree_programStatements le le' first second alike (Nat.le_refl _) trivial
  rw [programWith_eq, programWith_eq]
  cases isOk : programStatements fuel first with
  | error error rest =>
      rw [isOk] at outcome
      generalize isOk' : programStatements fuel' second = result' at outcome
      cases outcome with | error same fuelled => ?_
      rw [bind_of_error _ isOk, bind_of_error _ isOk']
      exact .error same fuelled
  | ok statements rest =>
      rw [isOk] at outcome
      generalize isOk' : programStatements fuel' second = result' at outcome
      cases outcome with | ok same alike leads leads' => ?_
      rw [bind_of_ok _ isOk, bind_of_ok _ isOk']
      refine sameResult_end alike ?_
      change Program.mk (Statement.bareAll _) = ⟨Statement.bareAll _⟩
      rw [Statement.bareAll_eq, Statement.bareAll_eq, same]

end Parse

end MiniPascal
