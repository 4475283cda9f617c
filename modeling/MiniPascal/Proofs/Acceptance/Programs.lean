import MiniPascal.Proofs.Acceptance.Declarations

/-!
# The parser of programs reads the grammar of programs

Callables and whole programs are put together from headings, blocks of declarations and bodies.  Each
loop over declarations stops in front of a reserved word, where the blocks of declarations end as the
grammar has it.
-/

namespace MiniPascal

namespace Parse

variable {size : Nat}

/-! ### Headings -/

theorem reads_parameterGroup (size : Nat) :
    Reads 1 size anyKind (parameterGroup size) (Rule.group Rule.ordinaryType) :=
  reads_group reads_ordinaryType.weaken

theorem begins_group (type : Rule DataType) : Rule.Begins (· = .ident) (Rule.group type) :=
  Rule.begins_ident.bind _

theorem reads_parameters (size : Nat) :
    Reads 1 size anyKind (parameters size) Rule.parameters := by
  have semicolon : Rule.Begins (fun kind => ¬ kind ≠ .semicolon) (do
      let _ ← Rule.token .semicolon
      Rule.group Rule.ordinaryType) :=
    ((Rule.begins_token .semicolon).bind _).mono fun _ => not_not_intro
  refine (reads_expect .leftParen (by decide)).bind fun _ => reads_kind fun front _ => ?_
  rw [Rule.orElse_bind, pure_bind]
  by_cases isEnd : front = .rightParen
  · subst isEnd
    rw [if_pos rfl]
    refine Reads.right ?_ (((begins_group _).bind _).bind _) (by simp)
    exact (reads_advance .rightParen (by decide)).weaken.bind fun _ => reads_pure rfl
  · rw [if_neg isEnd]
    refine Reads.left ?_ ((Rule.begins_token .rightParen).bind _) fun _ isKind isOther =>
      isEnd (isKind ▸ isOther)
    simp only [bind_assoc, pure_bind]
    refine (reads_parameterGroup size).weaken.ofAny.bind fun first =>
      Reads.bindLoop (reads_many semicolon ?_ ?_ (Nat.le_refl size)) (fun others => ?_) ?_
    · intro front notSemicolon
      rw [if_neg notSemicolon]
      exact reads_pure rfl
    · intro front isSemicolon
      obtain rfl := Decidable.not_not.1 isSemicolon
      rw [if_pos rfl]
      simpa only [map_eq_pure_bind, bind_assoc] using
        (reads_advance .semicolon (by decide)).bind fun _ =>
          (reads_parameterGroup size).weaken.map some some fun _ => rfl
    · exact (reads_expect .rightParen (by decide)).weaken.ofAny.bind fun _ => reads_pure rfl
    · exact fun _ => ((Rule.begins_token .rightParen).bind _).mono fun _ isEnd => isEnd ▸ by decide

theorem reads_parameters? (size : Nat) {α : Type} [Placed α] {next : List VarGroup → Parse α}
    {nextRule : List VarGroup → Rule α}
    (reads : ∀ groups, Reads 0 size anyKind (next groups) (nextRule (Placed.bare groups)))
    (apart : Rule.Begins (· ≠ .leftParen) (nextRule [])) :
    Reads 0 size anyKind (do
      if (← kind) = .leftParen then parameters size >>= next else next [])
      ((Rule.parameters <|> return []) >>= nextRule) := by
  rw [Rule.orElse_bind, pure_bind]
  refine reads_kind fun front _ => ?_
  by_cases isParen : front = .leftParen
  · subst isParen
    rw [if_pos rfl]
    exact ((reads_parameters size).weaken.bind reads).ofAny.left apart (by simp)
  · rw [if_neg isParen]
    refine (reads []).ofAny.right ((Rule.begins_token .leftParen).bind _ |>.bind _)
      fun _ isKind isOther => isParen (isKind ▸ isOther)

def headingBehind (keyword : Token) (name : String) (groups : List VarGroup) : Parse Heading := do
  if keyword.kind = .procedureWord then return ⟨name, groups, none, keyword.position⟩
  let _ ← expect .colon
  return ⟨name, groups, some (← ordinaryType), keyword.position⟩

theorem heading_bind {α : Type} (fuel : Nat) (next : Heading → Parse α) :
    (heading fuel >>= next) = (do
      let keyword ← advance
      let name ← name
      if (← kind) = .leftParen then
        parameters fuel >>= fun groups => headingBehind keyword name groups >>= next
      else headingBehind keyword name [] >>= next) := by
  unfold heading
  simp only [bind_assoc, pure_bind]
  refine congrArg (advance >>= ·) (funext fun keyword => congrArg (Parse.name >>= ·) (funext fun name =>
    congrArg (Parse.kind >>= ·) (funext fun kind => ?_)))
  unfold headingBehind
  split <;> simp

theorem reads_headingBehind {keyword : Token} (size : Nat) (name : String) :
    (keyword.kind = .procedureWord → ∀ groups, Reads 0 size anyKind
      (headingBehind keyword name groups)
      (return ⟨name, Placed.bare groups, none, .nowhere⟩)) ∧
    (keyword.kind ≠ .procedureWord → ∀ groups, Reads 0 size anyKind
      (headingBehind keyword name groups) (do
        let _ ← Rule.token .colon
        let type ← Rule.ordinaryType
        return ⟨name, Placed.bare groups, some type, .nowhere⟩)) := by
  constructor
  · intro isProcedure groups
    rw [headingBehind, if_pos isProcedure]
    exact reads_pure rfl
  · intro notProcedure groups
    rw [headingBehind, if_neg notProcedure]
    exact (reads_expect .colon (by decide)).weaken.bind fun _ =>
      reads_ordinaryType.weaken.bind fun _ => reads_pure rfl

theorem reads_heading (size : Nat) {front : TokenKind}
    (isKeyword : front = .functionWord ∨ front = .procedureWord) {α : Type} [Placed α]
    {next : Heading → Parse α} {nextRule : Heading → Rule α}
    (reads : ∀ heading, Reads 0 size anyKind (next heading) (nextRule (Placed.bare heading)))
    (apart : ∀ heading, Rule.Begins (· ≠ .leftParen) (nextRule heading)) :
    Reads 1 size (· = front) (heading size >>= next) (Rule.heading >>= nextRule) := by
  rw [heading_bind, Rule.heading, Rule.orElse_bind]
  simp only [bind_assoc, pure_bind]
  rcases isKeyword with rfl | rfl
  · refine Reads.left ?_ ((Rule.begins_token .procedureWord).bind _) (by simp)
    refine (reads_advance .functionWord (by decide)).bindKnown (·.kind = .functionWord)
      (fun parser isKind _ _ isOk => (kind_of_advance isOk).trans isKind) fun keyword isFunction =>
        reads_name.weaken.bind fun name => ?_
    refine reads_parameters? size (fun groups => ?_) ?_
    · change Reads _ _ _ _ (do
        let _ ← Rule.token .colon
        let type ← Rule.ordinaryType
        nextRule ⟨name, Placed.bare groups, some type, .nowhere⟩)
      simpa only [bind_assoc, pure_bind] using
        ((reads_headingBehind size name).2 (by simp [isFunction]) groups).bind reads
    · exact ((Rule.begins_token .colon).bind _).mono fun _ isColon => isColon ▸ by decide
  · refine Reads.right ?_ ((Rule.begins_token .functionWord).bind _) (by simp)
    refine (reads_advance .procedureWord (by decide)).bindKnown (·.kind = .procedureWord)
      (fun parser isKind _ _ isOk => (kind_of_advance isOk).trans isKind) fun keyword isProcedure =>
        reads_name.weaken.bind fun name => ?_
    refine reads_parameters? size (fun groups => ?_) (apart _)
    change Reads _ _ _ _ (nextRule ⟨name, Placed.bare groups, none, .nowhere⟩)
    simpa only [pure_bind] using ((reads_headingBehind size name).1 isProcedure groups).bind reads

/-! ### Callables -/

theorem reads_body (size : Nat) : Reads 0 size anyKind (many size (statement? size none)) (do
    let statements ← Rule.star (Rule.statement noElse none)
    Rule.ahead fun kind => ¬ Rule.BeginsStatement kind
    return statements) := by
  cases size with
  | zero => exact reads_zero
  | succ size =>
      rw [statement?, statementWith_eq, Rule.statement_eq]
      exact reads_statements (Rule.begins_action _ _ _) (fun front => statementAt_eq_none none)
        (fun front step => reads_statementAt (reads_statement size) none (Rule.begins_statement _ _))
        (Nat.le_refl _)

theorem reads_actions (size : Nat) {α : Type} [Placed α] {next : Position × List Statement → Parse α}
    {nextRule : List Statement → Rule α}
    (reads : ∀ body, Reads 0 size anyKind (next body) (nextRule (Placed.bare body.2))) :
    Reads 1 size anyKind (actions size >>= next) (Rule.body noElse >>= nextRule) := by
  unfold actions Rule.body
  simp only [bind_assoc, pure_bind]
  refine (reads_expect .beginWord (by decide)).bind fun token =>
    Reads.bindLoop (reads_body size) (fun statements => ?_) fun _ => ?_
  · exact (reads_expect .endWord (by decide)).weaken.ofAny.bind fun _ =>
      reads (token.position, statements)
  · refine ((Rule.begins_token .endWord).bind _).mono ?_
    rintro _ rfl
    simp [Rule.BeginsStatement]

theorem begins_star_bind {α β : Type} {kinds : TokenKind → Prop} {rule : Rule α}
    {next : List α → Rule β} (begins : Rule.Begins kinds rule)
    (begins' : ∀ as, Rule.Begins kinds (next as)) : Rule.Begins kinds (Rule.star rule >>= next) := by
  rintro input b rest ⟨as, middle, reads, read⟩
  cases reads with
  | nil => exact begins' _ _ _ _ read
  | cons head tail => exact begins _ _ _ head

theorem notName_of_beginsStorage (kind : TokenKind) (begins : Rule.BeginsStorage kind) :
    kind ≠ .ident := by
  rcases begins with rfl | rfl <;> decide

theorem reads_callableBehind (size : Nat) (heading : Heading) : Reads 0 size anyKind (do
    if (← kind) = .forwardWord then
      let _ ← advance
      let _ ← expect .semicolon
      return Statement.forward heading
    let declarations ← many size (storageBlock? size)
    let (_, statements) ← actions size
    let _ ← expect .semicolon
    return Statement.callable heading (declarations.flatten ++ statements)) ((do
      let _ ← Rule.token .forwardWord
      let _ ← Rule.token .semicolon
      return Statement.forward heading.bare) <|> do
    let declarations ← Rule.star (Rule.vars <|> Rule.consts)
    let statements ← Rule.body noElse
    let _ ← Rule.token .semicolon
    return .callable heading.bare (declarations.flatten ++ statements)) := by
  have begins (declarations : List (List Statement)) : Rule.Begins (· = .beginWord) (do
      let statements ← Rule.body noElse
      let _ ← Rule.token .semicolon
      return Statement.callable heading.bare (declarations.flatten ++ statements)) :=
    (Rule.begins_body noElse).bind _
  have storage := sameBefore_storage.star (begins_endedStorage.mono notName_of_beginsStorage)
    (Rule.begins_storage.mono notName_of_beginsStorage)
  rw [← storage.bind_eq fun declarations => (begins declarations).mono fun _ is => is ▸ by decide]
  refine reads_kind fun front _ => ?_
  by_cases isForward : front = .forwardWord
  · subst isForward
    rw [if_pos rfl]
    have others := @begins_star_bind _ _ (fun kind => Rule.BeginsStorage kind ∨ kind = .beginWord) _ _
      (begins_endedStorage.mono fun _ => .inl) fun declarations => (begins declarations).mono fun _ => .inr
    refine Reads.left ?_ others ?_
    · exact (reads_advance .forwardWord (by decide)).weaken.bind fun _ =>
        (reads_expect .semicolon (by decide)).weaken.bind fun _ => reads_pure rfl
    · rintro _ rfl
      simp [Rule.BeginsStorage]
  · rw [if_neg isForward]
    refine Reads.right (Reads.bindLoop (reads_storageBlocks size).ofAny (fun declarations => ?_) ?_)
      ((Rule.begins_token .forwardWord).bind _) fun _ isKind isOther => isForward (isKind ▸ isOther)
    · refine Reads.ofAny (Reads.weaken (reads_actions size ?_))
      rintro ⟨position, statements⟩
      refine (reads_expect .semicolon (by decide)).weaken.bind fun _ => reads_pure ?_
      change Statement.callable heading.bare (Statement.bareAll _) = _
      rw [Statement.bareAll_eq, Placed.bare_append, Placed.bare_flatten]
    · refine fun declarations => (begins declarations).mono ?_
      rintro _ rfl
      simp [Rule.BeginsStorage]

theorem reads_callable (size : Nat) {front : TokenKind}
    (isKeyword : front = .functionWord ∨ front = .procedureWord) :
    Reads 1 size (· = front) (callable size) (Rule.callable noElse) := by
  refine reads_heading size isKeyword (fun heading =>
    (reads_expect .semicolon (by decide)).weaken.bind fun _ => reads_callableBehind size heading)
    fun heading => ?_
  exact ((Rule.begins_token .semicolon).bind _).mono fun _ isSemicolon => isSemicolon ▸ by decide

/-! ### Programs -/

def topLevelAt (fuel : Nat) : TokenKind → Parse (Option (List Statement))
  | .functionWord | .procedureWord => do return some [← callable fuel]
  | .varWord => do return some (← varBlock fuel)
  | .constWord => do return some (← constBlock fuel)
  | _ => return none

theorem topLevel?_eq (fuel : Nat) : topLevel? fuel = Parse.kind >>= topLevelAt fuel := by
  funext parser
  rw [topLevel?, kind_bind_apply, kind_bind_apply]
  cases isKind : parser.input.kind <;>
    first
      | rfl
      | (simp only [storageBlock?, kind_bind_apply, isKind]; rfl)

def endedTopLevel : Rule (List Statement) :=
  (do
    let callable ← Rule.callable noElse
    return [callable]) <|> endedStorage

theorem begins_endedTopLevel : Rule.Begins Rule.BeginsTopLevel endedTopLevel :=
  ((Rule.begins_callable noElse).bind _).union begins_endedStorage

theorem sameBefore_topLevel :
    SameBefore (· ≠ .ident) endedTopLevel (Rule.topLevel noElse) :=
  SameBefore.orElse (fun _ _ _ _ => Iff.rfl) sameBefore_storage

theorem notName_of_beginsTopLevel (kind : TokenKind) (begins : Rule.BeginsTopLevel kind) :
    kind ≠ .ident := by
  rcases begins with (rfl | rfl) | rfl | rfl <;> decide

theorem reads_topLevelAt (size : Nat) {front : TokenKind} (begins : Rule.BeginsTopLevel front) :
    Reads 1 size (· = front) (topLevelAt size front) (some <$> endedTopLevel) := by
  have distribute : some <$> endedTopLevel = ((do
      let callable ← Rule.callable noElse
      return some [callable]) <|> (some <$> endedStorage)) := by
    simp only [endedTopLevel, map_eq_pure_bind, Rule.orElse_bind, bind_assoc, pure_bind]
  have isStorage : Rule.Begins Rule.BeginsStorage (some <$> endedStorage) := by
    rw [map_eq_pure_bind]
    exact begins_endedStorage.bind _
  have isCallable : Rule.Begins (fun kind => kind = .functionWord ∨ kind = .procedureWord) (do
      let callable ← Rule.callable noElse
      return some [callable]) := (Rule.begins_callable noElse).bind _
  rw [distribute]
  rcases begins with isKeyword | isBlock
  · have reads := (reads_callable size isKeyword).map (some [·]) (some [·]) fun _ => rfl
    rcases isKeyword with rfl | rfl <;>
      exact reads.left isStorage fun _ isKind => by simp [isKind, Rule.BeginsStorage]
  · rcases isBlock with rfl | rfl
    · exact (reads_storageAt (.inl ⟨rfl, rfl⟩)).right isCallable (by simp)
    · exact (reads_storageAt (.inr ⟨rfl, rfl⟩)).right isCallable (by simp)

theorem reads_topLevels (size : Nat) : Reads 0 size anyKind (many size (topLevel? size)) (do
    let blocks ← Rule.star endedTopLevel
    Rule.ahead fun kind => ¬ Rule.BeginsTopLevel kind
    return blocks) := by
  rw [topLevel?_eq]
  refine reads_many (begins_endedTopLevel.mono fun _ => not_not_intro) (fun kind stops => ?_)
    (fun kind begins => reads_topLevelAt size (Classical.not_not.1 begins)) (Nat.le_refl size)
  cases kind with
  | functionWord | procedureWord | varWord | constWord =>
      simp [Rule.BeginsTopLevel, Rule.BeginsStorage] at stops
  | _ => exact reads_pure rfl

theorem reads_programHeader (size : Nat) {α : Type} [Placed α] {next : List Statement → Parse α}
    {nextRule : List Statement → Rule α}
    (reads : ∀ header, Reads 0 size anyKind (next header) (nextRule (Placed.bare header)))
    (apart : Rule.Begins (· ≠ .programWord) (nextRule [])) :
    Reads 0 size anyKind (programHeader >>= next) (Rule.header >>= nextRule) := by
  rw [programHeader, bind_assoc, Rule.header, Rule.orElse_bind, pure_bind]
  simp only [bind_assoc, pure_bind]
  refine reads_kind fun front _ => ?_
  by_cases isProgram : front = .programWord
  · subst isProgram
    rw [if_pos rfl]
    simp only [bind_assoc, pure_bind]
    refine Reads.left ?_ apart fun _ isKind isOther => isOther isKind
    exact (reads_advance .programWord (by decide)).weaken.bind fun _ =>
      reads_name.weaken.bind fun name => (reads_expect .semicolon (by decide)).weaken.bind fun _ =>
        reads [.program name]
  · rw [if_neg isProgram, pure_bind]
    exact (reads []).ofAny.right ((Rule.begins_token .programWord).bind _)
      fun _ isKind isOther => isProgram (isKind ▸ isOther)

theorem reads_declarations (size : Nat) {α : Type} [Placed α]
    {next : List Statement → List (List Statement) → Parse α}
    {nextRule : List Statement → List (List Statement) → Rule α}
    (reads : ∀ header declarations, Reads 0 size (fun kind => ¬ Rule.BeginsTopLevel kind)
      (next header declarations) (nextRule (Placed.bare header) (Placed.bare declarations)))
    (begins : ∀ header declarations, Rule.Begins (· = .beginWord) (nextRule header declarations)) :
    Reads 0 size anyKind
      (do
        let header ← programHeader
        let declarations ← many size (topLevel? size)
        next header declarations)
      (do
        let header ← Rule.header
        let declarations ← Rule.star (Rule.topLevel noElse)
        nextRule header declarations) := by
  refine reads_programHeader size (fun header => ?_) ?_
  · have topLevels := sameBefore_topLevel.star (begins_endedTopLevel.mono notName_of_beginsTopLevel)
      ((Rule.begins_topLevel noElse).mono notName_of_beginsTopLevel)
    rw [← topLevels.bind_eq fun declarations =>
      (begins (Placed.bare header) declarations).mono fun _ is => is ▸ by decide]
    refine Reads.bindLoop (reads_topLevels size) (reads header) fun declarations => ?_
    refine (begins _ declarations).mono ?_
    rintro _ rfl
    simp [Rule.BeginsTopLevel, Rule.BeginsStorage]
  · refine begins_star_bind ((Rule.begins_topLevel noElse).mono ?_) fun declarations =>
      (begins _ declarations).mono fun _ is => is ▸ by decide
    rintro _ ((rfl | rfl) | rfl | rfl) <;> decide

def programStatements (fuel : Nat) : Parse (List Statement) := do
  let header ← programHeader
  let declarations ← many fuel (topLevel? fuel)
  let body ← actions fuel
  let _ ← expect .dot
  return header ++ declarations.flatten ++ [mainCallable body.1 body.2]

theorem programWith_eq (fuel : Nat) : programWith fuel = (do
    let statements ← programStatements fuel
    let _ ← expect .endOfInput
    return ⟨statements⟩) := by
  simp only [programWith, programStatements, bind_assoc, pure_bind]

def wholeStatements (Stops : TokenKind → Prop) : Rule (List Statement) := do
  let header ← Rule.header
  let declarations ← Rule.star (Rule.topLevel Stops)
  let statements ← Rule.body Stops
  let _ ← Rule.token .dot
  return header ++ declarations.flatten ++ [mainCallable .nowhere statements]

theorem bare_whole (header : List Statement) (declarations : List (List Statement))
    (position : Position) (statements : List Statement) :
    Placed.bare (header ++ declarations.flatten ++ [mainCallable position statements]) =
      Placed.bare header ++ (Placed.bare declarations).flatten ++
        [mainCallable .nowhere (Placed.bare statements)] := by
  rw [Placed.bare_append, Placed.bare_append, Placed.bare_flatten]
  change _ ++ [Statement.callable _ (Statement.bareAll statements)] = _
  rw [Statement.bareAll_eq]
  rfl

theorem reads_programStatements (size : Nat) :
    Reads 0 size anyKind (programStatements size) (wholeStatements noElse) := by
  refine reads_declarations size (fun header declarations => ?_)
    fun _ _ => (Rule.begins_body noElse).bind _
  refine Reads.ofAny (Reads.weaken (reads_actions size ?_))
  rintro ⟨position, statements⟩
  refine (reads_expect .dot (by decide)).weaken.bind fun _ => reads_pure ?_
  exact bare_whole header declarations position statements

theorem begins_wholeStatements (Stops : TokenKind → Prop) :
    Rule.Begins (· ≠ .endOfInput) (wholeStatements Stops) := by
  rintro input statements rest ⟨header, middle, isHeader | ⟨rfl, rfl⟩, read⟩
  · rw [(Rule.begins_token .programWord).bind _ _ _ _ isHeader]
    decide
  · have begins := @begins_star_bind _ _ (fun kind => Rule.BeginsTopLevel kind ∨ kind = .beginWord) _ _
      ((Rule.begins_topLevel Stops).mono fun _ => .inl)
      (fun declarations => ((Rule.begins_body Stops).bind _).mono fun _ => .inr) _ _ _ read
    rcases begins with ((isKind | isKind) | isKind | isKind) | isKind <;> simp [isKind]

theorem rule_program_eq (Stops : TokenKind → Prop) : Rule.program Stops = (do
    let statements ← wholeStatements Stops
    Rule.endOfInput
    return ⟨statements⟩) := by
  simp only [Rule.program, wholeStatements, bind_assoc, pure_bind]

theorem expect_endOfInput_iff (parser : Parser) :
    (∃ token rest, expect .endOfInput parser = .ok token rest) ↔
      parser.lexemes.map Token.bare = [.plain .endOfInput .nowhere] := by
  constructor
  · rintro ⟨token, rest, isOk⟩
    obtain ⟨isEnd, isOk⟩ := expect_eq_ok.1 isOk
    obtain ⟨next, lexer, isNext, -, -⟩ := advance_eq_ok.1 isOk
    simp [Parser.lexemes, Lexer.lexemesFrom, Lexer.complete, isEnd, Lexer.final, isNext, Token.bare,
      Token.plain]
  · intro isLast
    have isEnd : parser.current.kind = .endOfInput := by
      rw [← parser.kind_input, Input.kind, Parser.input, isLast]
      rfl
    cases isNext : parser.lexer.next with
    | ok token lexer =>
        exact ⟨_, _, expect_eq_ok.2 ⟨isEnd, advance_eq_ok.2 ⟨token, lexer, isNext, rfl, rfl⟩⟩⟩
    | error error lexer =>
        simp [Parser.lexemes, Lexer.lexemesFrom, Lexer.complete, isEnd, Lexer.final, isNext, Token.bare,
          Token.plain] at isLast

theorem programWith_iff {parser : Parser} {fuel : Nat} (le : parser.input.size ≤ fuel)
    (tree : Program) :
    (∃ program rest, programWith fuel parser = .ok program rest ∧ program.bare = tree) ↔
      ∃ rest, Rule.program noElse parser.input tree rest := by
  have exact := (reads_programStatements fuel).exact parser le trivial
  rw [programWith_eq, rule_program_eq]
  constructor
  · rintro ⟨program, rest, isOk, rfl⟩
    obtain ⟨statements, middle, isStatements, isOk⟩ := bind_eq_ok.1 isOk
    obtain ⟨token, last, isEnd, isOk⟩ := bind_eq_ok.1 isOk
    obtain ⟨rfl, rfl⟩ := pure_eq_ok.1 isOk
    have isLast := (expect_endOfInput_iff middle).1 ⟨token, _, isEnd⟩
    refine ⟨middle.input, Placed.bare statements, middle.input,
      (exact _ _).1 ⟨_, _, isStatements, rfl, rfl⟩, (), _, ⟨isLast, rfl⟩, ?_, rfl⟩
    exact congrArg Program.mk (Statement.bareAll_eq statements)
  · rintro ⟨rest, statements, _, read, _, _, ⟨isLast, rfl⟩, rfl, rfl⟩
    obtain ⟨made, middle, isStatements, rfl, rfl⟩ := (exact _ _).2 read
    obtain ⟨token, last, isEnd⟩ := (expect_endOfInput_iff middle).2 isLast
    refine ⟨⟨made⟩, last, ?_, congrArg Program.mk (Statement.bareAll_eq made)⟩
    rw [bind_of_ok _ isStatements, bind_of_ok _ isEnd]
    rfl

end Parse

def Input.ofText (text : String) : Input := ⟨(Lexer.ofText text).lexemes.map Token.bare, 0⟩

theorem Parser.input_of_next {text : String} {token : Token} {lexer : Lexer}
    (isNext : (Lexer.ofText text).next = .ok token lexer) :
    (⟨lexer, token, 0⟩ : Parser).input = Input.ofText text := by
  rw [Input.ofText, Lexer.lexemes_of_next isNext]
  rfl

/-- A text is parsed exactly if its lexemes derive from the grammar in which every `else` belongs to
the nearest `if`, and the tree is that of the derivation. -/
theorem Program.parse_iff (text : String) (tree : Program) :
    (∃ program, Program.parse text = .ok program ∧ program.bare = tree) ↔
      ∃ rest, Rule.program Parse.noElse (Input.ofText text) tree rest := by
  have isOfText : Parser.ofText text = Parser.ofReader (Reader.ofText text) := rfl
  unfold Program.parse
  rw [isOfText, Parser.ofReader, show Lexer.ofReader (Reader.ofText text) = Lexer.ofText text from rfl]
  cases isNext : (Lexer.ofText text).next with
  | ok token lexer =>
      rw [← Parser.input_of_next isNext, ← Parse.programWith_iff (Parser.input_size_le_fuel _)]
      have run (parser : Parser) : Parse.program parser = Parse.programWith parser.fuel parser := rfl
      dsimp only
      rw [run]
      cases Parse.programWith _ (⟨lexer, token, 0⟩ : Parser) <;> simp
  | error error lexer =>
      have isInput : Input.ofText text = ⟨[], 0⟩ := by
        rw [Input.ofText, Lexer.lexemes_of_error isNext]
        rfl
      constructor
      · rintro ⟨program, isOk, -⟩
        cases isOk
      · rintro ⟨rest, read⟩
        rw [isInput, Parse.rule_program_eq] at read
        obtain ⟨statements, middle, read, -⟩ := read
        exact absurd rfl (Parse.begins_wholeStatements _ _ _ _ read)

end MiniPascal
