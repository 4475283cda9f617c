import MiniPascal.Proofs.Acceptance.Statements

/-!
# The parser of declarations reads the grammar of declarations

A block of variables or constants goes on as long as one more group or constant follows, which takes
a look at two lexemes.  What stands behind declarations never begins with a name, so that stopping
there misses nothing that the grammar allows.
-/

namespace MiniPascal

namespace Parse

/-! ### Types -/

def AtWord (text : String) (input : Input) : Prop :=
  ∃ token others, input.lexemes = token :: others ∧ token.kind = .ident ∧ token.text = text

theorem atWord_input {text : String} {parser : Parser} :
    AtWord text parser.input ↔ parser.current.kind = .ident ∧ parser.current.text = text := by
  by_cases isName : parser.current.kind = .ident
  · have isCons := @lexemes_of_isOrdinary parser (isName ▸ by decide)
    constructor
    · rintro ⟨token, others, isInput, isKind, isText⟩
      rw [Parser.input, isCons] at isInput
      obtain ⟨rfl, -⟩ := List.cons.inj isInput
      exact ⟨isKind, isText⟩
    · rintro ⟨isKind, isText⟩
      refine ⟨parser.current.bare, parser.lexer.lexemes.map Token.bare, ?_, isKind, isText⟩
      rw [Parser.input, isCons]
      rfl
  · constructor
    · rintro ⟨token, others, isInput, isKind, -⟩
      refine absurd ?_ isName
      rw [← Parser.kind_input, Input.kind, isInput]
      exact isKind
    · rintro ⟨isKind, -⟩
      exact absurd isKind isName

section

variable {α : Type} {yesRule noRule : Rule α} {text : String}

theorem word_bind_iff {input rest : Input} {a : α} :
    (Rule.word text >>= fun _ => yesRule) input a rest ↔
      AtWord text input ∧ (Rule.token .ident >>= fun _ => yesRule) input a rest := by
  constructor
  · rintro ⟨_, middle, ⟨name, _, ⟨token, _, ⟨isKind, next, others, isInput, rfl⟩, rfl, rfl⟩, isText,
      rfl⟩, read⟩
    exact ⟨⟨token, _, isInput, isKind, isText⟩, token, _, ⟨isKind, next, others, isInput, rfl⟩, read⟩
  · rintro ⟨⟨token, others, isInput, -, isText⟩, token', middle, passed, read⟩
    obtain ⟨isKind, next, others', isInput', rfl⟩ := passed
    obtain ⟨rfl, rfl⟩ := List.cons.inj (isInput.symm.trans isInput')
    exact ⟨(), _, ⟨_, _, ⟨token, _, ⟨isKind, next, others', isInput', rfl⟩, rfl, rfl⟩, isText, rfl⟩, read⟩

theorem reads_ifWord [Placed α] {least size : Nat} {yes : Parse α} {no : Token → Parse α}
    (reads : Reads least size (· = .ident) yes (Rule.token .ident >>= fun _ => yesRule))
    (reads' : ∀ token, Reads least size anyKind (no token) noRule)
    (apart : ∀ input a rest, noRule input a rest → ¬ AtWord text input) :
    Reads least size anyKind (do
      let token ← current
      if token.kind = .ident ∧ token.text = text then yes else no token)
      ((Rule.word text >>= fun _ => yesRule) <|> noRule) where
  exact parser bounded always a rest := by
    have peek : (do
        let token ← current
        if token.kind = .ident ∧ token.text = text then yes else no token : Parse α) parser =
        (if parser.current.kind = .ident ∧ parser.current.text = text then yes
          else no parser.current) parser := rfl
    rw [peek, Rule.orElse_apply, word_bind_iff]
    by_cases isWord : parser.current.kind = .ident ∧ parser.current.text = text
    · have atWord := atWord_input.2 isWord
      rw [if_pos isWord]
      refine (reads.exact parser bounded (parser.kind_input.trans isWord.1) a rest).trans ⟨?_, ?_⟩
      · exact fun read => .inl ⟨atWord, read⟩
      · exact fun read => read.elim And.right fun read => absurd atWord (apart _ _ _ read)
    · rw [if_neg isWord]
      refine ((reads' _).exact parser bounded always a rest).trans ⟨.inr, ?_⟩
      exact fun read => read.elim (fun read => absurd (atWord_input.1 read.1) isWord) id
  shorter parser bounded always a parser' isOk := by
    have isOk : (if parser.current.kind = .ident ∧ parser.current.text = text then yes
        else no parser.current) parser = .ok a parser' := isOk
    split at isOk
    · rename_i isWord
      exact reads.shorter parser bounded (parser.kind_input.trans isWord.1) a parser' isOk
    · exact (reads' _).shorter parser bounded always a parser' isOk

end

theorem reads_ordinaryType {size : Nat} :
    Reads 1 size anyKind ordinaryType Rule.ordinaryType := by
  have integer : Reads 1 size anyKind ordinaryType (Rule.ordinaryType <|> Rule.fail) := by
    refine reads_ifWord ((reads_advance .ident (by decide)).bind fun _ => reads_pure rfl)
      (fun token => reads_never (fun parser a parser' isOk => ?_) fun _ _ _ _ => id)
      fun _ _ _ => False.elim
    split at isOk <;> exact throw_eq_ok isOk
  exact integer.congr fun input a rest _ => or_iff_left id

theorem reads_dataType (size : Nat) : Reads 1 size anyKind (dataType size) Rule.dataType := by
  have expression := (reads_expression size).weaken
  refine reads_ifWord ?_ (fun _ => reads_ordinaryType) fun input a rest read atWord => ?_
  · exact (reads_advance .ident (by decide)).bind fun _ =>
      (reads_expect .leftBracket (by decide)).weaken.bind fun _ => expression.bind fun low =>
        (reads_expect .dot (by decide)).weaken.bind fun _ =>
          (reads_expect .dot (by decide)).weaken.bind fun _ => expression.bind fun high =>
            (reads_expect .rightBracket (by decide)).weaken.bind fun _ =>
              (reads_expect .ofWord (by decide)).weaken.bind fun _ =>
                reads_ordinaryType.weaken.bind fun _ => reads_pure rfl
  · obtain ⟨token, others, isInput, -, isArray⟩ := atWord
    obtain ⟨⟨token', others', isInput', -, isInteger⟩, -⟩ := word_bind_iff.1 read
    obtain ⟨rfl, -⟩ := List.cons.inj (isInput.symm.trans isInput')
    exact absurd (isArray.symm.trans isInteger) (by decide)

/-! ### Groups of names -/

section

variable {size : Nat} {type : Parse DataType} {typeRule : Rule DataType}
  (reads : Reads 0 size anyKind type typeRule)

include reads

theorem reads_varGroup (first : Token) : Reads 0 size anyKind (varGroup size type first)
    (Rule.groupBehind typeRule first.text) := by
  have comma : Rule.Begins (fun kind => ¬ kind ≠ .comma) (do
      let _ ← Rule.token .comma
      Rule.ident) :=
    ((Rule.begins_token .comma).bind _).mono fun _ => not_not_intro
  refine Reads.bindLoop (reads_many comma ?_ ?_ (Nat.le_refl size)) (fun others => ?_) ?_
  · intro front notComma
    rw [if_neg notComma]
    exact reads_pure rfl
  · intro front isComma
    obtain rfl := Decidable.not_not.1 isComma
    rw [if_pos rfl]
    simpa only [map_eq_pure_bind, bind_assoc] using (reads_advance .comma (by decide)).bind fun _ =>
      reads_name.weaken.map some some fun _ => rfl
  · refine (reads_expect .colon (by decide)).weaken.ofAny.bind fun _ => reads.bind fun type =>
      reads_pure ?_
    exact congrArg (VarGroup.mk <| first.text :: ·) (List.map_id others).symm ▸ rfl
  · exact fun _ => ((Rule.begins_token .colon).bind _).mono fun _ isColon => isColon ▸ by decide

theorem reads_group : Reads 1 size anyKind (do
    let first ← expect .ident
    varGroup size type first) (Rule.group typeRule) := by
  simp only [Rule.group, Rule.ident, bind_assoc, pure_bind]
  exact (reads_expect .ident (by decide)).bind fun first => reads_varGroup reads first

end

/-! ### Blocks of variables and constants -/

def NoneBehindName (kinds : TokenKind → Prop) (input : Input) : Prop :=
  input.kind = .ident → ∃ name next others, input.lexemes = name :: next :: others ∧ ¬ kinds next.kind

section

variable {α : Type} [Placed α] {size : Nat} {kinds : TokenKind → Prop}
  {next : Token → TokenKind → Parse (Option α)} {rule : String → Rule α}

theorem backtrack_apply (passed : Token) (parser : Parser) : backtrack passed parser =
    .ok () ⟨parser.lexer.giveBack parser.current, passed, parser.nextLoop⟩ := rfl

theorem lexemes_backtrack {parser : Parser} {token : Token} {lexer : Lexer}
    (isName : parser.current.kind = .ident) (isNext : parser.lexer.next = .ok token lexer) :
    (⟨lexer.giveBack token, parser.current, parser.nextLoop⟩ : Parser).lexemes = parser.lexemes := by
  have ordinary : IsOrdinary parser.current.kind := isName ▸ by decide
  have again : (lexer.giveBack token).next = .ok token lexer := rfl
  have same : (lexer.giveBack token).lexemes = parser.lexer.lexemes :=
    (Lexer.lexemes_of_next again).trans (Lexer.lexemes_of_next isNext).symm
  have back : (⟨lexer.giveBack token, parser.current, parser.nextLoop⟩ : Parser).lexemes =
      parser.current :: (lexer.giveBack token).lexemes :=
    lexemes_of_isOrdinary ordinary
  rw [back, same, lexemes_of_isOrdinary ordinary]

theorem input_backtrack {parser : Parser} {token : Token} {lexer : Lexer}
    (isName : parser.current.kind = .ident) (isNext : parser.lexer.next = .ok token lexer) :
    (⟨lexer.giveBack token, parser.current, parser.nextLoop⟩ : Parser).input = parser.input := by
  rw [Parser.input, Parser.input, lexemes_backtrack isName isNext]

theorem noneBehindName_iff {input rest : Input} {token : Token} (isName : input.kind = .ident)
    (passed : Rule.token .ident input token rest) :
    NoneBehindName kinds input ↔ ¬ kinds rest.kind := by
  obtain ⟨-, next, others, isInput, rfl⟩ := passed
  constructor
  · intro isNone
    obtain ⟨name', next', others', isInput', isOther⟩ := isNone isName
    obtain ⟨rfl, isRest⟩ := List.cons.inj (isInput.symm.trans isInput')
    obtain ⟨rfl, rfl⟩ := List.cons.inj isRest
    exact isOther
  · exact fun isOther _ => ⟨token, next, others, isInput, isOther⟩

section

variable (begins : ∀ name, Rule.Begins kinds (rule name))
  (goesOn : ∀ token kind, kinds kind → Reads 0 size (· = kind) (next token kind)
    (some <$> rule token.text))
  (goesBack : ∀ token kind, ¬ kinds kind → next token kind = (do backtrack token; return none))

omit [Placed α] in
theorem lookBehind_eq_ok {parser parser'' : Parser} {o : Option α} : (do
    let token ← advance
    next token (← kind) : Parse (Option α)) parser = .ok o parser'' ↔
      ∃ token parser', advance parser = .ok token parser' ∧
        next token parser'.input.kind parser' = .ok o parser'' := by
  simp only [bind_eq_ok, kind_eq_ok]
  constructor
  · rintro ⟨token, parser', isAdvance, _, _, ⟨rfl, rfl⟩, isOk⟩
    exact ⟨token, parser', isAdvance, parser'.kind_input ▸ isOk⟩
  · rintro ⟨token, parser', isAdvance, isOk⟩
    exact ⟨token, parser', isAdvance, _, _, ⟨rfl, rfl⟩, parser'.kind_input ▸ isOk⟩

omit [Placed α] in
include goesBack in
theorem goesBack_eq_ok {parser parser' : Parser} {token : Token} (isName : parser.input.kind = .ident)
    (isAdvance : advance parser = .ok token parser') (isOther : ¬ kinds parser'.input.kind) :
    ∃ parser'', next token parser'.input.kind parser' = .ok none parser'' ∧
      parser''.input = parser.input := by
  obtain ⟨_, _, isNext, rfl, rfl⟩ := advance_eq_ok.1 isAdvance
  rw [goesBack _ _ isOther, bind_of_ok _ (backtrack_apply _ _)]
  exact ⟨_, rfl, input_backtrack (parser.kind_input ▸ isName) isNext⟩

include goesOn goesBack in
theorem takes_lookBehind {parser parser'' : Parser} (isName : parser.input.kind = .ident)
    (bounded : parser.input.size ≤ size) {a : α} (isOk : (do
      let token ← advance
      next token (← kind) : Parse (Option α)) parser = .ok (some a) parser'') :
    parser''.input.size < parser.input.size := by
  obtain ⟨token, parser', isAdvance, isOk⟩ := lookBehind_eq_ok.1 isOk
  have less := (reads_advance .ident (by decide)).shorter parser bounded isName _ _ isAdvance
  by_cases isKind : kinds parser'.input.kind
  · have less' := (goesOn token _ isKind).shorter parser' (by omega) rfl _ _ isOk
    omega
  · obtain ⟨_, isOk', -⟩ := goesBack_eq_ok goesBack isName isAdvance isKind
    cases isOk.symm.trans isOk'

include begins goesOn goesBack in
theorem reads_lookBehind : Reads 0 size (· = .ident) (do
    let token ← advance
    next token (← kind)) ((some <$> (Rule.ident >>= rule)) <|> do
      Rule.guard (NoneBehindName kinds)
      return none) where
  exact parser bounded isName o rest := by
    have name := (reads_advance .ident (by decide)).exact parser bounded isName
    have fewer := (reads_advance .ident (by decide)).shorter parser bounded isName
    simp only [lookBehind_eq_ok]
    constructor
    · rintro ⟨o', parser'', ⟨token, parser', isAdvance, isOk⟩, rfl, rfl⟩
      have passed := (name _ _).1 ⟨_, _, isAdvance, rfl, rfl⟩
      have less := fewer _ _ isAdvance
      by_cases isKind : kinds parser'.input.kind
      · obtain ⟨a, _, read, isSome, isRest⟩ :=
          ((goesOn token _ isKind).exact parser' (by omega) rfl _ _).1 ⟨_, _, isOk, rfl, rfl⟩
        exact .inl ⟨a, _, ⟨_, _, ⟨_, _, passed, rfl, rfl⟩, read⟩, isSome, isRest⟩
      · obtain ⟨_, isOk', isInput⟩ := goesBack_eq_ok goesBack isName isAdvance isKind
        cases isOk.symm.trans isOk'
        exact .inr ⟨(), _, ⟨(noneBehindName_iff isName passed).2 isKind, rfl⟩, rfl, isInput⟩
    · rintro (⟨a, _, ⟨_, _, ⟨_, _, passed, rfl, rfl⟩, read⟩, rfl, rfl⟩ |
        ⟨_, _, ⟨isNone, rfl⟩, rfl, rfl⟩)
      · obtain ⟨token, parser', isAdvance, rfl, rfl⟩ := (name _ _).2 passed
        have less := fewer _ _ isAdvance
        obtain ⟨o', parser'', isOk, isBare, isRest⟩ :=
          ((goesOn token _ (begins _ _ _ _ read)).exact parser' (by omega) rfl _ _).2
            ⟨a, _, read, rfl, rfl⟩
        exact ⟨o', parser'', ⟨token, parser', isAdvance, isOk⟩, isBare, isRest⟩
      · obtain ⟨first, next, others, isInput, -⟩ := isNone isName
        have passed : Rule.token .ident parser.input first ⟨next :: others, parser.input.loops⟩ := by
          refine ⟨?_, next, others, isInput, rfl⟩
          rw [Input.kind, isInput] at isName
          exact isName
        obtain ⟨token, parser', isAdvance, rfl, isMiddle⟩ := (name _ _).2 passed
        have isOther := (noneBehindName_iff isName passed).1 isNone
        rw [← isMiddle] at isOther
        obtain ⟨parser'', isOk, isRest⟩ := goesBack_eq_ok goesBack isName isAdvance isOther
        exact ⟨none, parser'', ⟨token, parser', isAdvance, isOk⟩, rfl, isRest⟩
  shorter parser bounded isName a parser'' isOk := by
    obtain ⟨token, parser', isAdvance, isOk⟩ := lookBehind_eq_ok.1 isOk
    have less := (reads_advance .ident (by decide)).shorter parser bounded isName _ _ isAdvance
    by_cases isKind : kinds parser'.input.kind
    · have less' := (goesOn token _ isKind).shorter parser' (by omega) rfl _ _ isOk
      omega
    · obtain ⟨_, isOk', isInput⟩ := goesBack_eq_ok goesBack isName isAdvance isKind
      cases isOk.symm.trans isOk'
      exact Nat.le_of_eq (congrArg Input.size isInput)

end

end

theorem repeated_groups_eq {α : Type} (rule : Rule α) (ends : Input → Prop) :
    (do
      let first ← rule
      let others ← repeated do
        let _ ← Rule.token .semicolon
        (some <$> rule) <|> do Rule.guard ends; return none
      return first :: others) = (do
        let as ← Rule.plus do
          let a ← rule
          let _ ← Rule.token .semicolon
          return a
        Rule.guard ends
        return as) :=
  Rule.ext fun input as rest => by
    constructor
    · rintro ⟨first, middle, read, others, _, repeated, rfl, rfl⟩
      induction repeated generalizing input first with
      | done last =>
          obtain ⟨_, _, passed, ⟨_, _, _, isNone, -⟩ | ⟨_, _, ⟨isEnd, rfl⟩, -, rfl⟩⟩ := last
          · cases isNone
          · exact ⟨_, _, ⟨_, _, ⟨_, _, read, _, _, passed, rfl, rfl⟩, [], _, .nil, rfl, rfl⟩, (), _,
              ⟨isEnd, rfl⟩, rfl, rfl⟩
      | more head _ ih =>
          obtain ⟨_, _, passed, ⟨_, _, read', isSome, rfl⟩ | ⟨_, _, _, isNone, -⟩⟩ := head
          · cases isSome
            obtain ⟨_, _, ⟨_, _, one, _, _, many, rfl, rfl⟩, _, _, ends, isCons, rfl⟩ := ih _ _ read'
            cases isCons
            exact ⟨_, _, ⟨_, _, ⟨_, _, read, _, _, passed, rfl, rfl⟩, _, _, .cons one many, rfl, rfl⟩,
              (), _, ends, rfl, rfl⟩
          · cases isNone
    · rintro ⟨_, _, ⟨first, _, ⟨_, behind, read, sign, _, passed, rfl, rfl⟩, others, _, many, rfl, rfl⟩,
        _, _, ⟨isEnd, rfl⟩, rfl, rfl⟩
      refine ⟨_, behind, read, others, _, ?_, rfl, rfl⟩
      clear read
      induction many generalizing behind sign with
      | nil => exact .done ⟨_, _, passed, .inr ⟨(), _, ⟨isEnd, rfl⟩, rfl, rfl⟩⟩
      | cons head _ ih =>
          obtain ⟨_, _, read, _, _, passed', rfl, rfl⟩ := head
          exact .more ⟨_, _, passed, .inl ⟨_, _, read, rfl, rfl⟩⟩ (ih _ _ passed' isEnd)

def noGroup : Input → Prop := NoneBehindName fun kind => kind = .comma ∨ kind = .colon

def noConstant : Input → Prop := NoneBehindName (· = .equal)

theorem begins_groupBehind (type : Rule DataType) (first : String) :
    Rule.Begins (fun kind => kind = .comma ∨ kind = .colon) (Rule.groupBehind type first) := by
  rintro input group rest ⟨_, middle, others, read⟩
  cases others with
  | nil => exact .inr ((Rule.begins_token .colon).bind _ _ _ _ read)
  | cons head _ => exact .inl ((Rule.begins_token .comma).bind _ _ _ _ head)

theorem noneBehindName_of_kind {kinds : TokenKind → Prop} {input : Input}
    (notName : input.kind ≠ .ident) : NoneBehindName kinds input :=
  fun isName => absurd isName notName

theorem reads_noName {α : Type} [Placed α] {size : Nat} {kinds : TokenKind → Prop}
    {front : TokenKind} {rule : Rule α} (notName : front ≠ .ident)
    (begins : Rule.Begins (· = .ident) rule) :
    Reads 0 size (· = front) (pure none : Parse (Option α)) ((some <$> rule) <|> do
      Rule.guard (NoneBehindName kinds)
      return none) := by
  refine Reads.right ((reads_pure rfl).congr fun input o rest isKind => ⟨?_, ?_⟩) (begins.bind _)
    fun _ isKind isName => notName (isKind ▸ isName)
  · rintro ⟨rfl, rfl⟩
    exact ⟨(), rest, ⟨noneBehindName_of_kind (isKind ▸ notName), rfl⟩, rfl, rfl⟩
  · rintro ⟨_, _, ⟨-, rfl⟩, rfl, rfl⟩
    exact ⟨rfl, rfl⟩

theorem reads_nextVarGroup? (size : Nat) : Reads 1 size anyKind (nextVarGroup? size) (do
    let _ ← Rule.token .semicolon
    (some <$> Rule.group Rule.dataType) <|> do Rule.guard noGroup; return none) := by
  refine (reads_expect .semicolon (by decide)).bind fun _ => reads_kind fun front _ => ?_
  by_cases isName : front = .ident
  · subst isName
    rw [if_neg (by simp)]
    refine reads_lookBehind (begins_groupBehind Rule.dataType) (fun token kind isKind => ?_)
      fun token kind isOther => ?_
    · have group := (((reads_varGroup (reads_dataType size).weaken token).map some some
        fun _ => rfl).ofAny : Reads 0 size (· = kind) _ _)
      rcases isKind with rfl | rfl <;> simpa only [map_eq_pure_bind] using group
    · split
      · simp at isOther
      · simp at isOther
      · rfl
  · rw [if_pos isName]
    exact reads_noName isName (Rule.begins_ident.bind _)

theorem bare_vars (groups : List VarGroup) :
    Placed.bare (groups.map Statement.vars) = (Placed.bare groups).map Statement.vars := by
  induction groups with
  | nil => rfl
  | cons first others ih => exact congrArg (Statement.vars first.bare :: ·) ih

theorem reads_varBlock (size : Nat) : Reads 1 size anyKind (varBlock size) (do
    let vars ← Rule.vars
    Rule.guard noGroup
    return vars) := by
  have groups := repeated_groups_eq (Rule.group Rule.dataType) noGroup
  have same : (do
      let vars ← Rule.vars
      Rule.guard noGroup
      return vars) = (do
      let _ ← Rule.token .varWord
      let groups ← (do
        let first ← Rule.group Rule.dataType
        let others ← repeated do
          let _ ← Rule.token .semicolon
          (some <$> Rule.group Rule.dataType) <|> do Rule.guard noGroup; return none
        return first :: others)
      return groups.map Statement.vars) := by
    rw [groups]
    simp only [Rule.vars, bind_assoc, pure_bind]
  rw [same]
  simp only [Rule.group, Rule.ident, bind_assoc, pure_bind]
  refine (reads_expect .varWord (by decide)).bind fun _ =>
    (reads_expect .ident (by decide)).weaken.bind fun first =>
      (reads_varGroup (reads_dataType size).weaken first).bind fun group => ?_
  refine (reads_repeated (Nat.le_refl size) ?_ ?_).bind fun groups => reads_pure ?_
  · simpa only [Rule.group, Rule.ident, bind_assoc, pure_bind] using (reads_nextVarGroup? size).weaken
  · exact fun parser bounded a parser' isOk =>
      (reads_nextVarGroup? size).shorter parser bounded trivial _ _ isOk
  · exact bare_vars (group :: groups)

theorem reads_constantItem (size : Nat) (token : Token) : Reads 1 size anyKind
    (constantItem size token) (Rule.constantBehind token.text) :=
  (reads_expect .equal (by decide)).bind fun _ => (reads_expression size).weaken.bind fun _ =>
    (reads_expect .semicolon (by decide)).weaken.bind fun _ => reads_pure rfl

theorem begins_constantBehind (name : String) :
    Rule.Begins (· = .equal) (Rule.constantBehind name) :=
  (Rule.begins_token .equal).bind _

section

variable (size : Nat)

theorem constantItem_goesOn (token : Token) (kind : TokenKind) (isEqual : kind = .equal) :
    Reads 0 size (· = kind) (if kind = .equal then do return some (← constantItem size token)
      else do backtrack token; return none : Parse (Option Statement))
      (some <$> Rule.constantBehind token.text) := by
  rw [if_pos isEqual, map_eq_pure_bind]
  exact ((reads_constantItem size token).weaken.map some some fun _ => rfl).ofAny

theorem constantItem_goesBack (token : Token) (kind : TokenKind) (isOther : ¬ kind = .equal) :
    (if kind = .equal then do return some (← constantItem size token)
      else do backtrack token; return none : Parse (Option Statement)) =
      (do backtrack token; return none) :=
  if_neg isOther

theorem reads_nextConstant? : Reads 0 size anyKind (nextConstant? size)
    ((some <$> Rule.constant) <|> do Rule.guard noConstant; return none) := by
  refine reads_kind fun front _ => ?_
  by_cases isName : front = .ident
  · subst isName
    rw [if_neg (by simp)]
    exact reads_lookBehind begins_constantBehind (constantItem_goesOn size)
      (constantItem_goesBack size)
  · rw [if_pos isName]
    exact reads_noName isName (Rule.begins_ident.bind _)

theorem takes_nextConstant? {parser parser' : Parser} (bounded : parser.input.size ≤ size)
    {statement : Statement} (isOk : nextConstant? size parser = .ok (some statement) parser') :
    parser'.input.size < parser.input.size := by
  rw [nextConstant?, kind_bind_apply] at isOk
  by_cases isName : parser.input.kind = .ident
  · rw [if_neg (Decidable.not_not.2 isName)] at isOk
    exact takes_lookBehind (constantItem_goesOn size) (constantItem_goesBack size) isName bounded isOk
  · rw [if_pos isName] at isOk
    cases isOk

theorem reads_constBlock : Reads 1 size anyKind (constBlock size) (do
    let consts ← Rule.consts
    Rule.guard noConstant
    return consts) := by
  have same : (do
      let consts ← Rule.consts
      Rule.guard noConstant
      return consts) = (do
      let _ ← Rule.token .constWord
      let first ← Rule.constant
      let others ← repeated ((some <$> Rule.constant) <|> do Rule.guard noConstant; return none)
      return first :: others) := by
    simp only [repeated_eq, Rule.consts, Rule.plus, bind_assoc, pure_bind]
  have named (next : Statement → Rule (List Statement)) : (Rule.constant >>= next) =
      (Rule.token .ident >>= fun name => Rule.constantBehind name.text >>= next) := by
    simp only [Rule.constant, Rule.ident, bind_assoc, pure_bind]
  rw [same]
  simp only [named]
  refine (reads_expect .constWord (by decide)).bind fun _ =>
    (reads_expect .ident (by decide)).weaken.bind fun token =>
      (reads_constantItem size token).weaken.bind fun first => ?_
  exact (reads_repeated (Nat.le_refl size) (reads_nextConstant? size)
    fun parser bounded a parser' isOk => takes_nextConstant? size bounded isOk).bind
      fun others => reads_pure rfl

end

/-! ### Declarations one after the other -/

def SameBefore (kinds : TokenKind → Prop) {α : Type} (rule other : Rule α) : Prop :=
  ∀ input a rest, kinds rest.kind → (rule input a rest ↔ other input a rest)

section

variable {α β : Type} {kinds : TokenKind → Prop} {rule other : Rule α}

theorem SameBefore.orElse {rule' other' : Rule α} (same : SameBefore kinds rule other)
    (same' : SameBefore kinds rule' other') :
    SameBefore kinds (rule <|> rule') (other <|> other') :=
  fun input a rest isKind => or_congr (same input a rest isKind) (same' input a rest isKind)

theorem SameBefore.star (same : SameBefore kinds rule other) (begins : Rule.Begins kinds rule)
    (begins' : Rule.Begins kinds other) : SameBefore kinds (Rule.star rule) (Rule.star other) := by
  -- behind each item comes another one, which begins with such a lexeme, or the rest
  have one {first second : Rule α} (same : SameBefore kinds first second)
      (begins : Rule.Begins kinds first) {input rest : Input} {as : List α}
      (reads : Rule.star first input as rest) (isKind : kinds rest.kind) :
      Rule.star second input as rest ∧ kinds input.kind := by
    induction reads with
    | nil => exact ⟨.nil, isKind⟩
    | cons head tail ih =>
        obtain ⟨others, isMiddle⟩ := ih isKind
        exact ⟨.cons ((same _ _ _ isMiddle).1 head) others, begins _ _ _ head⟩
  intro input as rest isKind
  exact ⟨fun reads => (one same begins reads isKind).1, fun reads =>
    (one (fun input a rest isKind => (same input a rest isKind).symm) begins' reads isKind).1⟩

theorem SameBefore.bind_eq {next : α → Rule β} (same : SameBefore kinds rule other)
    (begins : ∀ a, Rule.Begins kinds (next a)) : (rule >>= next) = (other >>= next) :=
  Rule.ext fun _ _ _ => exists_congr fun a => exists_congr fun _ =>
    and_congr_left fun read => same _ _ _ (begins a _ _ _ read)

theorem sameBefore_guard {holds : Input → Prop} (right : ∀ input, kinds input.kind → holds input) :
    SameBefore kinds (do
      let a ← rule
      Rule.guard holds
      return a) rule := by
  intro input a rest isKind
  constructor
  · rintro ⟨_, _, read, _, _, ⟨-, rfl⟩, rfl, rfl⟩
    exact read
  · exact fun read => ⟨a, rest, read, (), rest, ⟨right rest isKind, rfl⟩, rfl, rfl⟩

end

def endedStorage : Rule (List Statement) :=
  (do
    let vars ← Rule.vars
    Rule.guard noGroup
    return vars) <|> do
  let consts ← Rule.consts
  Rule.guard noConstant
  return consts

theorem begins_endedStorage : Rule.Begins Rule.BeginsStorage endedStorage :=
  (Rule.begins_vars.bind _).union (Rule.begins_consts.bind _)

/-- In front of what is no name, the ends that the parser looks for are there. -/
theorem sameBefore_storage :
    SameBefore (· ≠ .ident) endedStorage (Rule.vars <|> Rule.consts) :=
  (sameBefore_guard fun _ => noneBehindName_of_kind).orElse
    (sameBefore_guard fun _ => noneBehindName_of_kind)

theorem reads_storageAt {size : Nat} {kind : TokenKind} {block : Parse (List Statement)}
    (isBlock : kind = .varWord ∧ block = varBlock size ∨ kind = .constWord ∧ block = constBlock size) :
    Reads 1 size (· = kind) (do return some (← block)) (some <$> endedStorage) := by
  have some_ {block : Parse (List Statement)} (reads : Reads 1 size (· = kind) block endedStorage) :
      Reads 1 size (· = kind) (do return some (← block)) (some <$> endedStorage) := by
    rw [map_eq_pure_bind]
    exact reads.map some some fun _ => rfl
  rcases isBlock with ⟨rfl, rfl⟩ | ⟨rfl, rfl⟩
  · exact some_ ((reads_varBlock size).ofAny.left (Rule.begins_consts.bind _) (by simp))
  · exact some_ ((reads_constBlock size).ofAny.right (Rule.begins_vars.bind _) (by simp))

theorem reads_storageBlocks (size : Nat) : Reads 0 size anyKind (many size (storageBlock? size)) (do
    let blocks ← Rule.star endedStorage
    Rule.ahead fun kind => ¬ Rule.BeginsStorage kind
    return blocks) := by
  refine reads_many (begins_endedStorage.mono fun _ => not_not_intro) (fun kind stops => ?_)
    (fun kind begins => ?_) (Nat.le_refl size)
  · cases kind with
    | varWord | constWord => simp [Rule.BeginsStorage] at stops
    | _ => exact reads_pure rfl
  · rcases Classical.not_not.1 begins with rfl | rfl
    · exact reads_storageAt (.inl ⟨rfl, rfl⟩)
    · exact reads_storageAt (.inr ⟨rfl, rfl⟩)

end Parse

end MiniPascal
