import MiniPascal.Proofs.Printing.Programs

/-!
# Programs with more than one `main`

A callable `main` is printed as the program's own body wherever it stands.  The parser takes it for
that body as well, and refuses what comes behind.
-/

namespace MiniPascal

/-! ### The two parts of a program -/

namespace Rule

def front : Rule (List Statement) := do
  let header ← header
  let declarations ← star (topLevel Parse.noElse)
  ahead (· = .beginWord)
  return header ++ declarations.flatten

def ownBody : Rule (List Statement) := do
  let statements ← body Parse.noElse
  let _ ← token .dot
  return statements

theorem begins_ownBody : Begins (· = .beginWord) ownBody := (begins_body _).bind _

theorem program_parts {input rest : Input} {tree : Program}
    (read : program Parse.noElse input tree rest) :
    ∃ declarations middle statements last, front input declarations middle ∧
      ownBody middle statements last ∧ last.lexemes = [.sign .endOfInput] := by
  obtain ⟨header, _, isHeader, declarations, middle, isFront, statements, _, isBody, dot, last, isDot, _, _,
    ⟨isLast, -⟩, -⟩ := read
  exact ⟨header ++ declarations.flatten, middle, statements, last,
    ⟨header, _, isHeader, declarations, middle, isFront, (), middle, ⟨begins_body _ _ _ _ isBody, rfl⟩, rfl, rfl⟩,
    ⟨statements, _, isBody, dot, last, isDot, rfl, rfl⟩, isLast⟩

end Rule

namespace Parse

def front (fuel : Nat) : Parse (List Statement) := do
  let header ← programHeader
  let declarations ← many fuel (topLevel? fuel)
  if (← kind) = .beginWord then return header ++ declarations.flatten
  else unexpected .beginWord

def ownBody (fuel : Nat) : Parse (List Statement) := do
  let body ← actions fuel
  let _ ← expect .dot
  return body.2

theorem reads_front (size : Nat) : Reads 0 size anyKind (front size) Rule.front := by
  have begins (header : List Statement) (declarations : List (List Statement)) :
      Rule.Begins (· = .beginWord) (do
        Rule.ahead (· = .beginWord)
        return header ++ declarations.flatten) :=
    Rule.begins_ahead.bind _
  refine reads_declarations size (fun header declarations => ?_) begins
  refine reads_kind fun front _ => ?_
  by_cases isBegin : front = .beginWord
  · rw [if_pos isBegin]
    refine Reads.ahead (reads_pure ?_) fun kind isKind => isKind.trans isBegin
    rw [Placed.bare_append, Placed.bare_flatten]
  · rw [if_neg isBegin]
    exact reads_never (fun _ _ _ => nofun)
      fun input statements rest isKind read => isBegin (isKind ▸ begins _ _ _ _ _ read)

theorem reads_ownBody (size : Nat) : Reads 0 size anyKind (ownBody size) Rule.ownBody := by
  refine Reads.weaken (reads_actions size fun body => ?_)
  exact (reads_expect .dot (by decide)).weaken.bind fun _ => reads_pure rfl

end Parse

theorem Parser.exists_of_parse {text : String} {program : Program}
    (parsed : Program.parse text = .ok program) :
    ∃ parser : Parser, parser.input = Input.ofText text := by
  cases isNext : (Lexer.ofText text).next with
  | ok token lexer => exact ⟨_, Parser.input_of_next isNext⟩
  | error error lexer =>
      unfold Program.parse Parser.ofText Parser.ofReader at parsed
      rw [show Lexer.ofReader (Reader.ofText text) = Lexer.ofText text from rfl, isNext] at parsed
      cases parsed

/-- Wherever the front of a text that is parsed ends, there is one body behind it, and nothing behind
the body. -/
theorem Program.ownBody_of_parse {text : String} {program : Program}
    (parsed : Program.parse text = .ok program) {declarations : List Statement} {middle : Input}
    (read : Rule.front (Input.ofText text) declarations middle) :
    ∃ statements last, Rule.ownBody middle statements last ∧ last.lexemes = [.sign .endOfInput] ∧
      ∀ others rest, Rule.ownBody middle others rest → rest = last := by
  obtain ⟨rest, derives⟩ := (parse_iff text program.bare).1 ⟨program, parsed, rfl⟩
  obtain ⟨parser, isInput⟩ := Parser.exists_of_parse parsed
  rw [← isInput] at derives read
  obtain ⟨_, middle', statements, last, isFront, isBody, isLast⟩ := Rule.program_parts derives
  have reads := Parse.reads_front parser.input.size
  obtain ⟨-, rfl⟩ := reads.unique (Nat.le_refl _) trivial read isFront
  obtain ⟨_, behind, isOk, -, rfl⟩ := (reads.exact parser (Nat.le_refl _) trivial _ _).2 read
  exact ⟨statements, last, isBody, isLast, fun others rest isOther =>
    ((Parse.reads_ownBody _).unique (Nat.le_refl _) trivial isOther isBody).2⟩

/-! ### The text of a callable `main` -/

theorem renderItems_cons (depth : Nat) (first second : String) (others : List String) :
    renderItems depth (first :: second :: others) =
      indentation depth ++ first ++ ";\n" ++ renderItems depth (second :: others) := by
  rw [renderItems]
  intro isNil
  cases isNil

namespace Statement

def IsWritten (statement : Statement) : Prop :=
  ∀ depth, ∃ tokens, Writes (statement.render depth) tokens

theorem closed_comment : Closed "\x7b declaration \x7d" [] := rfl

theorem IsStorage.render {declaration : Statement} (isStorage : declaration.IsStorage) (depth : Nat) :
    declaration.render depth = "\x7b declaration \x7d" := by
  cases declaration with
  | vars group | constant name value position => rw [Statement.render]
  | _ => exact isStorage.elim

theorem IsStorage.isWritten {declaration : Statement} (isStorage : declaration.IsStorage) :
    declaration.IsWritten :=
  fun depth => ⟨[], isStorage.render depth ▸ closed_comment.writes⟩

theorem IsAction.isWritten {statement : Statement} {loop : Option LoopId} {next : Nat}
    (isAction : statement.IsAction loop next) : statement.IsWritten := fun depth =>
  have ⟨tokens, writes, _⟩ := rereads statement loop next isAction depth
  ⟨tokens, writes⟩

theorem isWritten_of_mem {loop : Option LoopId} {next : Nat} {actions : List Statement}
    (areActions : AreActions loop next actions) : ∀ action ∈ actions, action.IsWritten := by
  induction actions generalizing next with
  | nil => exact List.forall_mem_nil _
  | cons first others ih => exact List.forall_mem_cons.2 ⟨areActions.1.isWritten, ih areActions.2⟩

theorem closed_items {statements : List Statement}
    (areWritten : ∀ statement ∈ statements, statement.IsWritten) (depth : Nat) :
    ∃ tokens, Closed (renderItems depth (renderAll depth statements)) tokens := by
  induction statements with
  | nil => exact ⟨[], by rw [renderAll, renderItems]; rfl⟩
  | cons first others ih =>
      rw [List.forall_mem_cons] at areWritten
      obtain ⟨tokens, writes⟩ := areWritten.1 depth
      obtain ⟨more, closed⟩ := ih areWritten.2
      have front := (closed_indentation depth).append_writes writes
      cases others with
      | nil =>
          have back : Closed "\n" [] := rfl
          exact ⟨_, by simpa [renderAll, renderItems] using front.append_closed (by decide) back⟩
      | cons second others =>
          have back : Closed ";\n" [.sign .semicolon] := rfl
          refine ⟨tokens ++ .sign .semicolon :: more, ?_⟩
          simpa [renderAll, renderItems] using (front.append_closed (by decide) back).append closed

end Statement

namespace Rule

theorem lines_ownBody {actions : List Statement} {next : Nat}
    (areActions : Statement.AreActions none next actions) :
    ownBody.Lines next (Statement.totalLoops actions)
      (renderBlock 0 (Statement.renderAll 1 actions) ++ ".\n")
      (Statement.bareAll (Statement.normAll actions)) := by
  obtain ⟨tokens, writes, reads⟩ := spells_body areActions 0
  have back : Closed ".\n" [.sign .dot] := rfl
  refine ⟨_, writes.append_closed (by decide) back, fun last others => ?_⟩
  rw [List.append_assoc]
  exact ⟨_, _, reads (.sign .dot) (last :: others), _, _, sign_cons, rfl, rfl⟩

theorem closed_ownBody {items : List String} {tokens : List Token}
    (closed : Closed (renderItems 1 items) tokens) :
    Closed (renderBlock 0 items ++ ".\n") (.sign .beginWord :: (tokens ++ [.sign .endWord, .sign .dot])) := by
  have front : Closed "begin\n" [.sign .beginWord] := rfl
  have back : Closed ".\n" [.sign .dot] := rfl
  have written := ((front.append closed).append (Statement.closed_indentation 0)).append_writes
    Statement.writes_end
  simpa [renderBlock] using written.append_closed (by decide) back

/-- A callable's body, printed as a program's own, is read as one, or a semicolon stands where its first
statement should. -/
theorem ownBody_or_semicolon {statements : List Statement} {next : Nat} (isBody : IsBody next statements) :
    (∃ loops read, ownBody.Lines next loops
      (renderBlock 0 (Statement.renderAll 1 statements) ++ ".\n") read) ∨
    ∃ more, Closed (renderBlock 0 (Statement.renderAll 1 statements) ++ ".\n")
      (.sign .beginWord :: .sign .semicolon :: more) := by
  obtain ⟨declarations, actions, rfl, areStorage, areActions⟩ := isBody
  cases declarations with
  | nil => exact .inl ⟨_, _, lines_ownBody areActions⟩
  | cons first others =>
      rw [List.forall_mem_cons] at areStorage
      have areWritten : ∀ statement ∈ others ++ actions, statement.IsWritten :=
        List.forall_mem_append.2 ⟨fun declaration isIn => (areStorage.2 declaration isIn).isWritten,
          Statement.isWritten_of_mem areActions⟩
      rw [List.cons_append, Statement.renderAll, areStorage.1.render]
      generalize others ++ actions = behind at areWritten
      cases behind with
      | nil =>
          have closed : Closed (renderItems 1 ["\x7b declaration \x7d"]) [] := rfl
          rw [Statement.renderAll]
          exact .inl ⟨0, [], _, closed_ownBody closed, fun last others =>
            ⟨_, _, ⟨_, _, sign_cons, [], _, .nil, _, _, sign_cons, rfl, rfl⟩, _, _, sign_cons, rfl, rfl⟩⟩
      | cons second behind =>
          obtain ⟨more, closed⟩ := Statement.closed_items areWritten 1
          have front : Closed (indentation 1 ++ "\x7b declaration \x7d" ++ ";\n") [.sign .semicolon] := rfl
          rw [Statement.renderAll] at closed ⊢
          have whole := front.append closed
          rw [← renderItems_cons] at whole
          exact .inr ⟨_, closed_ownBody whole⟩

theorem ownBody_or_semicolon_of_main {declaration : Statement} {next : Nat}
    (isTopLevel : declaration.IsTopLevel next) (isMain : declaration.callableName? = some mainName) :
    (∃ loops read, ownBody.Lines next loops (Program.renderTopLevel declaration) read) ∨
      ∃ more, Closed (Program.renderTopLevel declaration) (.sign .beginWord :: .sign .semicolon :: more) := by
  cases declaration with
  | forward heading =>
      have isName : heading.name = mainName := Option.some.inj isMain
      have isBody : IsBody next [] := ⟨[], [], rfl, List.forall_mem_nil _, trivial⟩
      have inBlock := ownBody_or_semicolon isBody
      rw [Statement.renderAll] at inBlock
      rwa [Program.renderTopLevel, if_pos isName]
  | callable heading body =>
      have isName : heading.name = mainName := Option.some.inj isMain
      rw [Program.renderTopLevel, if_pos isName]
      exact ownBody_or_semicolon isTopLevel.2
  | _ => cases isMain

theorem closed_topLevel {declaration : Statement} {next : Nat} (isTopLevel : declaration.IsTopLevel next) :
    ∃ tokens, Closed (Program.renderTopLevel declaration) tokens := by
  by_cases isMain : declaration.callableName? = some mainName
  · rcases ownBody_or_semicolon_of_main isTopLevel isMain with ⟨_, _, tokens, closed, -⟩ | ⟨more, closed⟩
    · exact ⟨tokens, closed⟩
    · exact ⟨_, closed⟩
  · obtain ⟨tokens, closed, -⟩ := lines_topLevel isTopLevel isMain
    exact ⟨tokens, closed⟩

theorem closed_topLevels {declarations : List Statement} {next : Nat}
    (areTopLevel : Statement.AreTopLevel next declarations) :
    ∃ tokens, Closed (String.join (declarations.map Program.renderTopLevel)) tokens := by
  induction declarations generalizing next with
  | nil => exact ⟨[], rfl⟩
  | cons first others ih =>
      obtain ⟨tokens, closed⟩ := closed_topLevel areTopLevel.1
      obtain ⟨more, closed'⟩ := ih areTopLevel.2
      rw [List.map_cons, String.join_cons]
      exact ⟨_, closed.append closed'⟩

end Rule

namespace Program

theorem exists_main {program : Program} (grammatical : program.Grammatical)
    (notOne : ¬ program.HasOneMain) :
    ∃ header before main after position actions,
      program.statements = header ++ (before ++ main :: after) ++ [Parse.mainCallable position actions] ∧
      (header = [] ∨ ∃ name, IsIdentifier name ∧ header = [.program name]) ∧
      Statement.AreTopLevel 0 (before ++ main :: after) ∧
      Statement.AreActions none (Statement.totalLoops (before ++ main :: after)) actions ∧
      (∀ declaration ∈ before, declaration.callableName? ≠ some mainName) ∧
      main.callableName? = some mainName := by
  obtain ⟨header, declarations, position, actions, isProgram, isHeader, areTopLevel, areActions⟩ := grammatical
  have isFound : (declarations.find? fun declaration => declaration.callableName? = some mainName).isSome := by
    rw [List.find?_isSome]
    refine Classical.byContradiction fun noMain => notOne ?_
    rw [HasOneMain, isProgram, List.dropLast_concat, List.forall_mem_append]
    refine ⟨?_, fun declaration isIn isMain => noMain ⟨declaration, isIn, decide_eq_true isMain⟩⟩
    rcases isHeader with rfl | ⟨name, -, rfl⟩
    · exact List.forall_mem_nil _
    · simp [Statement.callableName?]
  obtain ⟨main, isFound⟩ := Option.isSome_iff_exists.1 isFound
  obtain ⟨isMain, before, after, rfl, notMain⟩ := List.find?_eq_some_iff_append.1 isFound
  exact ⟨header, before, main, after, position, actions, isProgram, isHeader, areTopLevel, areActions,
    fun declaration isIn => by simpa using notMain declaration isIn, of_decide_eq_true isMain⟩

end Program

namespace Rule

theorem reads_front {header declarations : List Statement}
    (isHeader : header = [] ∨ ∃ name, IsIdentifier name ∧ header = [.program name])
    (areTopLevel : Statement.AreTopLevel 0 declarations)
    (notMain : ∀ declaration ∈ declarations, declaration.callableName? ≠ some mainName) :
    ∃ tokens, Closed (String.join (header.map Program.renderTopLevel) ++
        String.join (declarations.map Program.renderTopLevel)) tokens ∧
      ∀ rest, Input.kind ⟨rest, Statement.totalLoops declarations⟩ = .beginWord →
        ∃ statements, front ⟨tokens ++ rest, 0⟩ statements ⟨rest, Statement.totalLoops declarations⟩ := by
  obtain ⟨first, closedFirst, readsFirst⟩ := (lines_headers isHeader).reads
  obtain ⟨second, closedSecond, readsSecond⟩ := (lines_topLevels areTopLevel notMain).reads
  refine ⟨first ++ second, closedFirst.append closedSecond, fun rest isBegin => ?_⟩
  have notEmpty : rest ≠ [] := by
    rintro rfl
    cases isBegin
  have isSecond := readsSecond rest notEmpty
  rw [Nat.zero_add] at isSecond
  rw [List.append_assoc]
  exact ⟨_, _, _, readsFirst (second ++ rest) (by simp [notEmpty]), _, _, isSecond, (), _,
    ⟨isBegin, rfl⟩, rfl, rfl⟩

theorem not_ownBody_semicolon {others : List Token} {loops : Nat} {statements : List Statement}
    {rest : Input} :
    ¬ ownBody ⟨.sign .beginWord :: .sign .semicolon :: others, loops⟩ statements rest := by
  rintro ⟨_, _, ⟨_, _, ⟨-, _, _, isCons, rfl⟩, _, _, read, _, _, ⟨isEnd, _, _, isRest, -⟩, -⟩, -⟩
  cases isCons
  cases read with
  | nil =>
      obtain ⟨rfl, -⟩ := List.cons.inj isRest
      cases isEnd
  | cons head _ =>
      have begins := begins_statement _ _ _ _ _ head
      simp [BeginsStatement, Input.kind, Token.plain] at begins

theorem closed_behind {after actions : List Statement} {next next' : Nat}
    (areTopLevel : Statement.AreTopLevel next after)
    (areActions : Statement.AreActions none next' actions) :
    ∃ tokens, tokens ≠ [] ∧ Closed (String.join (after.map Program.renderTopLevel) ++
      (renderBlock 0 (Statement.renderAll 1 actions) ++ ".\n")) tokens := by
  obtain ⟨tokens, closed⟩ := closed_topLevels areTopLevel
  obtain ⟨last, closedLast⟩ := Statement.closed_items (Statement.isWritten_of_mem areActions) 1
  exact ⟨_, by simp, closed.append (closed_ownBody closedLast)⟩

end Rule

namespace Program

/-- Behind the first callable `main` in front of a program's own body, the text goes on. -/
theorem not_parses_render {program : Program} (grammatical : program.Grammatical)
    (notOne : ¬ program.HasOneMain) : ¬ ∃ again, parse program.render = .ok again := by
  rintro ⟨again, parsed⟩
  obtain ⟨header, before, main, after, position, actions, isProgram, isHeader, areTopLevel, areActions,
    notMain, isMain⟩ := exists_main grammatical notOne
  obtain ⟨areBefore, isTopLevel, areAfter⟩ := Statement.areTopLevel_append.1 areTopLevel
  obtain ⟨tokens, closed, readsFront⟩ := Rule.reads_front isHeader areBefore notMain
  obtain ⟨behind, notEmpty, closedBehind⟩ := Rule.closed_behind areAfter areActions
  have isText : program.render = String.join (header.map renderTopLevel) ++
      String.join (before.map renderTopLevel) ++ (renderTopLevel main ++
        (String.join (after.map renderTopLevel) ++
          (renderBlock 0 (Statement.renderAll 1 actions) ++ ".\n"))) := by
    rw [render, isProgram]
    simp [renderTopLevel, Parse.mainCallable, String.append_assoc]
  have isInput {own : List Token} (closedMain : Closed (renderTopLevel main) own) :
      Input.ofText program.render = ⟨tokens ++ (own ++ (behind ++ [.sign .endOfInput])), 0⟩ := by
    rw [Input.ofText, isText, (closed.append (closedMain.append closedBehind)).lexemes]
    simp
  rcases Rule.ownBody_or_semicolon_of_main isTopLevel isMain with ⟨loops, read, lines⟩ | ⟨more, closedMain⟩
  · obtain ⟨own, closedMain, readsMain⟩ := lines.reads
    have isBody := readsMain (behind ++ [.sign .endOfInput]) (by simp)
    rw [Nat.zero_add] at isBody
    obtain ⟨statements, isFront⟩ := readsFront _ (Rule.begins_ownBody _ _ _ isBody)
    rw [← isInput closedMain] at isFront
    obtain ⟨_, last, -, isLast, unique⟩ := ownBody_of_parse parsed isFront
    obtain rfl := unique _ _ isBody
    exact notEmpty (List.append_left_eq_self.1 isLast)
  · obtain ⟨statements, isFront⟩ :=
      readsFront (.sign .beginWord :: .sign .semicolon :: (more ++ (behind ++ [.sign .endOfInput]))) rfl
    have isWhole := isInput closedMain
    simp only [List.cons_append] at isWhole
    rw [← isWhole] at isFront
    obtain ⟨_, _, isBody, -⟩ := ownBody_of_parse parsed isFront
    exact Rule.not_ownBody_semicolon isBody

/-- The printed text of a program that parses is parsed again exactly if its last statement is its
only callable `main`. -/
theorem parse_render_iff {source : String} {program : Program} (parsed : parse source = .ok program) :
    (∃ again, parse program.render = .ok again) ↔ program.HasOneMain := by
  have grammatical := grammatical_of_parse parsed
  constructor
  · intro again
    exact Classical.byContradiction fun notOne => not_parses_render grammatical notOne again
  · intro oneMain
    obtain ⟨again, isAgain, -⟩ := parse_render_of_grammatical grammatical oneMain
    exact ⟨again, isAgain⟩

/-- The theorem at a program with another `main`, whose variable is lost in a comment. -/
theorem parse_render_iff_procedure :
    ∃ program, parse "procedure main; var x: integer; begin x := 1 end; begin end." = .ok program ∧
      ¬ ∃ again, parse program.render = .ok again := by
  obtain ⟨program, parsed, notOne⟩ := exists_of_any
    "procedure main; var x: integer; begin x := 1 end; begin end."
    (fun program => decide (¬ program.HasOneMain)) (by decide +kernel)
  have notOne := of_decide_eq_true notOne
  exact ⟨program, parsed, fun again => notOne ((parse_render_iff parsed).1 again)⟩

/-- A `main` that is declared forward is printed as a whole body. -/
theorem parse_render_forward_main :
    ∃ program, parse "function main: integer; forward; begin end." = .ok program ∧
      ¬ ∃ again, parse program.render = .ok again := by
  obtain ⟨program, parsed, notOne⟩ := exists_of_any "function main: integer; forward; begin end."
    (fun program => decide (¬ program.HasOneMain)) (by decide +kernel)
  exact ⟨program, parsed,
    not_parses_render (grammatical_of_parse parsed) (of_decide_eq_true notOne)⟩

end Program

end MiniPascal
