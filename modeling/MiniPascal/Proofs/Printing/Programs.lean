import MiniPascal.Proofs.Parser.Declarations
import MiniPascal.Proofs.Printing.Declarations
import MiniPascal.Proofs.Tree.Names

/-!
# Printed programs are read again

A program is printed as the lines of its declarations with its own body behind them.
-/

namespace MiniPascal

theorem Statement.bareAll_normAll (statements : List Statement) :
    Statement.bareAll (Statement.normAll statements) =
      statements.map fun statement => statement.norm.bare := by
  rw [Statement.bareAll_eq, Statement.normAll_eq]
  exact List.map_map

namespace Rule

variable {α : Type} {rule : Rule α} {next loops : Nat}

theorem Lines.reads {text : String} {a : α} (lines : rule.Lines next loops text a) :
    ∃ tokens, Closed text tokens ∧
      ∀ rest, rest ≠ [] → rule ⟨tokens ++ rest, next⟩ a ⟨rest, next + loops⟩ := by
  obtain ⟨tokens, closed, reads⟩ := lines
  refine ⟨tokens, closed, fun rest notEmpty => ?_⟩
  obtain ⟨last, others, rfl⟩ := List.exists_cons_of_ne_nil notEmpty
  exact reads last others

theorem lines_nil : (star rule).Lines next 0 "" [] :=
  ⟨[], rfl, fun _ _ => .nil⟩

theorem lines_cons {text texts : String} {a : α} {as : List α} {more : Nat}
    (first : rule.Lines next loops text a) (others : (star rule).Lines (next + loops) more texts as) :
    (star rule).Lines next (loops + more) (text ++ texts) (a :: as) := by
  obtain ⟨tokens, closed, reads⟩ := first.reads
  obtain ⟨tokens', closed', reads'⟩ := others
  refine ⟨tokens ++ tokens', closed.append closed', fun last behind => ?_⟩
  have read := reads' last behind
  rw [Nat.add_assoc] at read
  rw [List.append_assoc]
  exact .cons (reads _ (by simp)) read

/-! ### Bodies -/

theorem spells_body {actions : List Statement} (areActions : Statement.AreActions none next actions)
    (depth : Nat) :
    ∃ tokens, Writes (renderBlock depth (Statement.renderAll (depth + 1) actions)) tokens ∧
      ∀ last others, body Parse.noElse ⟨tokens ++ last :: others, next⟩
        (Statement.bareAll (Statement.normAll actions))
        ⟨last :: others, next + Statement.totalLoops actions⟩ := by
  obtain ⟨tokens, closed, reads⟩ := Statement.rereadAll actions none next areActions (depth + 1)
  have front : Closed "begin\n" [.sign .beginWord] := rfl
  have writes := ((front.append closed).append (Statement.closed_indentation depth)).append_writes
    Statement.writes_end
  refine ⟨_, writes, fun last others => ?_⟩
  simp only [List.append_assoc, List.cons_append, List.nil_append]
  exact ⟨_, _, sign_append, _, _, reads last others, _, _, sign_cons, rfl, rfl⟩

theorem lines_storages {declarations : List Statement}
    (areStorage : ∀ declaration ∈ declarations, declaration.IsStorage) (depth next : Nat) :
    (star (vars <|> consts)).Lines next 0
      (String.join (declarations.map (Statement.renderDeclaration depth)))
      (declarations.map fun declaration => [declaration.norm.bare]) := by
  induction declarations with
  | nil => exact lines_nil
  | cons first others ih =>
      rw [List.forall_mem_cons] at areStorage
      rw [List.map_cons, String.join_cons]
      exact lines_cons (lines_storage areStorage.1 depth next) (ih areStorage.2)

theorem renderBody_eq {declarations actions : List Statement}
    (areStorage : ∀ declaration ∈ declarations, declaration.IsStorage)
    (areActions : Statement.AreActions none next actions) (depth : Nat) :
    Statement.renderBody depth (declarations ++ actions) =
      String.join (declarations.map (Statement.renderDeclaration (depth + 1))) ++
        (indentation depth ++ renderBlock depth (Statement.renderAll (depth + 1) actions)) := by
  induction declarations with
  | nil =>
      cases actions with
      | nil => simp [Statement.renderBody, Statement.renderAll]
      | cons first others => simp [Statement.renderBody, areActions.1.isDeclaration]
  | cons first others ih =>
      rw [List.forall_mem_cons] at areStorage
      rw [List.cons_append, Statement.renderBody, if_pos areStorage.1.isDeclaration, ih areStorage.2]
      simp [String.append_assoc]

/-! ### Callables -/

theorem lines_forward {heading : Heading} (fits : heading.Fits) (depth next : Nat) :
    (callable Parse.noElse).Lines next 0 ((Statement.forward heading).renderDeclaration depth)
      (Statement.forward heading).norm.bare := by
  obtain ⟨tokens, writes, reads⟩ := spells_heading fits
  have back : Closed "; forward;\n" [.sign .semicolon, .sign .forwardWord, .sign .semicolon] := rfl
  have closed := ((Statement.closed_indentation depth).append_writes writes).append_closed (by decide) back
  rw [← Statement.renderDeclaration] at closed
  refine ⟨_, closed, fun last others => ?_⟩
  simp only [List.append_assoc, List.cons_append, List.nil_append]
  exact ⟨_, _, reads _ _ _ trivial, _, _, sign_cons, .inl ⟨_, _, sign_cons, _, _, sign_cons, rfl, rfl⟩⟩

/-- Declarations are read one block at a time, each a single declaration. -/
theorem flatten_declarations (declarations : List Statement) :
    (declarations.map fun declaration => [declaration.norm.bare]).flatten =
      declarations.map fun declaration => declaration.norm.bare := by
  rw [← List.flatMap_def, ← List.map_eq_flatMap]

theorem lines_callable {heading : Heading} {statements : List Statement} (fits : heading.Fits)
    (isBody : IsBody next statements) (depth : Nat) :
    (callable Parse.noElse).Lines next (Statement.totalLoops statements)
      ((Statement.callable heading statements).renderDeclaration depth)
      (Statement.callable heading statements).norm.bare := by
  obtain ⟨declarations, actions, rfl, areStorage, areActions⟩ := isBody
  obtain ⟨tokens, writes, reads⟩ := spells_heading fits
  obtain ⟨lines, closedLines, readsLines⟩ := lines_storages areStorage (depth + 1) next
  obtain ⟨block, writesBlock, readsBlock⟩ := spells_body areActions depth
  have indented := Statement.closed_indentation depth
  have back : Closed ";\n" [.sign .semicolon] := rfl
  have closed := (((((indented.append_writes writes).append_closed (by decide) back).append
    closedLines).append indented).append_writes writesBlock).append_closed (by decide) back
  have isText : (Statement.callable heading (declarations ++ actions)).renderDeclaration depth =
      indentation depth ++ heading.render ++ ";\n" ++
        String.join (declarations.map (Statement.renderDeclaration (depth + 1))) ++
        indentation depth ++ renderBlock depth (Statement.renderAll (depth + 1) actions) ++ ";\n" := by
    rw [Statement.renderDeclaration, renderBody_eq areStorage areActions]
    simp only [String.append_assoc]
  have isTree : (Statement.callable heading (declarations ++ actions)).norm.bare =
      .callable heading.norm.bare ((declarations.map fun declaration => [declaration.norm.bare]).flatten ++
        Statement.bareAll (Statement.normAll actions)) := by
    rw [flatten_declarations, Statement.bareAll_normAll, ← List.map_append, ← Statement.bareAll_normAll]
    rfl
  rw [isText, isTree, Statement.totalLoops_append, Statement.totalLoops_of_storage areStorage, Nat.zero_add]
  refine ⟨_, closed, fun last others => ?_⟩
  have readBlock := readsBlock (.sign .semicolon) (last :: others)
  simp only [List.append_assoc, List.cons_append, List.nil_append]
  obtain ⟨first, rest, isCons⟩ :=
    List.exists_cons_of_ne_nil (show block ++ .sign .semicolon :: last :: others ≠ [] by simp)
  rw [isCons] at readBlock ⊢
  exact ⟨_, _, reads _ _ _ trivial, _, _, sign_append, .inr ⟨_, _, readsLines first rest, _, _, readBlock,
    _, _, sign_cons, rfl, rfl⟩⟩

/-! ### Programs -/

theorem lines_topLevel {declaration : Statement} (isTopLevel : declaration.IsTopLevel next)
    (notMain : declaration.callableName? ≠ some mainName) :
    (topLevel Parse.noElse).Lines next declaration.loops (Program.renderTopLevel declaration)
      [declaration.norm.bare] := by
  have storage (isStorage : declaration.IsStorage)
      (isText : Program.renderTopLevel declaration = declaration.renderDeclaration 0) :
      (topLevel Parse.noElse).Lines next declaration.loops (Program.renderTopLevel declaration)
        [declaration.norm.bare] := by
    obtain ⟨tokens, closed, reads⟩ := lines_storage isStorage 0 next
    rw [isText, isStorage.loops]
    exact ⟨tokens, closed, fun last others => .inr (reads last others)⟩
  cases declaration with
  | forward heading =>
      have notName : heading.name ≠ mainName := fun isMain => notMain (congrArg some isMain)
      obtain ⟨tokens, closed, reads⟩ := lines_forward isTopLevel 0 next
      rw [Program.renderTopLevel, if_neg notName]
      exact ⟨tokens, closed, fun last others => .inl ⟨_, _, reads last others, rfl, rfl⟩⟩
  | callable heading body =>
      have notName : heading.name ≠ mainName := fun isMain => notMain (congrArg some isMain)
      obtain ⟨tokens, closed, reads⟩ := lines_callable isTopLevel.1 isTopLevel.2 0
      rw [Program.renderTopLevel, if_neg notName]
      exact ⟨tokens, closed, fun last others => .inl ⟨_, _, reads last others, rfl, rfl⟩⟩
  | vars group | constant name value position => exact storage isTopLevel rfl
  | _ => exact isTopLevel.elim

theorem lines_topLevels {declarations : List Statement}
    (areTopLevel : Statement.AreTopLevel next declarations)
    (notMain : ∀ declaration ∈ declarations, declaration.callableName? ≠ some mainName) :
    (star (topLevel Parse.noElse)).Lines next (Statement.totalLoops declarations)
      (String.join (declarations.map Program.renderTopLevel))
      (declarations.map fun declaration => [declaration.norm.bare]) := by
  induction declarations generalizing next with
  | nil => exact lines_nil
  | cons first others ih =>
      rw [List.forall_mem_cons] at notMain
      rw [List.map_cons, String.join_cons]
      exact lines_cons (lines_topLevel areTopLevel.1 notMain.1) (ih areTopLevel.2 notMain.2)

theorem lines_header {name : String} (isIdentifier : IsIdentifier name) :
    header.Lines 0 0 (Program.renderTopLevel (.program name)) [(Statement.program name).norm.bare] := by
  have front : Closed "program " [.sign .programWord] := rfl
  have back : Closed ";\n" [.sign .semicolon] := rfl
  have closed := (((Statement.closed_indentation 0).append front).append_writes
    (writes_ident isIdentifier)).append_closed (by decide) back
  rw [← Statement.renderDeclaration] at closed
  exact ⟨_, closed, fun last others =>
    .inl ⟨_, _, sign_cons, _, _, ident_cons, _, _, sign_cons, rfl, rfl⟩⟩

theorem lines_headers {statements : List Statement}
    (isHeader : statements = [] ∨ ∃ name, IsIdentifier name ∧ statements = [.program name]) :
    header.Lines 0 0 (String.join (statements.map Program.renderTopLevel))
      (statements.map fun statement => statement.norm.bare) := by
  rcases isHeader with rfl | ⟨name, isIdentifier, rfl⟩
  · exact ⟨[], rfl, fun _ _ => .inr ⟨rfl, rfl⟩⟩
  · simpa using lines_header isIdentifier

end Rule

namespace Program

theorem derives_render {program : Program} (grammatical : program.Grammatical)
    (oneMain : program.HasOneMain) :
    ∃ tokens rest, Closed program.render tokens ∧
      Rule.program Parse.noElse ⟨tokens ++ [.sign .endOfInput], 0⟩ program.norm.bare rest := by
  obtain ⟨header, declarations, position, actions, isProgram, isHeader, areTopLevel, areActions⟩ :=
    grammatical
  obtain ⟨statements⟩ := program
  obtain rfl : statements = _ := isProgram
  rw [HasOneMain, List.dropLast_concat] at oneMain
  obtain ⟨first, closedFirst, readsFirst⟩ := (Rule.lines_headers isHeader).reads
  obtain ⟨middle, closedMiddle, readsMiddle⟩ := (Rule.lines_topLevels areTopLevel fun declaration isIn =>
    oneMain declaration (List.mem_append_right header isIn)).reads
  obtain ⟨block, writesBlock, readsBlock⟩ := Rule.spells_body areActions 0
  have back : Closed ".\n" [.sign .dot] := rfl
  have closed := (closedFirst.append closedMiddle).append (writesBlock.append_closed (by decide) back)
  have isText : (⟨header ++ declarations ++ [Parse.mainCallable position actions]⟩ : Program).render =
      String.join (header.map renderTopLevel) ++ String.join (declarations.map renderTopLevel) ++
        (renderBlock 0 (Statement.renderAll 1 actions) ++ ".\n") := by
    simp [render, renderTopLevel, Parse.mainCallable, String.append_assoc]
  have isTree : (⟨header ++ declarations ++ [Parse.mainCallable position actions]⟩ : Program).norm.bare =
      ⟨(header.map fun statement => statement.norm.bare) ++
        (declarations.map fun declaration => [declaration.norm.bare]).flatten ++
        [Parse.mainCallable .nowhere (Statement.bareAll (Statement.normAll actions))]⟩ := by
    rw [Rule.flatten_declarations, norm, bare, Statement.bareAll_normAll]
    simp only [List.map_append, List.map_cons, List.map_nil]
    rfl
  rw [isText, isTree]
  refine ⟨_, ⟨[.sign .endOfInput], Statement.totalLoops declarations + Statement.totalLoops actions⟩,
    closed, ?_⟩
  simp only [Nat.zero_add] at readsMiddle
  simp only [List.append_assoc, List.cons_append, List.nil_append]
  refine ⟨_, _, readsFirst _ (by simp), _, _, readsMiddle _ (by simp), _, _, readsBlock _ _, _, _,
    Rule.sign_cons, (), _, ⟨rfl, rfl⟩, ?_, rfl⟩
  rw [List.append_assoc]

/-- A grammatical program in which only the last statement is a callable `main` is parsed again from its
text, up to positions as its normal form. -/
theorem parse_render_of_grammatical {program : Program} (grammatical : program.Grammatical)
    (oneMain : program.HasOneMain) :
    ∃ again, parse program.render = .ok again ∧ again.bare = program.norm.bare := by
  obtain ⟨tokens, rest, closed, derives⟩ := derives_render grammatical oneMain
  refine (parse_iff program.render program.norm.bare).2 ⟨rest, ?_⟩
  rw [Input.ofText, closed.lexemes]
  exact derives

/-- What is parsed is parsed again from its printed text, up to positions as its normal form, if its
last statement is its only callable `main`. -/
theorem parse_render {source : String} {program : Program} (parsed : parse source = .ok program)
    (oneMain : program.HasOneMain) :
    ∃ again, parse program.render = .ok again ∧ again.bare = program.norm.bare :=
  parse_render_of_grammatical (grammatical_of_parse parsed) oneMain

/-- The theorem at a program with a wrapped number, a call without arguments and a branch in front of
an `else`. -/
theorem parse_render_else :
    ∃ program, parse "function f: integer; begin f := 4294967295 end; var x: integer;
        begin if x = f() then x := 2147483648 else for x := 1 to f() do break end." = .ok program ∧
      program.HasOneMain ∧
      ∃ again, parse program.render = .ok again ∧ again.bare = program.norm.bare := by
  obtain ⟨program, parsed, oneMain⟩ := exists_of_any
    "function f: integer; begin f := 4294967295 end; var x: integer;
        begin if x = f() then x := 2147483648 else for x := 1 to f() do break end."
    (fun program => decide program.HasOneMain) (by decide +kernel)
  have oneMain := of_decide_eq_true oneMain
  exact ⟨program, parsed, oneMain, parse_render parsed oneMain⟩

end Program

end MiniPascal
