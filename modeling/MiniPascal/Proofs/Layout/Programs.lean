import MiniPascal.Proofs.Layout.Order
import MiniPascal.Proofs.Layout.Translation
import MiniPascal.Proofs.Lowering.Forwards

/-!
# Compiling does not depend on layout

Two texts with the same lexemes are compiled to the same module, or both fail with the same error up
to its position, whatever stands between the lexemes and however they are spelled.  The one place
where positions are compared is the last check of a translation; it goes by the order of forward
declarations, which the texts have in common.
-/

namespace MiniPascal

def CompileError.bare : CompileError → CompileError
  | parse error => parse error.bare
  | semantic error => semantic error.bare

/-! ### Trees that are the same up to positions -/

namespace Lower

variable {α : Type} {first second third : Lower α}

theorem Same.symm (same : Same Eq first second) : Same Eq second first := by
  intro state state' alike
  have result := same state' state alike.symm
  generalize first state' = one at result
  generalize second state = other at result
  cases result with
  | ok related alike => exact .ok related.symm alike.symm
  | error same => exact .error same.symm

theorem Same.trans (h₁ : Same Eq first second) (h₂ : Same Eq second third) : Same Eq first third := by
  intro state state' alike
  have result := h₁ state state (.refl state)
  have result' := h₂ state state' alike
  generalize first state = one at result
  generalize second state = two at result result'
  generalize third state' = three at result'
  cases result with
  | ok related alike =>
      cases result' with
      | ok related' alike' => exact .ok (related.trans related') (alike.trans alike')
  | error same =>
      cases result' with
      | error same' => exact .error (same.trans same')

/-- Trees that are the same up to positions are translated in the same way. -/
theorem same_of_bare {program program' : Program} (same : program.bare = program'.bare) :
    Same Eq (statements program.statements) (statements program'.statements) := by
  have bare : Statement.bareAll program.statements = Statement.bareAll program'.statements :=
    congrArg Program.statements same
  exact (same_statements _).trans (bare ▸ (same_statements program'.statements).symm)

end Lower

/-! ### The last check -/

theorem map_name_forwardHeadings (statements : List Statement) :
    (forwardHeadings (Statement.bareAll statements)).map Heading.name =
      (forwardHeadings statements).map Heading.name := by
  induction statements with
  | nil => rfl
  | cons first others ih =>
      cases first with
      | forward heading => exact congrArg (heading.name :: ·) ih
      | _ => exact ih

theorem name_of_first (holds : String → Prop) {headings headings' : List Heading}
    (ordered : headings.Pairwise fun first second => first.position.before second.position = true)
    (ordered' : headings'.Pairwise fun first second => first.position.before second.position = true)
    (same : headings.map Heading.name = headings'.map Heading.name)
    {heading heading' : Heading} (isIn : heading ∈ headings) (isIn' : heading' ∈ headings')
    (isHeld : holds heading.name) (isHeld' : holds heading'.name)
    (least : ∀ other ∈ headings, holds other.name → other.position.before heading.position = false)
    (least' : ∀ other ∈ headings', holds other.name →
      other.position.before heading'.position = false) : heading.name = heading'.name := by
  induction headings generalizing headings' with
  | nil => simp at isIn
  | cons first others ih =>
      cases headings' with
      | nil => simp at isIn'
      | cons first' others' =>
          rw [List.map_cons, List.map_cons, List.cons.injEq] at same
          rw [List.pairwise_cons] at ordered ordered'
          rw [List.mem_cons] at isIn isIn'
          by_cases isFirst : holds first.name
          · have notLater : heading ∉ others := fun isLater => by
              simpa [ordered.1 heading isLater] using least first (by simp) isFirst
            have notLater' : heading' ∉ others' := fun isLater => by
              simpa [ordered'.1 heading' isLater] using least' first' (by simp) (same.1 ▸ isFirst)
            rw [isIn.resolve_right notLater, isIn'.resolve_right notLater', same.1]
          · have notFirst : heading ≠ first := fun isSame => isFirst (isSame ▸ isHeld)
            have notFirst' : heading' ≠ first' := fun isSame =>
              isFirst (same.1 ▸ isSame ▸ isHeld')
            exact ih ordered.2 ordered'.2 same.2 (isIn.resolve_left notFirst)
              (isIn'.resolve_left notFirst')
              (fun other isOther => least other (List.mem_cons_of_mem _ isOther))
              fun other isOther => least' other (List.mem_cons_of_mem _ isOther)

section

variable {state : Lowering} {program : Program}
  (lists : Lower.Lists state program.statements)

include lists

/-- Complaints are about the first heading whose name is no global. -/
theorem Lower.Lists.first_of_finish {error : SemanticError} {state' : Lowering}
    (failed : Lower.finish state = .error error state') :
    ∃ heading ∈ forwardHeadings program.statements,
      error = .forwardNeverDefined heading.name heading.position ∧
      state.symbols.globals.has heading.name = false ∧
      ∀ other ∈ forwardHeadings program.statements,
        state.symbols.globals.has other.name = false →
          other.position.before heading.position = false := by
  obtain ⟨name, entry, rfl, isIn, least⟩ := Lower.finish_eq_error failed
  obtain ⟨isEntry, notGlobal⟩ := List.mem_filter.1 isIn
  obtain ⟨heading, isForward, rfl, -, position, -⟩ := lists.forwards name entry isEntry
  refine ⟨heading, mem_forwardHeadings.2 isForward, by rw [position], by simpa using notGlobal, ?_⟩
  intro other isOther notGlobal
  obtain ⟨found, isFound, -, isPosition⟩ := lists.listed other (mem_forwardHeadings.1 isOther)
  rw [← position, ← isPosition]
  exact least (other.name, found)
    (List.mem_filter.2 ⟨Table.mem_of_lookup isFound, by simp [notGlobal]⟩)

end

theorem Lower.undefinedForwards_congr {state state' : Lowering} (alike : state.Alike state') :
    Table.bare state.symbols.undefinedForwards = Table.bare state'.symbols.undefinedForwards := by
  have filtered (table : Table) (globals : Table) :
      Table.bare (table.filter fun item => !globals.has item.1) =
        (Table.bare table).filter fun item => !globals.has item.1 := by
    rw [Table.bare, Table.bare, List.filter_map]
    rfl
  have globals (name : String) : state.symbols.globals.has name = state'.symbols.globals.has name :=
    Table.has_congr alike.symbols.globals name
  unfold SymbolTable.undefinedForwards
  simp only [globals]
  exact (filtered _ _).trans (alike.symbols.forwards ▸ (filtered _ _).symm)

theorem Lower.finish_of_ne_nil {state : Lowering} (notNil : state.symbols.undefinedForwards ≠ []) :
    ∃ error state', Lower.finish state = .error error state' := by
  rw [finish, get_bind]
  cases isCons : state.symbols.undefinedForwards with
  | nil => exact absurd isCons notNil
  | cons first others => exact ⟨_, _, rfl⟩

/-- Programs that are the same up to positions and have their forward declarations in order are
translated to the same module, or fail in the same way. -/
theorem Program.lower_layout {program program' : Program} (moduleName : String)
    (grammatical : program.Grammatical) (grammatical' : program'.Grammatical)
    (ordered : (forwardHeadings program.statements).Pairwise fun first second =>
      first.position.before second.position = true)
    (ordered' : (forwardHeadings program'.statements).Pairwise fun first second =>
      first.position.before second.position = true)
    (same : program.bare = program'.bare) :
    (program.lower moduleName).mapError SemanticError.bare =
      (program'.lower moduleName).mapError SemanticError.bare := by
  rw [lower_eq, lower_eq]
  have result := Lower.same_of_bare same _ _ (.refl (Lowering.initial moduleName))
  cases translated : Lower.statements program.statements (Lowering.initial moduleName) with
  | error error state =>
      rw [translated] at result
      generalize translated' : Lower.statements program'.statements _ = other at result
      cases result with | error same => ?_
      rw [bind_of_error _ translated, bind_of_error _ translated']
      exact congrArg Except.error same
  | ok ending state =>
      rw [translated] at result
      generalize translated' : Lower.statements program'.statements _ = other at result
      cases result with | @ok _ ending' _ state' related alike => ?_
      rw [bind_of_ok _ translated, bind_of_ok _ translated']
      have undefined := Lower.undefinedForwards_congr alike
      by_cases isNil : state.symbols.undefinedForwards = []
      · have isNil' : state'.symbols.undefinedForwards = [] := by
          rw [isNil] at undefined
          exact List.map_eq_nil_iff.1 undefined.symm
        rw [Lower.finish_of_nil isNil, Lower.finish_of_nil isNil']
        exact congrArg (fun builder => Except.ok (IR.Builder.ir builder)) alike.builder
      · have notNil' : state'.symbols.undefinedForwards ≠ [] := fun isNil' => by
          rw [isNil'] at undefined
          exact isNil (List.map_eq_nil_iff.1 undefined)
        obtain ⟨error, last, failed⟩ := Lower.finish_of_ne_nil isNil
        obtain ⟨error', last', failed'⟩ := Lower.finish_of_ne_nil notNil'
        have lists := Lowering.lists_of_statements grammatical translated
        have lists' := Lowering.lists_of_statements grammatical' translated'
        obtain ⟨heading, isIn, rfl, notGlobal, least⟩ := lists.first_of_finish failed
        obtain ⟨heading', isIn', rfl, notGlobal', least'⟩ := lists'.first_of_finish failed'
        -- both complain about the first heading that is not defined, which has the same name
        have names : (forwardHeadings program.statements).map Heading.name =
            (forwardHeadings program'.statements).map Heading.name := by
          rw [← map_name_forwardHeadings, ← map_name_forwardHeadings program'.statements]
          exact congrArg (fun program => (forwardHeadings (Program.statements program)).map
            Heading.name) same
        have globals (name : String) := Table.has_congr alike.symbols.globals name
        have sameName := name_of_first (fun name => state.symbols.globals.has name = false) ordered
          ordered' names isIn isIn' notGlobal ((globals _).trans notGlobal') least
            fun other isOther notGlobal => least' other isOther ((globals _) ▸ notGlobal)
        rw [failed, failed', sameName]
        rfl

/-! ### Whole texts -/

/-- Texts with the same lexemes are parsed to trees that are the same up to positions, or fail in the
same way. -/
theorem Program.parse_layout {first second : String}
    (same : (Lexer.ofText first).lexemes.map Token.bare = (Lexer.ofText second).lexemes.map Token.bare)
    (sameEnd : (Lexer.ofText first).ending.map LexError.bare =
      (Lexer.ofText second).ending.map LexError.bare) :
    (∃ program program', Program.parse first = .ok program ∧ Program.parse second = .ok program' ∧
      program.bare = program'.bare) ∨
    ∃ error error', Program.parse first = .error error ∧ Program.parse second = .error error' ∧
      error.bare = error'.bare := by
  unfold Program.parse
  rcases Parser.ofText_cases first with ⟨parser, isParser, lexemes, ending, loops, settled, -⟩ |
      ⟨error, isError, noLexemes, ending⟩
  · rcases Parser.ofText_cases second with
      ⟨parser', isParser', lexemes', ending', loops', settled', -⟩ | ⟨error', isError', noLexemes', -⟩
    · have alike : parser.Alike parser' := by
        refine ⟨?_, by rw [ending, ending', sameEnd], settled, settled'⟩
        rw [Parser.input, Parser.input, lexemes, lexemes', loops, loops', same]
      have bounded := parser.input_size_le_fuel
      have bounded' := parser'.input_size_le_fuel
      rw [Input.size, Parser.input, List.length_map] at bounded bounded'
      have result := Parse.sameResult_programWith alike bounded (alike.length ▸ bounded')
      have run (parser : Parser) : Parse.program parser = Parse.programWith parser.fuel parser := rfl
      rw [isParser, isParser']
      dsimp only
      rw [run, run]
      generalize Parse.programWith parser.fuel parser = one at result
      generalize Parse.programWith parser'.fuel parser' = other at result
      cases result with
      | ok same => exact .inl ⟨_, _, rfl, rfl, same⟩
      | error same fuelled => exact .inr ⟨_, _, rfl, rfl, same⟩
    · rw [noLexemes', List.map_nil, List.map_eq_nil_iff, ← lexemes] at same
      exact absurd same (parser.lexer.lexemesFrom_ne_nil parser.current)
  · rcases Parser.ofText_cases second with
      ⟨parser', isParser', lexemes', -⟩ | ⟨error', isError', -, ending'⟩
    · rw [noLexemes, List.map_nil, eq_comm, List.map_eq_nil_iff, ← lexemes'] at same
      exact absurd same (parser'.lexer.lexemesFrom_ne_nil parser'.current)
    · rw [ending, ending'] at sameEnd
      rw [isError, isError']
      exact .inr ⟨_, _, rfl, rfl, congrArg ParseError.lexical (Option.some.inj sameEnd)⟩

theorem mapError_compile {source moduleName : String} {program : Program}
    (parsed : Program.parse source = .ok program) :
    (compile source moduleName).mapError CompileError.bare =
      ((program.lower moduleName).mapError SemanticError.bare).mapError CompileError.semantic := by
  unfold compile
  rw [parsed]
  dsimp only
  cases program.lower moduleName <;> rfl

/-- Texts that have the same lexemes, drawn as a parser draws them, and come to their ends in the same
way, with or without an error, are compiled to the same module, or fail with the same error up to its
position. -/
theorem compile_layout {first second : String} (moduleName : String)
    (same : (Lexer.ofText first).lexemes.map Token.bare = (Lexer.ofText second).lexemes.map Token.bare)
    (sameEnd : (Lexer.ofText first).ending.map LexError.bare =
      (Lexer.ofText second).ending.map LexError.bare) :
    (compile first moduleName).mapError CompileError.bare =
      (compile second moduleName).mapError CompileError.bare := by
  rcases Program.parse_layout same sameEnd with ⟨program, program', parsed, parsed', sameTree⟩ |
      ⟨error, error', failed, failed', sameError⟩
  · have lowered := Program.lower_layout moduleName (Program.grammatical_of_parse parsed)
      (Program.grammatical_of_parse parsed') (Program.forwards_in_order parsed)
      (Program.forwards_in_order parsed') sameTree
    rw [mapError_compile parsed, mapError_compile parsed', lowered]
  · unfold compile
    rw [failed, failed']
    exact congrArg (fun error => Except.error (CompileError.parse error)) sameError

/-- The theorem at two texts that differ in blanks, a comment, line breaks and the spelling of a
number, and leave two callables undefined. -/
theorem compile_layout_forwards :
    (Lexer.ofText "procedure p; forward; procedure q; forward; begin writeln(10) end.").lexemes.map
        Token.bare =
      (Lexer.ofText "{p}\nprocedure  p;\n forward;procedure\nq;forward;begin\nwriteln ( $a )end .").lexemes.map
        Token.bare ∧
    (Lexer.ofText "procedure p; forward; procedure q; forward; begin writeln(10) end.").ending.map
        LexError.bare =
      (Lexer.ofText "{p}\nprocedure  p;\n forward;procedure\nq;forward;begin\nwriteln ( $a )end .").ending.map
        LexError.bare ∧
    (compile "procedure p; forward; procedure q; forward; begin writeln(10) end." "example").mapError
        CompileError.bare =
      (compile "{p}\nprocedure  p;\n forward;procedure\nq;forward;begin\nwriteln ( $a )end ."
        "example").mapError CompileError.bare := by
  have same : (Lexer.ofText
      "procedure p; forward; procedure q; forward; begin writeln(10) end.").lexemes.map Token.bare =
    (Lexer.ofText
      "{p}\nprocedure  p;\n forward;procedure\nq;forward;begin\nwriteln ( $a )end .").lexemes.map
        Token.bare := by decide +kernel
  have sameEnd : (Lexer.ofText
      "procedure p; forward; procedure q; forward; begin writeln(10) end.").ending.map LexError.bare =
    (Lexer.ofText
      "{p}\nprocedure  p;\n forward;procedure\nq;forward;begin\nwriteln ( $a )end .").ending.map
        LexError.bare := by decide +kernel
  exact ⟨same, sameEnd, compile_layout "example" same sameEnd⟩

end MiniPascal
