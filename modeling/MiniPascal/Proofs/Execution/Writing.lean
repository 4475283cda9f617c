import MiniPascal.Proofs.Printing.Translation
import MiniPascal.Proofs.Simulation.Programs

/-!
# Programs that write a text

A text between quotes is read as raw text, goes into a global as its bytes, and is printed from there up
to its first NUL character.  The translation only stores it and the machine only prints it, so one
module and one run stand for all texts.
-/

namespace MiniPascal

open Machine

/-! ### From the source to the module -/

namespace Program

theorem parse_single {statement : Statement} (rereads : statement.Rereads none 0) :
    ∃ program, parse ("begin " ++ statement.render 0 ++ " end.") = .ok program ∧
      program.bare = ⟨[Parse.mainCallable .nowhere [statement.norm.bare]]⟩ := by
  obtain ⟨tokens, writes, reads⟩ := rereads 0
  have front : Closed "begin " [.sign .beginWord] := rfl
  have back : Closed " end." [.sign .endWord, .sign .dot] := rfl
  have closed := (front.append_writes writes).append_closed (by decide) back
  refine (parse_iff _ _).2 ⟨⟨[.sign .endOfInput], 0 + statement.loops⟩, ?_⟩
  rw [Input.ofText, closed.lexemes]
  have noElse : Parse.noElse (Input.kind ⟨[.sign .endWord, .sign .dot, .sign .endOfInput],
      0 + statement.loops⟩) := by
    intro isElse
    cases isElse
  have read := reads _ _ (separates_word (.sign .endWord) [.sign .dot, .sign .endOfInput] (.inl rfl))
    fun _ => noElse
  simp only [List.append_assoc, List.cons_append, List.nil_append]
  exact ⟨[], _, .inr ⟨rfl, rfl⟩, [], _, .nil, _, _,
    ⟨_, _, Rule.sign_append, _, _, .cons read .nil, _, _, Rule.sign_cons, rfl, rfl⟩,
    _, _, Rule.sign_cons, (), _, ⟨rfl, rfl⟩, rfl, rfl⟩

def writing (text : String) : Program :=
  ⟨[Parse.mainCallable .nowhere [.call "write" [.literal text .nowhere] .nowhere]]⟩

theorem parse_writing {text : String} (noQuote : '\'' ∉ text.toList) :
    ∃ program, parse ("begin write('" ++ text ++ "') end.") = .ok program ∧
      program.bare = .writing text := by
  have areLetters : ∀ char ∈ ['r', 'i', 't', 'e'],
      SymbolClass.ofChar char = .letter ∨ SymbolClass.ofChar char = .digit := by
    simp only [List.forall_mem_cons]
    exact ⟨.inl rfl, .inl rfl, .inl rfl, .inl rfl, nofun⟩
  have isIdentifier : IsIdentifier "write" := ⟨⟨by decide, 'w', _, rfl, rfl, areLetters⟩, by decide⟩
  have fits : ArgumentsFit "write" [.literal text .nowhere] :=
    ⟨⟨text, .nowhere, rfl, noQuote⟩, fun other => absurd rfl other⟩
  have isText : "begin write('" ++ text ++ "') end." =
      "begin " ++ (Statement.call "write" [.literal text .nowhere] .nowhere).render 0 ++ " end." := by
    refine String.toList_injective ?_
    simp [Statement.render, renderCall, Expr.renderAll, Expr.render, commaSeparated]
  rw [isText]
  exact parse_single (Statement.rereads_call isIdentifier (.inr fits))

end Program

namespace IR

def writingCode : List Instruction :=
  [.alloca 0 (resultName mainName), .store (.int 0) (.register 0),
    .call (some 1) 0 [.global 2, .global 3], .load 2 (.register 0), .ret (some (.register 2))]

/-- The function of a program that writes a text, as far as so many instructions. -/
def writingMain (emitted registers : Nat) : Function :=
  ⟨mainName, 0, true, false, #[⟨"body", (writingCode.take emitted).toArray⟩], registers⟩

def Module.writing (moduleName text : String) : Module where
  name := moduleName
  functions :=
    #[⟨"printf", 1, true, true, #[], 0⟩, ⟨"scanf", 1, true, true, #[], 0⟩, writingMain 5 3]
  globals := #[
    ⟨".str", .bytes "%d\n", true, .internal⟩,
    ⟨".str.1", .bytes "%d", true, .internal⟩,
    ⟨".str.2", .bytes "%s", true, .internal⟩,
    ⟨".str.3", .bytes text, true, .internal⟩]

end IR

/-! ### The translation

No step looks into the text or the name of the module, so each of them computes with both open. -/

def Heading.writing : Heading := ⟨mainName, [], some .integer, .nowhere⟩

def Table.writing : Table := [(resultName mainName, ⟨.integer, .address (.register 0), none, .nowhere⟩)]

/-- The state within the body of a program that writes a text. -/
def Lowering.writing (moduleName : String) (texts : List String) (locals : Table)
    (emitted registers : Nat) : Lowering :=
  let outer := initial moduleName
  { outer with
    builder.ir.functions := outer.builder.ir.functions.push (IR.writingMain emitted registers)
    builder.ir.globals := outer.builder.ir.globals ++
      (texts.map fun text => ⟨".str.3", .bytes text, true, .internal⟩).toArray
    builder.insertPoint := some ⟨2, 0⟩
    symbols.globals :=
      (mainName, ⟨.callable 0 true, .function 2, none, .nowhere⟩) :: outer.symbols.globals
    symbols.locals := locals
    symbols.enclosing := some ⟨2, mainName⟩ }

section

variable (moduleName text : String)

namespace Lower

theorem openDefinition_writing :
    openDefinition .writing (.initial moduleName) = .ok () (.writing moduleName [] [] 0 0) := rfl

theorem prologue_writing : prologue .writing (.writing moduleName [] [] 0 0) =
    .ok () (.writing moduleName [] .writing 2 1) := rfl

theorem callStatement_writing :
    callStatement "write" [.literal text .nowhere] .nowhere (.writing moduleName [] .writing 2 1) =
      .ok .nothing (.writing moduleName [text] .writing 3 2) := rfl

theorem implicitReturn_writing :
    implicitReturn .writing (.writing moduleName [text] .writing 3 2) =
      .ok () (.writing moduleName [text] .writing 5 3) := rfl

theorem statements_writing : statements [.call "write" [.literal text .nowhere] .nowhere]
    (.writing moduleName [] .writing 2 1) = .ok none (.writing moduleName [text] .writing 3 2) := by
  rw [statements, statement, bind_assoc, bind_of_ok _ (callStatement_writing moduleName text)]
  rfl

theorem definition_writing :
    definition .writing (statements [.call "write" [.literal text .nowhere] .nowhere])
      (.initial moduleName) = .ok () { Lowering.writing moduleName [text] [] 5 3 with
        symbols.enclosing := none } := by
  rw [definition_eq, bind_of_ok _ (openDefinition_writing moduleName), fill,
    bind_of_ok _ (prologue_writing moduleName), bind_of_ok _ (statements_writing moduleName text),
    bind_of_ok _ (implicitReturn_writing moduleName text)]
  rfl

end Lower

theorem Program.lower_writing :
    (Program.writing text).lower moduleName = .ok (.writing moduleName text) := by
  rw [lower_eq]
  have translated : Lower.statements (Program.writing text).statements (.initial moduleName) =
      .ok none { Lowering.writing moduleName [text] [] 5 3 with symbols.enclosing := none } := by
    rw [writing, Parse.mainCallable, Lower.statements, Lower.statement, bind_assoc]
    exact bind_of_ok _ (Lower.definition_writing moduleName text)
  rw [bind_of_ok _ translated]
  rfl

end

theorem compile_writing (moduleName : String) {text : String} (noQuote : '\'' ∉ text.toList) :
    compile ("begin write('" ++ text ++ "') end.") moduleName = .ok (.writing moduleName text) := by
  obtain ⟨program, parsed, isBare⟩ := Program.parse_writing noQuote
  have same : (Program.writing text).bare = program.bare := isBare.symm
  have lowered := Program.lower_of_bare same (Program.lower_writing moduleName text)
  rw [compile, parsed]
  dsimp only
  rw [lowered]

/-! ### The run of the module -/

theorem Machine.Config.runs_write {ir : IR.Module} {limits : Limits} {frame : Frame} {state : State}
    {register : IR.Register} {callee : IR.FunctionId} {function : IR.Function} {format id : IR.GlobalId}
    {content : String}
    (fetched : frame.fetch ir = .ok (.call (some register) callee [.global format, .global id]))
    (inside : register < frame.registers.size)
    (isFunction : ir.functions[callee]? = some function) (noBody : function.isDeclaration = true)
    (isName : ir.functionName callee = "printf")
    (isFormat : state.globals[format]? = some (Cells.ofContent (.bytes "%s")))
    (isText : state.globals[id]? = some (Cells.ofContent (.bytes content))) :
    Runs ir limits ⟨frame, state⟩ 1
      ⟨(frame.define register (.int (.ofNat (Evaluation.printed content).utf8ByteSize))).advance,
        { state.counted with console := state.console.print (Evaluation.printed content) }⟩ := by
  have isFormat : state.counted.globals[format]? = some (Cells.ofContent (.bytes "%s")) := isFormat
  have isText : state.counted.globals[id]? = some (Cells.ofContent (.bytes content)) := isText
  have inside other (isResult : some register = some other) : other < frame.registers.size :=
    Option.some.inj isResult ▸ inside
  have executed := Run.execute_callExternal limits state.counted inside isFunction noBody
    (.cons (show frame.word ir (.global format) = .ok (.pointer (.global format 0)) from rfl)
      (.cons (show frame.word ir (.global id) = .ok (.pointer (.global id 0)) from rfl) .nil))
  rw [Run.callExternal_write isName isFormat isText] at executed
  exact .one fetched executed

/-- The run has five instructions, of which the third one prints. -/
theorem runs_writing (moduleName text : String) (limits : Limits) (input : List Int32) :
    ∃ last state,
      Config.Runs (.writing moduleName text) limits
        ⟨Run.entryFrame (IR.writingMain 5 3) 2 [] 0 1 none,
          State.start (.writing moduleName text) (Console.withInput input)⟩ 4 last ∧
      last.Ends (.writing moduleName text) limits (.ok (some (.int 0)) state) ∧
      state.console = (Console.withInput input).print (Evaluation.printed text) := by
  let start := State.start (.writing moduleName text) (Console.withInput input)
  let entry := Run.entryFrame (IR.writingMain 5 3) 2 [] 0 1 none
  have front : Config.Runs (.writing moduleName text) limits ⟨entry, start⟩ 2
      ⟨(entry.define 0 (.pointer (.slot 0))).advance.advance, { start with stack := #[0], steps := 2 }⟩ :=
    .step rfl rfl (.one rfl rfl)
  have isFormat : start.globals[2]? = some (Cells.ofContent (.bytes "%s")) := Array.getElem?_map
  have isText : start.globals[3]? = some (Cells.ofContent (.bytes text)) := Array.getElem?_map
  have written := front.trans (Config.runs_write rfl (by decide) rfl rfl rfl isFormat isText)
  exact ⟨_, _, written.trans (.one rfl rfl), ⟨_, rfl, rfl⟩, rfl⟩

/-- A program that writes a text compiles, and under the standard limits it ends with zero, has read
nothing, and has printed the text up to its first NUL character. -/
theorem compile_write (moduleName : String) {text : String} (noQuote : '\'' ∉ text.toList) :
    ∃ ir, compile ("begin write('" ++ text ++ "') end.") moduleName = .ok ir ∧
      ∀ input, ∃ state, ir.run .standard input = (.ok 0, state) ∧
        state.console = ⟨String.ofList (text.toList.takeWhile (· ≠ '\x00')), input⟩ := by
  refine ⟨_, compile_writing moduleName noQuote, fun input => ?_⟩
  obtain ⟨last, state, runs, ends, isConsole⟩ := runs_writing moduleName text ⟨0, 999 + 1⟩ input
  have isMain : (IR.Module.writing moduleName text).functionNamed? mainName = some 2 := by
    simp [IR.Module.functionNamed?, IR.Module.writing, IR.writingMain, mainName, List.findIdx?_cons]
  obtain ⟨ended, -⟩ := run_of_ends isMain rfl rfl runs ends Limits.standard.steps
  refine ⟨state, ended (by decide), isConsole.trans ?_⟩
  exact congrArg (Console.mk · input) String.empty_append

/-- The theorem at a text with a conversion, a comment, a line break and a NUL character. -/
theorem compile_write_comment :
    '\'' ∉ "%d \x7bü\x7d\n\x00end.".toList ∧
      ∃ ir, compile "begin write('%d \x7bü\x7d\n\x00end.') end." "m" = .ok ir ∧
        ∀ input, ∃ state, ir.run .standard input = (.ok 0, state) ∧
          state.console = ⟨"%d \x7bü\x7d\n", input⟩ := by
  have noQuote : '\'' ∉ "%d \x7bü\x7d\n\x00end.".toList := by decide
  have isSource : "begin write('" ++ "%d \x7bü\x7d\n\x00end." ++ "') end." =
      "begin write('%d \x7bü\x7d\n\x00end.') end." := by decide
  have isCut : String.ofList ("%d \x7bü\x7d\n\x00end.".toList.takeWhile (· ≠ '\x00')) =
      "%d \x7bü\x7d\n" := by decide
  have written := compile_write "m" noQuote
  rw [isSource, isCut] at written
  exact ⟨noQuote, written⟩

end MiniPascal
