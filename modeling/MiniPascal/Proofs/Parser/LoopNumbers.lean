import MiniPascal.Proofs.Parser.Declarations
import MiniPascal.Proofs.Parser.PortRules
import MiniPascal.Proofs.Tree.Breaks

/-!
# Loops of all programs that a parser returns

A parser goes on numbering loops from one call to the next, and a call that fails may use numbers up but
never gives one back.  So no two loops of the programs that it returns have the same number.
-/

namespace MiniPascal

theorem IsBody.breaks {next : Nat} {body : List Statement} (isBody : IsBody next body) :
    Statement.AllBreaksBind none body ∧
      Statement.allLoopIds body = LoopId.run next (Statement.totalLoops body) := by
  obtain ⟨declarations, actions, rfl, areStorage, areActions⟩ := isBody
  obtain ⟨bindDeclarations, noIds⟩ := Statement.storage_breaks none areStorage
  obtain ⟨bindActions, ids⟩ := Statement.areActions_breaks actions areActions
  refine ⟨Statement.allBreaksBind_append.2 ⟨bindDeclarations, bindActions⟩, ?_⟩
  rw [Statement.allLoopIds_append, noIds, ids, List.nil_append, Statement.totalLoops_append,
    Statement.totalLoops_of_storage areStorage, Nat.zero_add]

theorem Statement.IsTopLevel.breaks {next : Nat} {declaration : Statement}
    (isTopLevel : declaration.IsTopLevel next) :
    declaration.BreaksBind none ∧ declaration.loopIds = LoopId.run next declaration.loops := by
  cases declaration with
  | forward heading => exact ⟨trivial, rfl⟩
  | callable heading body => exact isTopLevel.2.breaks
  | vars group => exact ⟨trivial, rfl⟩
  | constant name value position => exact ⟨trivial, rfl⟩
  | _ => exact isTopLevel.elim

theorem Statement.areTopLevel_breaks {next : Nat} {declarations : List Statement}
    (areTopLevel : AreTopLevel next declarations) :
    AllBreaksBind none declarations ∧
      allLoopIds declarations = LoopId.run next (totalLoops declarations) := by
  induction declarations generalizing next with
  | nil => exact ⟨trivial, rfl⟩
  | cons first others ih =>
      obtain ⟨bindFirst, idsFirst⟩ := areTopLevel.1.breaks
      obtain ⟨bindOthers, idsOthers⟩ := ih areTopLevel.2
      refine ⟨⟨bindFirst, bindOthers⟩, ?_⟩
      rw [allLoopIds, totalLoops, LoopId.run_add, idsFirst, idsOthers]

theorem Program.GrammaticalFrom.breaks {next : Nat} {program : Program}
    (grammatical : program.GrammaticalFrom next) :
    program.BreaksBind ∧ program.loopIds = LoopId.run next program.loops := by
  obtain ⟨header, declarations, position, actions, isProgram, isHeader, areTopLevel, areActions⟩ :=
    grammatical
  obtain ⟨bindDeclarations, idsDeclarations⟩ := Statement.areTopLevel_breaks areTopLevel
  obtain ⟨bindActions, idsActions⟩ := Statement.areActions_breaks actions areActions
  have ofHeader : Statement.AllBreaksBind none header ∧ Statement.allLoopIds header = [] ∧
      Statement.totalLoops header = 0 := by
    rcases isHeader with rfl | ⟨name, -, rfl⟩
    · exact ⟨trivial, rfl, rfl⟩
    · exact ⟨⟨trivial, trivial⟩, rfl, rfl⟩
  constructor
  · rw [BreaksBind, isProgram, Statement.allBreaksBind_append, Statement.allBreaksBind_append]
    exact ⟨⟨ofHeader.1, bindDeclarations⟩, bindActions, trivial⟩
  · have idsMain : Statement.allLoopIds [Parse.mainCallable position actions] =
        LoopId.run (next + Statement.totalLoops declarations) (Statement.totalLoops actions) := by
      simp only [Parse.mainCallable, Statement.allLoopIds, Statement.loopIds, List.append_nil,
        idsActions]
    have count : program.loops =
        Statement.totalLoops declarations + Statement.totalLoops actions := by
      simp only [loops, isProgram, Statement.totalLoops_append, ofHeader.2.2, Statement.totalLoops,
        Parse.mainCallable, Statement.loops, Nat.zero_add, Nat.add_zero]
    rw [loopIds, isProgram, Statement.allLoopIds_append, Statement.allLoopIds_append, ofHeader.2.1,
      idsDeclarations, idsMain, count, LoopId.run_add, List.nil_append]

/-! ### Rules that fail -/

def Parser.Beyond (bound : Nat) (parser : Parser) : Prop := parser.Sound ∧ bound ≤ parser.nextLoop

namespace Parse

variable {bound : Nat} {s s' : Parser}

theorem coincide_of_beyond {α : Type} [Quoting α] {rule : Parse α}
    (h : ∀ s : Parser, s.Sound → match rule s with
      | .ok _ s' | .error _ s' => s'.Sound ∧ s.nextLoop ≤ s'.nextLoop) :
    Coincide (Parser.Beyond bound) (fun _ _ => True) rule rule := by
  rintro s ⟨sound, isBeyond⟩
  have kept := h s sound
  refine ⟨rfl, ?_⟩
  cases outcome : rule s with
  | ok a s' =>
      rw [outcome] at kept
      exact ⟨fun _ _ => trivial, kept.1, Nat.le_trans isBeyond kept.2⟩
  | error error s' =>
      rw [outcome] at kept
      exact ⟨kept.1, Nat.le_trans isBeyond kept.2⟩

theorem beyond_advance : Coincide (Parser.Beyond bound) (fun _ _ => True) advance advance := by
  refine coincide_of_beyond fun s sound => ?_
  cases outcome : advance s with
  | ok token s' =>
      obtain ⟨sound', same, -⟩ := ensures_advance sound token s' outcome
      exact ⟨sound', Nat.le_of_eq same.symm⟩
  | error error s' =>
      rw [advance_eq] at outcome
      cases isNext : s.lexer.next with
      | ok token lexer =>
          rw [isNext] at outcome
          cases outcome
      | error error lexer =>
          rw [isNext] at outcome
          cases outcome
          exact ⟨⟨sound.1, Lexer.sound_of_next_error isNext⟩, Nat.le_refl _⟩

theorem beyond_rawText : Coincide (Parser.Beyond bound) (fun _ _ => True)
    (draw Lexer.rawText) (draw Lexer.rawText) := by
  refine coincide_of_beyond fun s sound => ?_
  unfold draw
  cases isRaw : s.lexer.rawText with
  | ok found lexer =>
      exact ⟨⟨sound.1, (Lexer.ensures_rawText sound.2 found lexer isRaw).2⟩, Nat.le_refl _⟩
  | error error lexer =>
      exact ⟨⟨sound.1, Lexer.sound_of_rawText_error sound.2 isRaw⟩, Nat.le_refl _⟩

end Parse

open Parse in
/-- Numbers of loops are only ever used up, also by rules that fail. -/
theorem Ports.suits_standard (bound : Nat) :
    Ports.standard.Suits (Parser.Beyond bound) (fun _ _ => True) where
  advance := beyond_advance
  freshLoop := by
    refine coincide_of_beyond fun s sound => ?_
    exact ⟨sound, Nat.le_succ _⟩
  literal s token s' beyond ok := by
    have beyond' := (beyond_advance s beyond).2
    rw [ok] at beyond'
    exact Ports.coincideAt_literal beyond_advance beyond'.2 fun _ =>
      ⟨beyond_rawText s' beyond'.2, fun _ _ _ => trivial⟩
  backtrack s token s' beyond ok := by
    obtain ⟨sound', same, rfl⟩ := ensures_advance beyond.1 token s' ok
    refine ⟨rfl, ?_⟩
    rw [backtrack_eq]
    refine ⟨fun _ _ => trivial, ⟨beyond.1.1, ?_⟩, ?_⟩
    · intro other isIn
      rcases List.mem_cons.1 isIn with rfl | isIn
      · exact sound'.1
      · exact sound'.2 other isIn
    · exact Nat.le_trans beyond.2 (Nat.le_of_eq same.symm)

/-! ### Calls one after the other -/

namespace Parse

variable {s s' : Parser}

theorem ensures_program (sound : s.Sound) :
    Ensures program (fun made s' => s'.Sound ∧ s'.nextLoop = s.nextLoop + made.loops ∧
      made.GrammaticalFrom s.nextLoop) s := by
  unfold program
  rw [ensures_bind, ensures_get]
  exact ensures_programFrom s.fuel sound

theorem beyond_of_program_error {error : ParseError} (sound : s.Sound)
    (failed : program s = .error error s') : s'.Beyond s.nextLoop := by
  have kept := ((Ports.suits_standard s.nextLoop).program s ⟨sound, Nat.le_refl _⟩).2
  rw [failed] at kept
  exact kept

def returnedLoops (outcomes : List (Except ParseError Program)) : List LoopId :=
  outcomes.flatMap fun outcome => outcome.toOption.elim [] Program.loopIds

/-- However often a parser is called, the loops of the programs that it returns have numbers of their
own, all of them still free when the calls begin. -/
theorem numbers_calls (count : Nat) (sound : s.Sound) :
    (∀ made, .ok made ∈ (program.calls count s).1 → ∃ next, made.GrammaticalFrom next) ∧
      (∀ id ∈ returnedLoops (program.calls count s).1, s.nextLoop ≤ id.index) ∧
      (returnedLoops (program.calls count s).1).Nodup := by
  -- nothing of what a single call does but the two lemmas above is used
  have returned := @ensures_program
  have failed := @beyond_of_program_error
  generalize program = rule at *
  induction count generalizing s with
  | zero => exact ⟨by simp [calls], by simp [calls, returnedLoops], List.nodup_nil⟩
  | succ count ih =>
      rw [calls]
      cases outcome : rule s with
      | ok made s' =>
          obtain ⟨sound', isNext, grammatical⟩ := returned sound made s' outcome
          obtain ⟨all, above, distinct⟩ := ih sound'
          have ids := grammatical.breaks.2
          have isAll : returnedLoops (.ok made :: (rule.calls count s').1) =
              LoopId.run s.nextLoop made.loops ++ returnedLoops (rule.calls count s').1 := by
            rw [← ids]
            rfl
          simp only [isAll]
          refine ⟨fun other isIn => ?_, fun id isIn => ?_, ?_⟩
          · rcases List.mem_cons.1 isIn with same | isIn
            · cases same
              exact ⟨_, grammatical⟩
            · exact all other isIn
          · rcases List.mem_append.1 isIn with isIn | isIn
            · exact (LoopId.mem_run.1 isIn).1
            · exact Nat.le_trans (by omega) (above id isIn)
          · refine List.nodup_append.2 ⟨LoopId.nodup_run _ _, distinct, fun id isOld other isNew => ?_⟩
            have bound := (LoopId.mem_run.1 isOld).2
            have free := above other isNew
            rintro rfl
            omega
      | error error s' =>
          obtain ⟨sound', isBeyond⟩ := failed sound outcome
          obtain ⟨all, above, distinct⟩ := ih sound'
          refine ⟨fun other isIn => ?_, fun id isIn => ?_, distinct⟩
          · rcases List.mem_cons.1 isIn with same | isIn
            · cases same
            · exact all other isIn
          · exact Nat.le_trans isBeyond (above id isIn)

end Parse

end MiniPascal
