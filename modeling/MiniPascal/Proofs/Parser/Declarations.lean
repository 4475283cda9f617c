import MiniPascal.Proofs.Parser.Statements

/-!
# Programs that the grammar derives

Every program that parses is grammatical.
-/

namespace MiniPascal

theorem Statement.totalLoops_append (first second : List Statement) :
    totalLoops (first ++ second) = totalLoops first + totalLoops second := by
  induction first with
  | nil => simp [totalLoops]
  | cons statement others ih => simp [totalLoops, ih, Nat.add_assoc]

theorem Statement.areTopLevel_append {next : Nat} {first second : List Statement} :
    AreTopLevel next (first ++ second) ↔
      AreTopLevel next first ∧ AreTopLevel (next + totalLoops first) second := by
  induction first generalizing next with
  | nil => simp [totalLoops, AreTopLevel]
  | cons statement others ih => simp [totalLoops, AreTopLevel, ih, and_assoc, Nat.add_assoc]

theorem Statement.IsStorage.loops {statement : Statement} (h : statement.IsStorage) :
    statement.loops = 0 := by
  unfold IsStorage at h
  split at h <;> simp_all [Statement.loops]

theorem Statement.IsStorage.isDeclaration {statement : Statement} (h : statement.IsStorage) :
    statement.isDeclaration = true := by
  cases statement with
  | vars group | constant name value position => rfl
  | _ => exact h.elim

theorem Statement.IsAction.isDeclaration {loop : Option LoopId} {next : Nat} {statement : Statement}
    (h : statement.IsAction loop next) : statement.isDeclaration = false := by
  cases statement with
  | program name | vars group | constant name value position | forward heading
  | callable heading body => exact h.elim
  | _ => rfl

theorem Statement.totalLoops_of_storage {declarations : List Statement}
    (h : ∀ declaration ∈ declarations, declaration.IsStorage) : totalLoops declarations = 0 := by
  induction declarations with
  | nil => rfl
  | cons first others ih =>
      simp [totalLoops, (h first (by simp)).loops, ih fun other isOther => h other (by simp [isOther])]

theorem Statement.areTopLevel_of_storage {next : Nat} {declarations : List Statement}
    (h : ∀ declaration ∈ declarations, declaration.IsStorage) : AreTopLevel next declarations := by
  induction declarations generalizing next with
  | nil => trivial
  | cons first others ih =>
      have storage := h first (by simp)
      refine ⟨?_, ih fun other isOther => h other (by simp [isOther])⟩
      unfold IsTopLevel
      split <;> simp_all [IsStorage]

def Program.GrammaticalFrom (next : Nat) (program : Program) : Prop :=
  ∃ header declarations position actions,
    program.statements = header ++ declarations ++ [Parse.mainCallable position actions] ∧
    (header = [] ∨ ∃ name, IsIdentifier name ∧ header = [.program name]) ∧
    Statement.AreTopLevel next declarations ∧
    Statement.AreActions none (next + Statement.totalLoops declarations) actions

theorem Program.grammatical_iff {program : Program} :
    program.Grammatical ↔ program.GrammaticalFrom 0 := by
  simp only [Grammatical, GrammaticalFrom, Nat.zero_add]

namespace Parse

theorem yields_ordinaryType : Yields ordinaryType (· = .integer) := by
  intro s sound
  unfold ordinaryType
  rw [ensures_bind, ensures_current]
  split
  · have integer : Yields (do
        let _ ← advance
        return DataType.integer) (· = .integer) :=
      yields_advance.bind fun _ _ => yields_pure rfl
    exact integer s sound
  · split <;> simp

theorem yields_dataType (fuel : Nat) : Yields (dataType fuel) DataType.Fits := by
  intro s sound
  unfold dataType
  rw [ensures_bind, ensures_current]
  split
  · refine (yields_advance.bind fun _ _ => (yields_expect _).bind fun _ _ => ?_) s sound
    refine (yields_expression fuel).bind fun low lowFits => ?_
    refine (yields_expect _).bind fun _ _ => (yields_expect _).bind fun _ _ => ?_
    refine (yields_expression fuel).bind fun high highFits => ?_
    refine (yields_expect _).bind fun _ _ => (yields_expect _).bind fun _ _ => ?_
    exact yields_ordinaryType.bind fun _ _ => yields_pure ⟨lowFits, highFits⟩
  · refine yields_ordinaryType.mono ?_ s sound
    rintro _ rfl
    trivial

theorem yields_varGroup (fuel : Nat) {type : Parse DataType} {property : DataType → Prop}
    (typeHolds : Yields type property) {first : Token} (isName : IsIdentifier first.text) :
    Yields (varGroup fuel type first) (fun group => group.names ≠ [] ∧
      (∀ name ∈ group.names, IsIdentifier name) ∧ property group.type) := by
  have other : Yields (do
      if (← kind) = .comma then
        let _ ← advance
        return some (← name)
      else return none) (fun name? => ∀ name, name? = some name → IsIdentifier name) := by
    refine yields_of_kind fun s sound => ?_
    split
    · refine (yields_advance.bind fun _ _ => yields_name.bind fun name isName => ?_) s sound
      exact yields_pure (by rintro _ ⟨⟩; exact isName)
    · exact yields_pure (by simp) s sound
  refine (yields_many other fuel).bind fun others areNames => (yields_expect _).bind fun _ _ => ?_
  refine typeHolds.bind fun type holds => yields_pure ⟨by simp, ?_, holds⟩
  simpa using ⟨isName, areNames⟩

theorem yields_nextVarGroup (fuel : Nat) :
    Yields (nextVarGroup? fuel) (fun group? => ∀ group, group? = some group → group.Fits) := by
  refine (yields_expect _).bind fun _ _ => yields_of_kind fun s sound => ?_
  split
  · exact yields_pure (by simp) s sound
  · rename_i isIdent
    rw [ensures_bind]
    refine (ensures_advance sound).mono ?_
    rintro token s₁ ⟨sound₁, same₁, rfl⟩
    have isName := sound.1 (by simpa using isIdent)
    have group := yields_varGroup fuel (yields_dataType fuel) isName
    have some : Yields (some <$> varGroup fuel (dataType fuel) s.current)
        (fun group? => ∀ group, group? = some group → group.Fits) := by
      rw [← bind_pure_comp]
      exact group.bind fun group fits => yields_pure (by rintro _ ⟨⟩; exact fits)
    rw [ensures_bind, ensures_kind, ← same₁]
    split
    · simpa using some s₁ sound₁
    · simpa using some s₁ sound₁
    · exact ((yields_backtrack sound.1).bind fun _ _ => yields_pure (by simp)) s₁ sound₁

theorem yields_varBlock (fuel : Nat) :
    Yields (varBlock fuel) (fun statements => ∀ statement ∈ statements, statement.IsStorage) := by
  refine (yields_expect _).bind fun _ _ => yields_ident.bind fun first isName => ?_
  refine (yields_varGroup fuel (yields_dataType fuel) isName).bind fun group fits => ?_
  refine (yields_many (yields_nextVarGroup fuel) fuel).bind fun groups othersFit => ?_
  refine yields_pure fun statement isStatement => ?_
  obtain ⟨group', isGroup, rfl⟩ := List.mem_map.1 isStatement
  rcases List.mem_cons.1 isGroup with rfl | isOther
  · exact fits
  · exact othersFit group' isOther

theorem yields_constantItem (fuel : Nat) {token : Token} (isName : IsIdentifier token.text) :
    Yields (constantItem fuel token) Statement.IsStorage := by
  refine (yields_expect _).bind fun _ _ => (yields_expression fuel).bind fun value fits => ?_
  exact (yields_expect _).bind fun _ _ => yields_pure ⟨isName, fits⟩

theorem yields_nextConstant (fuel : Nat) :
    Yields (nextConstant? fuel)
      (fun statement? => ∀ statement, statement? = some statement → statement.IsStorage) := by
  refine yields_of_kind fun s sound => ?_
  split
  · exact yields_pure (by simp) s sound
  · rename_i isIdent
    rw [ensures_bind]
    refine (ensures_advance sound).mono ?_
    rintro token s₁ ⟨sound₁, same₁, rfl⟩
    have isName := sound.1 (by simpa using isIdent)
    rw [ensures_bind, ensures_kind, ← same₁]
    split
    · refine ((yields_constantItem fuel isName).bind fun statement storage => ?_) s₁ sound₁
      exact yields_pure (by rintro _ ⟨⟩; exact storage)
    · exact ((yields_backtrack sound.1).bind fun _ _ => yields_pure (by simp)) s₁ sound₁

theorem yields_constBlock (fuel : Nat) :
    Yields (constBlock fuel) (fun statements => ∀ statement ∈ statements, statement.IsStorage) := by
  refine (yields_expect _).bind fun _ _ => yields_ident.bind fun token isName => ?_
  refine (yields_constantItem fuel isName).bind fun first firstStorage => ?_
  refine (yields_many (yields_nextConstant fuel) fuel).bind fun others othersStorage => ?_
  exact yields_pure (by simpa using ⟨firstStorage, othersStorage⟩)

theorem yields_storageBlock (fuel : Nat) :
    Yields (storageBlock? fuel) (fun statements? => ∀ statements, statements? = some statements →
      ∀ statement ∈ statements, statement.IsStorage) := by
  refine yields_of_kind fun s sound => ?_
  split
  · refine ((yields_varBlock fuel).bind fun statements storage => ?_) s sound
    exact yields_pure (by rintro _ ⟨⟩; exact storage)
  · refine ((yields_constBlock fuel).bind fun statements storage => ?_) s sound
    exact yields_pure (by rintro _ ⟨⟩; exact storage)
  · exact yields_pure (by simp) s sound

/-! ### Callables -/

theorem yields_parameterGroup (fuel : Nat) :
    Yields (parameterGroup fuel) (fun group => group.Fits ∧ group.type = .integer) := by
  refine yields_ident.bind fun first isName => ?_
  refine (yields_varGroup fuel yields_ordinaryType isName).mono ?_
  rintro group ⟨notNil, areNames, isInteger⟩
  exact ⟨⟨notNil, areNames, by simp [isInteger, DataType.Fits]⟩, isInteger⟩

theorem yields_parameters (fuel : Nat) :
    Yields (parameters fuel)
      (fun groups => ∀ group ∈ groups, group.Fits ∧ group.type = .integer) := by
  refine (yields_expect _).bind fun _ _ => yields_of_kind fun s sound => ?_
  split
  · exact (yields_advance.bind fun _ _ => yields_pure (by simp)) s sound
  · refine ((yields_parameterGroup fuel).bind fun first firstFits => ?_) s sound
    have other : Yields (do
        if (← kind) = .semicolon then
          let _ ← advance
          return some (← parameterGroup fuel)
        else return none)
        (fun group? => ∀ group, group? = some group → group.Fits ∧ group.type = .integer) := by
      refine yields_of_kind fun s sound => ?_
      split
      · refine (yields_advance.bind fun _ _ => (yields_parameterGroup fuel).bind ?_) s sound
        exact fun group fits => yields_pure (by rintro _ ⟨⟩; exact fits)
      · exact yields_pure (by simp) s sound
    refine (yields_many other fuel).bind fun others othersFit => (yields_expect _).bind fun _ _ => ?_
    exact yields_pure (by simpa using ⟨firstFits, othersFit⟩)

theorem yields_heading (fuel : Nat) : Yields (heading fuel) Heading.Fits := by
  refine yields_advance.bind fun keyword _ => yields_name.bind fun name isName => ?_
  have rest : ∀ groups : List VarGroup, (∀ group ∈ groups, group.Fits ∧ group.type = .integer) →
      Yields (do
        if keyword.kind = .procedureWord then
          return (⟨name, groups, none, keyword.position⟩ : Heading)
        let _ ← expect .colon
        return ⟨name, groups, some (← ordinaryType), keyword.position⟩) Heading.Fits := by
    intro groups fit
    split
    · exact yields_pure ⟨isName, fit, .inl rfl⟩
    · refine (yields_expect _).bind fun _ _ => yields_ordinaryType.bind ?_
      rintro type rfl
      exact yields_pure ⟨isName, fit, .inr rfl⟩
  refine yields_of_kind fun s sound => ?_
  dsimp only
  split
  · exact ((yields_parameters fuel).bind rest) s sound
  · exact ((yields_pure (show ∀ group ∈ ([] : List VarGroup), group.Fits ∧ group.type = .integer
      by simp)).bind rest) s sound

theorem ensures_actions (fuel : Nat) {s : Parser} (sound : s.Sound) :
    Ensures (actions fuel) (fun result s' => s'.Sound ∧
      s'.nextLoop = s.nextLoop + Statement.totalLoops result.2 ∧
      Statement.AreActions none s.nextLoop result.2) s := by
  unfold actions
  rw [ensures_bind]
  refine (yields_expect _ s sound).mono ?_
  rintro token s₁ ⟨sound₁, same₁, -⟩
  rw [ensures_bind]
  refine (acts_many (actsIfAny_statement fuel none) fuel sound₁).mono ?_
  rintro statements s₂ ⟨sound₂, same₂, areActions⟩
  rw [ensures_bind]
  refine (yields_expect _ s₂ sound₂).mono ?_
  rintro _ s₃ ⟨sound₃, same₃, -⟩
  rw [same₁] at same₂ areActions
  rw [ensures_pure]
  exact ⟨sound₃, same₃.trans same₂, areActions⟩

theorem ensures_callable (fuel : Nat) {s : Parser} (sound : s.Sound) :
    Ensures (callable fuel) (fun statement s' => s'.Sound ∧
      s'.nextLoop = s.nextLoop + statement.loops ∧ statement.IsTopLevel s.nextLoop) s := by
  unfold callable
  rw [ensures_bind]
  refine (yields_heading fuel s sound).mono ?_
  rintro heading s₁ ⟨sound₁, same₁, fits⟩
  rw [ensures_bind]
  refine (yields_expect _ s₁ sound₁).mono ?_
  rintro _ s₂ ⟨sound₂, same₂, -⟩
  rw [ensures_bind, ensures_kind]
  split
  · have forward : Yields (do
        let _ ← advance
        let _ ← expect .semicolon
        return Statement.forward heading) (· = Statement.forward heading) :=
      yields_advance.bind fun _ _ => (yields_expect _).bind fun _ _ => yields_pure rfl
    refine (forward s₂ sound₂).mono ?_
    rintro _ s₃ ⟨sound₃, same₃, rfl⟩
    exact ⟨sound₃, by simp only [Statement.loops]; omega, fits⟩
  · rw [ensures_bind]
    refine (yields_many (yields_storageBlock fuel) fuel s₂ sound₂).mono ?_
    rintro declarations s₃ ⟨sound₃, same₃, storage⟩
    rw [ensures_bind]
    refine (ensures_actions fuel sound₃).mono ?_
    rintro ⟨position, statements⟩ s₄ ⟨sound₄, same₄, areActions⟩
    simp only [ensures_bind, ensures_pure]
    refine (yields_expect _ s₄ sound₄).mono ?_
    rintro _ s₅ ⟨sound₅, same₅, -⟩
    have allStorage : ∀ declaration ∈ declarations.flatten, declaration.IsStorage := by
      intro declaration isDeclaration
      obtain ⟨block, isBlock, isIn⟩ := List.mem_flatten.1 isDeclaration
      exact storage block isBlock declaration isIn
    rw [same₃, same₂, same₁] at same₄ areActions
    refine ⟨sound₅, ?_, fits, _, _, rfl, allStorage, areActions⟩
    simp only [Statement.loops, Statement.totalLoops_append,
      Statement.totalLoops_of_storage allStorage]
    dsimp only at same₄
    omega

theorem ensures_topLevel (fuel : Nat) {s : Parser} (sound : s.Sound) :
    Ensures (topLevel? fuel) (fun statements? s' => s'.Sound ∧
      s'.nextLoop = s.nextLoop + statements?.elim 0 Statement.totalLoops ∧
      ∀ statements, statements? = some statements →
        Statement.AreTopLevel s.nextLoop statements) s := by
  have one : Ensures (do return some [← callable fuel]) (fun statements? s' => s'.Sound ∧
      s'.nextLoop = s.nextLoop + statements?.elim 0 Statement.totalLoops ∧
      ∀ statements, statements? = some statements →
        Statement.AreTopLevel s.nextLoop statements) s := by
    rw [ensures_bind]
    refine (ensures_callable fuel sound).mono ?_
    rintro statement s₁ ⟨sound₁, same₁, isTopLevel⟩
    rw [ensures_pure]
    refine ⟨sound₁, by simpa [Statement.totalLoops] using same₁, ?_⟩
    rintro _ ⟨⟩
    exact ⟨isTopLevel, trivial⟩
  unfold topLevel?
  rw [ensures_bind, ensures_kind]
  split
  · exact one
  · exact one
  · refine (yields_storageBlock fuel s sound).mono ?_
    rintro statements? s₁ ⟨sound₁, same₁, storage⟩
    cases statements? with
    | none => exact ⟨sound₁, by simpa using same₁, by simp⟩
    | some statements =>
        have storage := storage statements rfl
        refine ⟨sound₁, ?_, ?_⟩
        · simpa [Statement.totalLoops_of_storage storage] using same₁
        · rintro _ ⟨⟩
          exact Statement.areTopLevel_of_storage storage

theorem ensures_declarations (fuel count : Nat) {s : Parser} (sound : s.Sound) :
    Ensures (many count (topLevel? fuel)) (fun blocks s' => s'.Sound ∧
      s'.nextLoop = s.nextLoop + Statement.totalLoops blocks.flatten ∧
      Statement.AreTopLevel s.nextLoop blocks.flatten) s := by
  induction count generalizing s with
  | zero => simp [many]
  | succ count ih =>
      unfold many
      rw [ensures_bind]
      refine (ensures_topLevel fuel sound).mono ?_
      rintro (_ | first) s₁ ⟨sound₁, same₁, areTopLevel₁⟩
      · simpa [Statement.totalLoops, Statement.AreTopLevel] using ⟨sound₁, same₁⟩
      · rw [ensures_bind]
        refine (ih sound₁).mono ?_
        rintro others s₂ ⟨sound₂, same₂, areTopLevel₂⟩
        simp only [Option.elim_some] at same₁
        rw [same₁] at same₂ areTopLevel₂
        rw [ensures_pure]
        refine ⟨sound₂, ?_, Statement.areTopLevel_append.2 ⟨areTopLevel₁ first rfl, areTopLevel₂⟩⟩
        simp only [List.flatten_cons, Statement.totalLoops_append]
        omega

theorem yields_programHeader :
    Yields programHeader
      (fun header => header = [] ∨ ∃ name, IsIdentifier name ∧ header = [.program name]) := by
  refine yields_of_kind fun s sound => ?_
  split
  · refine (yields_advance.bind fun _ _ => yields_name.bind fun name isName => ?_) s sound
    exact (yields_expect _).bind fun _ _ => yields_pure (.inr ⟨name, isName, rfl⟩)
  · exact yields_pure (.inl rfl) s sound

theorem ensures_programFrom (fuel : Nat) {s : Parser} (sound : s.Sound) :
    Ensures (programWith fuel) (fun program s' => s'.Sound ∧
      s'.nextLoop = s.nextLoop + Statement.totalLoops program.statements ∧
      program.GrammaticalFrom s.nextLoop) s := by
  unfold programWith
  rw [ensures_bind]
  refine (yields_programHeader s sound).mono ?_
  rintro header s₁ ⟨sound₁, same₁, isHeader⟩
  rw [ensures_bind]
  refine (ensures_declarations fuel fuel sound₁).mono ?_
  rintro blocks s₂ ⟨sound₂, same₂, areTopLevel⟩
  rw [ensures_bind]
  refine (ensures_actions fuel sound₂).mono ?_
  rintro ⟨position, statements⟩ s₃ ⟨sound₃, same₃, areActions⟩
  rw [same₁] at same₂ areTopLevel
  rw [same₂] at areActions
  simp only [ensures_bind, ensures_pure]
  refine (yields_expect _ s₃ sound₃).mono ?_
  rintro _ s₄ ⟨sound₄, same₄, -⟩
  refine (yields_expect _ s₄ sound₄).mono ?_
  rintro _ s₅ ⟨sound₅, same₅, -⟩
  have noLoops : Statement.totalLoops header = 0 := by
    rcases isHeader with rfl | ⟨name, -, rfl⟩ <;> rfl
  refine ⟨sound₅, ?_, header, blocks.flatten, position, statements, rfl, isHeader, areTopLevel,
    areActions⟩
  simp only [Statement.totalLoops_append, noLoops, Statement.totalLoops, mainCallable,
    Statement.loops]
  dsimp only at same₃
  omega

theorem ensures_programWith (fuel : Nat) {s : Parser} (sound : s.Sound) (fresh : s.nextLoop = 0) :
    Ensures (programWith fuel) (fun program _ => program.Grammatical) s := by
  refine (ensures_programFrom fuel sound).mono ?_
  rintro program s' ⟨-, -, grammatical⟩
  rw [fresh] at grammatical
  exact Program.grammatical_iff.2 grammatical

end Parse

theorem Parser.sound_ofReader {reader : Reader} {parser : Parser} (ok : ofReader reader = .ok parser) :
    parser.Sound ∧ parser.nextLoop = 0 := by
  unfold ofReader at ok
  split at ok
  · rename_i token lexer isNext
    cases ok
    exact ⟨Lexer.ensures_next (Lexer.sound_ofReader _) token lexer isNext, rfl⟩
  · cases ok

theorem Program.grammatical_of_parse {text : String} {program : Program}
    (parsed : Program.parse text = .ok program) : program.Grammatical := by
  unfold Program.parse at parsed
  split at parsed
  · cases parsed
  · rename_i parser started
    have sound := Parser.sound_ofReader started
    split at parsed
    · rename_i result rest run
      cases parsed
      unfold Parse.program at run
      rw [bind_eq_ok] at run
      obtain ⟨parser', _, isGet, run⟩ := run
      rw [get_eq_ok] at isGet
      obtain ⟨rfl, rfl⟩ := isGet
      exact Parse.ensures_programWith _ sound.1 sound.2 program rest run
    · cases parsed

theorem exists_of_any (source : String) (holds : Program → Bool)
    (isAny : (Program.parse source).toOption.any holds = true) :
    ∃ program, Program.parse source = .ok program ∧ holds program = true := by
  cases parsed : Program.parse source with
  | error error => simp [parsed, Except.toOption] at isAny
  | ok program => exact ⟨program, rfl, by simpa [parsed, Except.toOption] using isAny⟩

end MiniPascal
