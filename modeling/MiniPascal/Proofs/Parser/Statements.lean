import MiniPascal.Proofs.Parser.Expressions

/-!
# Statements that the grammar derives

A rule for statements numbers the loops that it reads in the order of their keywords, and hands each
`break` the loop that it stands in.
-/

namespace MiniPascal

namespace Parse

def Acts (loop : Option LoopId) (rule : Parse Statement) : Prop :=
  ∀ s : Parser, s.Sound →
    Ensures rule (fun statement s' => s'.Sound ∧ s'.nextLoop = s.nextLoop + statement.loops ∧
      statement.IsAction loop s.nextLoop) s

def ActsIfAny (loop : Option LoopId) (rule : Parse (Option Statement)) : Prop :=
  ∀ s : Parser, s.Sound →
    Ensures rule (fun statement? s' => s'.Sound ∧
      s'.nextLoop = s.nextLoop + statement?.elim 0 (·.loops) ∧
      ∀ statement, statement? = some statement → statement.IsAction loop s.nextLoop) s

variable {loop : Option LoopId} {α : Type}

theorem Acts.of_yields {rule : Parse Statement}
    (h : Yields rule fun statement => statement.loops = 0 ∧ ∀ next, statement.IsAction loop next) :
    Acts loop rule := by
  intro s sound
  refine (h s sound).mono ?_
  rintro statement s₁ ⟨sound₁, same, noLoops, isAction⟩
  exact ⟨sound₁, by omega, isAction _⟩

theorem Acts.after {first : Parse α} {rule : α → Parse Statement} {property : α → Prop}
    (h₁ : Yields first property) (h₂ : ∀ a, property a → Acts loop (rule a)) :
    Acts loop (first >>= rule) := by
  intro s sound
  rw [ensures_bind]
  refine (h₁ s sound).mono ?_
  rintro a s₁ ⟨sound₁, same, holds⟩
  rw [← same]
  exact h₂ a holds s₁ sound₁

theorem Acts.orNone {rule : Parse Statement} (h : Acts loop rule) :
    ActsIfAny loop (some <$> rule) := by
  intro s sound
  rw [ensures_map]
  refine (h s sound).mono ?_
  rintro statement s₁ ⟨sound₁, same, isAction⟩
  exact ⟨sound₁, by simpa using same, by rintro _ ⟨⟩; exact isAction⟩

theorem Acts.before {rule : Parse Statement} {last : Parse α} {property : α → Prop}
    (h₁ : Acts loop rule) (h₂ : Yields last property) :
    Acts loop (do
      let statement ← rule
      let _ ← last
      return statement) := by
  intro s sound
  rw [ensures_bind]
  refine (h₁ s sound).mono ?_
  rintro statement s₁ ⟨sound₁, same₁, isAction⟩
  rw [ensures_bind]
  refine (h₂ s₁ sound₁).mono ?_
  rintro a s₂ ⟨sound₂, same₂, -⟩
  simpa [same₂, same₁] using ⟨sound₂, isAction⟩

theorem acts_required {rule : Parse (Option Statement)} (h : ActsIfAny loop rule) :
    Acts loop (required rule) := by
  intro s sound
  unfold required
  rw [ensures_bind]
  refine (h s sound).mono ?_
  rintro (_ | statement) s₁ ⟨sound₁, same, isAction⟩
  · simp [cannotExpand]
  · simpa using ⟨sound₁, same, isAction statement rfl⟩

theorem acts_many {item : Parse (Option Statement)} (h : ActsIfAny loop item) (fuel : Nat)
    {s : Parser} (sound : s.Sound) :
    Ensures (many fuel item) (fun statements s' => s'.Sound ∧
      s'.nextLoop = s.nextLoop + Statement.totalLoops statements ∧
      Statement.AreActions loop s.nextLoop statements) s := by
  induction fuel generalizing s with
  | zero => simp [many]
  | succ fuel ih =>
      unfold many
      rw [ensures_bind]
      refine (h s sound).mono ?_
      rintro (_ | first) s₁ ⟨sound₁, same₁, isAction⟩
      · simpa [Statement.totalLoops, Statement.AreActions] using ⟨sound₁, same₁⟩
      · rw [ensures_bind]
        refine (ih sound₁).mono ?_
        rintro others s₂ ⟨sound₂, same₂, areActions⟩
        simp only [Option.elim_some] at same₁
        rw [same₁] at areActions same₂
        rw [ensures_pure]
        refine ⟨sound₂, ?_, isAction first rfl, areActions⟩
        simp only [Statement.totalLoops]
        omega

/-! ### Simple statements -/

theorem yields_separator : Yields separator (fun _ => True) := by
  refine yields_of_kind fun s sound => ?_
  split
  · exact yields_pure trivial s sound
  · exact yields_pure trivial s sound
  · exact ((yields_expect _).bind fun _ _ => yields_pure trivial) s sound

theorem yields_assignTo (fuel : Nat) (target : Expr) :
    Yields (assignTo fuel target)
      (fun assignment => assignment.target = target ∧ assignment.value.Fits .arithmetic) := by
  refine (yields_expect _).bind fun sign _ => (yields_expression fuel).bind fun value fits => ?_
  exact yields_pure ⟨rfl, fits⟩

theorem acts_identStatement (loop : Option LoopId) (fuel : Nat) {s : Parser} (sound : s.Sound)
    (isIdent : s.current.kind = .ident) :
    Ensures (identStatement fuel) (fun statement s' => s'.Sound ∧
      s'.nextLoop = s.nextLoop + statement.loops ∧ statement.IsAction loop s.nextLoop) s := by
  unfold identStatement
  rw [ensures_bind]
  refine (ensures_advance sound).mono ?_
  rintro token s₁ ⟨sound₁, same₁, rfl⟩
  have isName := sound.1 isIdent
  rw [ensures_bind, ensures_kind, ← same₁]
  have plainCall : Acts loop (pure (.call s.current.text [] s.current.position)) :=
    .of_yields (yields_pure ⟨rfl, fun _ => ⟨isName, .inl rfl⟩⟩)
  split
  · refine Acts.of_yields ((yields_assignTo fuel _).bind ?_) s₁ sound₁
    rintro ⟨_, value, position⟩ ⟨rfl, fits⟩
    exact yields_pure ⟨rfl, fun _ => ⟨rfl, isName, fits⟩⟩
  · have target := yields_element (yields_nested fuel) .arithmetic isName
    refine Acts.of_yields (target.bind fun target isTarget => ?_) s₁ sound₁
    refine (yields_assignTo fuel target).bind ?_
    rintro ⟨_, value, position⟩ ⟨rfl, fits⟩
    exact yields_pure ⟨rfl, fun _ => ⟨isTarget.1, isTarget.2, fits⟩⟩
  · have list := yields_arguments (yields_nested fuel) fuel s.current.text
    refine Acts.of_yields (list.bind fun arguments fit => ?_) s₁ sound₁
    exact yields_pure ⟨rfl, fun _ => ⟨isName, .inr fit⟩⟩
  · exact plainCall s₁ sound₁
  · exact plainCall s₁ sound₁
  · exact plainCall s₁ sound₁
  · simp

theorem acts_breakStatement : Acts loop (breakStatement loop) := by
  refine .of_yields (yields_advance.bind fun token _ => ?_)
  cases loop with
  | none => exact yields_throw
  | some id => exact yields_pure ⟨rfl, fun _ => rfl⟩

/-! ### Statements with statements inside -/

theorem acts_blockStatement (fuel : Nat) {inner : Parse Statement} (h : Acts loop inner) :
    Acts loop (blockStatement fuel inner) := by
  refine .after (yields_expect _) fun _ _ => ?_
  intro s sound
  rw [ensures_bind]
  refine (acts_many (?item : ActsIfAny loop _) fuel sound).mono ?_
  case item =>
    intro s sound
    rw [ensures_bind, ensures_kind]
    split
    · simpa using sound
    · simp [unexpected]
    · have some := h.orNone s sound
      rwa [← bind_pure_comp] at some
  rintro statements s₁ ⟨sound₁, same₁, areActions⟩
  have close : Yields (do
      let _ ← advance
      separator
      return Statement.block statements) (· = Statement.block statements) :=
    yields_advance.bind fun _ _ => yields_separator.bind fun _ _ => yields_pure rfl
  refine (close s₁ sound₁).mono ?_
  rintro _ s₂ ⟨sound₂, same₂, rfl⟩
  exact ⟨sound₂, same₂.trans same₁, areActions⟩

theorem acts_ifStatement (fuel : Nat) {inner : Parse Statement} (h : Acts loop inner) :
    Acts loop (ifStatement fuel inner) := by
  refine .after yields_advance fun token _ => .after (yields_condition fuel) fun test fits => ?_
  refine .after (yields_expect _) fun _ _ => ?_
  intro s sound
  rw [ensures_bind]
  refine (h s sound).mono ?_
  rintro holds s₁ ⟨sound₁, same₁, isAction₁⟩
  rw [ensures_bind, ensures_kind]
  split
  · rw [ensures_bind]
    refine (yields_advance s₁ sound₁).mono ?_
    rintro _ s₂ ⟨sound₂, same₂, -⟩
    rw [ensures_bind]
    refine (h s₂ sound₂).mono ?_
    rintro fails s₃ ⟨sound₃, same₃, isAction₃⟩
    rw [same₂, same₁] at same₃ isAction₃
    rw [ensures_pure]
    refine ⟨sound₃, ?_, fits, isAction₁, isAction₃⟩
    simp only [Statement.loops]
    omega
  · rw [ensures_pure]
    exact ⟨sound₁, same₁, fits, isAction₁⟩

theorem yields_direction : Yields direction (fun _ => True) := by
  refine yields_of_kind fun s sound => ?_
  split
  · exact (yields_advance.bind fun _ _ => yields_pure trivial) s sound
  · exact (yields_advance.bind fun _ _ => yields_pure trivial) s sound
  · exact yields_unexpected s sound

theorem acts_loop {inner : LoopId → Parse Statement} {wrap : LoopId → Statement → Statement}
    (h : ∀ id, Acts (some id) (inner id))
    (loops : ∀ id body, (wrap id body).loops = body.loops + 1)
    (wrapped : ∀ next body, body.IsAction (some ⟨next⟩) (next + 1) →
      (wrap ⟨next⟩ body).IsAction loop next) :
    Acts loop (do
      let id ← freshLoop
      return wrap id (← inner id)) := by
  intro s sound
  simp only [freshLoop, ensures_bind, ensures_get, ensures_modify, ensures_pure]
  have sound' : Parser.Sound { s with nextLoop := s.nextLoop + 1 } := sound
  refine (h ⟨s.nextLoop⟩ _ sound').mono ?_
  rintro body s₁ ⟨sound₁, same₁, isAction⟩
  refine ⟨sound₁, ?_, wrapped _ _ isAction⟩
  simp only [loops]
  simp only at same₁
  omega

theorem acts_whileStatement (fuel : Nat) {inner : LoopId → Parse Statement}
    (h : ∀ id, Acts (some id) (inner id)) : Acts loop (whileStatement fuel inner) := by
  refine .after yields_advance fun token _ => .after (yields_condition fuel) fun test fits => ?_
  refine .after (yields_expect _) fun _ _ => ?_
  exact acts_loop h (fun _ _ => rfl) fun _ _ isAction => ⟨rfl, fits, isAction⟩

theorem acts_forStatement (fuel : Nat) {inner : LoopId → Parse Statement}
    (h : ∀ id, Acts (some id) (inner id)) : Acts loop (forStatement fuel inner) := by
  refine .after yields_advance fun token _ => .after yields_ident fun counter isName => ?_
  refine .after (yields_assignTo fuel _) ?_
  rintro initial ⟨isCounter, valueFits⟩
  refine .after yields_direction fun direction _ => ?_
  refine .after (yields_expression fuel) fun limit limitFits => ?_
  refine .after (yields_expect _) fun _ _ => ?_
  exact acts_loop h (fun _ _ => rfl) fun _ _ isAction =>
    ⟨rfl, ⟨counter.text, counter.position, isCounter, isName⟩, valueFits, limitFits, isAction⟩

theorem actsIfAny_statementWith (fuel : Nat) {inner : Option LoopId → Parse Statement}
    (h : ∀ loop, Acts loop (inner loop)) (loop : Option LoopId) :
    ActsIfAny loop (statementWith fuel inner loop) := by
  intro s sound
  unfold statementWith
  rw [ensures_bind, ensures_kind]
  split
  · simpa using (acts_ifStatement fuel (h loop)).orNone s sound
  · simpa using (acts_whileStatement fuel fun id => h (some id)).orNone s sound
  · simpa using (acts_forStatement fuel fun id => h (some id)).orNone s sound
  · simpa using (acts_blockStatement fuel (h loop)).orNone s sound
  · rename_i isIdent
    rw [ensures_bind]
    refine (acts_identStatement loop fuel sound isIdent).mono ?_
    rintro statement s₁ ⟨sound₁, same₁, isAction⟩
    rw [ensures_bind]
    refine (yields_separator s₁ sound₁).mono ?_
    rintro _ s₂ ⟨sound₂, same₂, -⟩
    rw [ensures_pure]
    refine ⟨sound₂, by simpa [same₂] using same₁, ?_⟩
    rintro _ ⟨⟩
    exact isAction
  · simpa using (acts_breakStatement.before yields_separator).orNone s sound
  · simpa using sound

theorem actsIfAny_statement (fuel : Nat) (loop : Option LoopId) :
    ActsIfAny loop (statement? fuel loop) := by
  induction fuel generalizing loop with
  | zero =>
      intro s _
      simp [statement?]
  | succ fuel ih => exact actsIfAny_statementWith _ (fun loop => acts_required (ih loop)) loop

end Parse

end MiniPascal
