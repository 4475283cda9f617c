import MiniPascal.Proofs.Lexical.Words

/-!
# Expressions that the grammar derives

Every rule of the expression grammar yields a tree that fits the grammar it was parsed with, and
leaves the numbering of loops alone.
-/

namespace MiniPascal

def Parser.Sound (parser : Parser) : Prop := parser.current.Sound ∧ parser.lexer.Sound

namespace Parse

variable {α β : Type}

def Yields (rule : Parse α) (property : α → Prop) : Prop :=
  ∀ s : Parser, s.Sound →
    Ensures rule (fun a s' => s'.Sound ∧ s'.nextLoop = s.nextLoop ∧ property a) s

theorem Yields.mono {rule : Parse α} {property weaker : α → Prop} (h : Yields rule property)
    (le : ∀ a, property a → weaker a) : Yields rule weaker :=
  fun s sound => (h s sound).mono fun a _ ⟨sound', same, holds⟩ => ⟨sound', same, le a holds⟩

/-! ### Primitive rules -/

theorem yields_pure {property : α → Prop} {a : α} (h : property a) :
    Yields (pure a) property := by
  intro s sound
  simpa using ⟨sound, h⟩

theorem yields_throw {property : α → Prop} {error : ParseError} :
    Yields (throw error : Parse α) property := by
  intro s _
  simp

theorem Yields.bind {rule : Parse α} {next : α → Parse β} {middle : α → Prop}
    {property : β → Prop} (first : Yields rule middle)
    (second : ∀ a, middle a → Yields (next a) property) : Yields (rule >>= next) property := by
  intro s sound
  rw [ensures_bind]
  refine (first s sound).mono ?_
  rintro a s₁ ⟨sound₁, same₁, holds⟩
  refine (second a holds s₁ sound₁).mono ?_
  rintro b s₂ ⟨sound₂, same₂, holds₂⟩
  exact ⟨sound₂, same₂.trans same₁, holds₂⟩

@[simp] theorem ensures_current {post : Token → Parser → Prop} {s : Parser} :
    Ensures current post s ↔ post s.current s := by
  simp [current]

@[simp] theorem ensures_kind {post : TokenKind → Parser → Prop} {s : Parser} :
    Ensures kind post s ↔ post s.current.kind s := by
  simp [kind]

@[simp] theorem ensures_position {post : Position → Parser → Prop} {s : Parser} :
    Ensures position post s ↔ post s.current.position s := by
  simp [position]

theorem yields_position : Yields position (fun _ => True) := by
  intro s sound
  simpa using sound

theorem yields_of_kind {rule : TokenKind → Parse α} {property : α → Prop}
    (h : ∀ s : Parser, s.Sound → Ensures (rule s.current.kind)
      (fun a s' => s'.Sound ∧ s'.nextLoop = s.nextLoop ∧ property a) s) :
    Yields (kind >>= rule) property := by
  intro s sound
  rw [ensures_bind, ensures_kind]
  exact h s sound

theorem ensures_draw {action : EStateM LexError Lexer α} {property : α → Prop} {s : Parser}
    (h : Ensures action (fun a lexer => property a ∧ lexer.Sound) s.lexer) :
    Ensures (draw action)
      (fun a s' => property a ∧ s'.lexer.Sound ∧ s'.current = s.current ∧
        s'.nextLoop = s.nextLoop) s := by
  intro a s' ok
  unfold draw at ok
  split at ok
  · rename_i drawn
    cases ok
    obtain ⟨holds, sound⟩ := h _ _ drawn
    exact ⟨holds, sound, rfl, rfl⟩
  · cases ok

theorem yields_draw {action : EStateM LexError Lexer α} {property : α → Prop}
    (h : ∀ {lexer : Lexer}, lexer.Sound →
      Ensures action (fun a rest => property a ∧ rest.Sound) lexer) :
    Yields (draw action) property := by
  intro s sound
  refine (ensures_draw (h sound.2)).mono ?_
  rintro a s₁ ⟨holds, lexerSound, current, same⟩
  exact ⟨⟨current ▸ sound.1, lexerSound⟩, same, holds⟩

theorem ensures_advance {s : Parser} (sound : s.Sound) :
    Ensures advance (fun token s' => s'.Sound ∧ s'.nextLoop = s.nextLoop ∧ token = s.current) s := by
  simp only [advance, ensures_bind, ensures_current, ensures_modify, ensures_pure]
  refine (ensures_draw (Lexer.ensures_next sound.2)).mono ?_
  rintro token s₁ ⟨tokenSound, lexerSound, -, same⟩
  exact ⟨⟨tokenSound, lexerSound⟩, same, trivial⟩

theorem yields_advance : Yields advance Token.Sound := by
  intro s sound
  refine (ensures_advance sound).mono ?_
  rintro token s₁ ⟨sound₁, same, rfl⟩
  exact ⟨sound₁, same, sound.1⟩

theorem yields_unexpected {wanted : TokenKind} {property : α → Prop} :
    Yields (unexpected wanted) property := by
  intro s _
  simp [unexpected]

theorem yields_cannotExpand {rule : Nonterminal} {property : α → Prop} :
    Yields (cannotExpand rule) property := by
  intro s _
  simp [cannotExpand]

theorem yields_expect (wanted : TokenKind) :
    Yields (expect wanted) (fun token => token.kind = wanted ∧ token.Sound) := by
  refine yields_of_kind fun s sound => ?_
  split
  · rename_i isWanted
    refine (ensures_advance sound).mono ?_
    rintro token s₁ ⟨sound₁, same, rfl⟩
    exact ⟨sound₁, same, isWanted, sound.1⟩
  · exact yields_unexpected s sound

theorem yields_ident : Yields (expect .ident) (fun token => IsIdentifier token.text) :=
  (yields_expect .ident).mono fun _ ⟨isIdent, sound⟩ => sound isIdent

theorem yields_name : Yields name IsIdentifier :=
  yields_ident.bind fun _ h => yields_pure h

theorem yields_backtrack {passed : Token} (passedSound : passed.Sound) :
    Yields (backtrack passed) (fun _ => True) := by
  intro s sound
  simp only [backtrack, ensures_bind, ensures_current, ensures_modify]
  have sound' := Lexer.sound_giveBack (Lexer.sound_giveBack sound.2 sound.1) passedSound
  refine (ensures_draw (Lexer.ensures_next sound')).mono ?_
  rintro token s₁ ⟨tokenSound, lexerSound, -, same⟩
  exact ⟨⟨tokenSound, lexerSound⟩, same, trivial⟩

theorem yields_many {item : Parse (Option α)} {property : α → Prop}
    (h : Yields item (fun a? => ∀ a, a? = some a → property a)) (fuel : Nat) :
    Yields (many fuel item) (fun items => ∀ a ∈ items, property a) := by
  induction fuel with
  | zero => exact yields_throw
  | succ fuel ih =>
      refine h.bind fun a? holds => ?_
      cases a? with
      | none => exact yields_pure (by simp)
      | some first =>
          refine ih.bind fun others othersHold => yields_pure ?_
          simpa using ⟨holds first rfl, othersHold⟩

/-! ### Expressions -/

theorem yields_operation {operator? : TokenKind → Option BinaryOp} {operand : Parse Expr}
    (allowed : BinaryOp → Prop) {property : Expr → Prop}
    (operators : ∀ kind op, operator? kind = some op → allowed op)
    (h : Yields operand property) :
    Yields (operation? operator? operand)
      (fun operation? => ∀ operation, operation? = some operation →
        allowed operation.1 ∧ property operation.2.2) := by
  refine yields_of_kind fun s sound => ?_
  split
  · simpa using sound
  · rename_i op isOp
    refine (yields_advance.bind fun token _ => h.bind fun right holds => yields_pure ?_) s sound
    rintro operation ⟨⟩
    exact ⟨operators _ op isOp, holds⟩

theorem fits_chain {grammar : Grammar} {left : Expr}
    {operations : List (BinaryOp × Position × Expr)} (leftFits : left.Fits grammar)
    (operationsFit : ∀ operation ∈ operations,
      (grammar = .arithmetic → operation.1.isArithmetic) ∧ operation.2.2.Fits grammar) :
    (chain left operations).Fits grammar := by
  induction operations generalizing left with
  | nil => exact leftFits
  | cons operation others ih =>
      obtain ⟨allowed, rightFits⟩ := operationsFit operation (by simp)
      exact ih ⟨allowed, leftFits, rightFits⟩ fun other isOther =>
        operationsFit other (by simp [isOther])

theorem yields_operations {operator? : TokenKind → Option BinaryOp} {first operand : Parse Expr}
    (grammar : Grammar) (fuel : Nat)
    (operators : ∀ kind op, operator? kind = some op → grammar = .arithmetic → op.isArithmetic)
    (firstFits : Yields first (·.Fits grammar)) (operandFits : Yields operand (·.Fits grammar)) :
    Yields (operations fuel operator? first operand) (·.Fits grammar) := by
  refine firstFits.bind fun left leftFits => ?_
  refine (yields_many (yields_operation _ operators operandFits) fuel).bind fun others fit => ?_
  exact yields_pure (fits_chain leftFits fit)

section
variable {nested : Grammar → Parse Expr} (nestedFits : ∀ grammar, Yields (nested grammar) (·.Fits grammar))
include nestedFits

theorem yields_element {array : Token} (grammar : Grammar) (isName : IsIdentifier array.text) :
    Yields (element nested array) (fun expr => expr.target?.isSome ∧ expr.Fits grammar) := by
  refine yields_advance.bind fun _ _ => (nestedFits .arithmetic).bind fun index indexFits => ?_
  refine (yields_expect _).bind fun _ _ => yields_pure ?_
  exact ⟨rfl, isName, indexFits⟩

theorem yields_assignable :
    Yields (assignable nested) (fun expr => expr.target?.isSome ∧ expr.Fits .arithmetic) := by
  refine yields_ident.bind fun token isName => yields_of_kind fun s sound => ?_
  split
  · exact yields_element nestedFits .arithmetic isName s sound
  · simpa [Expr.target?, Expr.Fits] using ⟨sound, isName⟩

omit nestedFits in
theorem yields_literal :
    Yields literal (fun expr => ∃ text position, expr = .literal text position ∧
      '\'' ∉ text.toList) := by
  refine yields_of_kind fun s sound => ?_
  split
  · exact (yields_unexpected.bind fun _ (h : False) => h.elim) s sound
  · refine (yields_position.bind fun position _ => ?_) s sound
    refine (yields_draw Lexer.ensures_rawText).bind fun text notMem => ?_
    refine yields_advance.bind fun _ _ => (yields_expect _).bind fun _ _ => ?_
    exact yields_pure ⟨text, position, rfl, notMem⟩

theorem yields_argument (callee : String) (notWrite : Builtin.ofName? callee ≠ some .write) :
    Yields (argument nested callee)
      (fun expr => expr.Fits .arithmetic ∧ ArgumentShape callee [expr]) := by
  unfold argument ArgumentShape
  split
  · refine (yields_assignable nestedFits).mono fun expr h => ⟨h.2, ?_⟩
    simp_all
  · refine (yields_assignable nestedFits).mono fun expr h => ⟨h.2, ?_⟩
    simp_all
  · refine (nestedFits .arithmetic).mono fun expr h => ⟨h, ?_⟩
    split <;> simp_all

omit nestedFits in
theorem yields_argumentList {item : Parse Expr} {property : Expr → Prop}
    (itemHolds : Yields item property) (fuel : Nat) :
    Yields (argumentList fuel item) (fun arguments => ∀ argument ∈ arguments, property argument) := by
  refine yields_of_kind fun s sound => ?_
  split
  · exact yields_pure (by simp) s sound
  · refine (itemHolds.bind fun first firstHolds => ?_) s sound
    have next : Yields (do
        if (← kind) = .rightParen then return none
        let _ ← expect .comma
        return some (← item)) (fun other? => ∀ other, other? = some other → property other) := by
      refine yields_of_kind fun s sound => ?_
      split
      · simpa using sound
      · refine ((yields_expect _).bind fun _ _ => itemHolds.bind fun other holds => ?_) s sound
        exact yields_pure (by simpa using holds)
    refine (yields_many next fuel).bind fun others othersHold => yields_pure ?_
    simpa using ⟨firstHolds, othersHold⟩

omit nestedFits in
theorem argumentShape_of_forall {callee : String} {arguments : List Expr}
    (notWrite : Builtin.ofName? callee ≠ some .write)
    (shapes : ∀ argument ∈ arguments, ArgumentShape callee [argument]) :
    ArgumentShape callee arguments := by
  unfold ArgumentShape at *
  split <;> simp_all

omit nestedFits in
theorem allFit_of_forall {arguments : List Expr}
    (fit : ∀ argument ∈ arguments, argument.Fits .arithmetic) : Expr.AllFit arguments := by
  induction arguments with
  | nil => trivial
  | cons first others ih =>
      exact ⟨fit first (by simp), ih fun other isOther => fit other (by simp [isOther])⟩

theorem yields_arguments (fuel : Nat) (callee : String) :
    Yields (arguments fuel nested callee) (ArgumentsFit callee) := by
  refine (yields_expect _).bind fun _ _ => ?_
  have close : ∀ arguments, ArgumentsFit callee arguments → Yields (do
      let _ ← expect .rightParen
      return arguments) (ArgumentsFit callee) :=
    fun arguments fit => (yields_expect _).bind fun _ _ => yields_pure fit
  dsimp only
  split
  · rename_i isWrite
    refine yields_literal.bind ?_
    rintro expr ⟨text, position, rfl, notMem⟩
    refine (yields_pure rfl).bind fun arguments isList => close arguments ?_
    subst isList
    exact ⟨by simpa [ArgumentShape, isWrite] using notMem, fun notWrite => absurd isWrite notWrite⟩
  · rename_i notWrite
    refine (yields_argumentList (yields_argument nestedFits callee notWrite) fuel).bind ?_
    intro arguments fit
    refine close arguments ⟨argumentShape_of_forall notWrite ?_, fun _ => allFit_of_forall ?_⟩
    · exact fun argument isArgument => (fit argument isArgument).2
    · exact fun argument isArgument => (fit argument isArgument).1

theorem yields_factor (fuel : Nat) (grammar : Grammar) :
    Yields (factor fuel nested grammar) (·.Fits grammar) := by
  refine yields_of_kind fun s sound => ?_
  split
  · rename_i isIdent
    rw [ensures_bind]
    refine (ensures_advance sound).mono ?_
    rintro token s₁ ⟨sound₁, same₁, rfl⟩
    have isName := sound.1 isIdent
    rw [ensures_bind, ensures_kind, ← same₁]
    split
    · exact (yields_element nestedFits grammar isName).mono (fun _ h => h.2) s₁ sound₁
    · refine ((yields_arguments nestedFits fuel _).bind fun arguments fit => ?_) s₁ sound₁
      exact yields_pure ⟨isName, fit⟩
    · exact yields_pure (show (Expr.ident _ _).Fits grammar from isName) s₁ sound₁
  · exact (yields_advance.bind fun token _ => yields_pure trivial) s sound
  · refine (yields_advance.bind fun _ _ => (nestedFits grammar).bind fun inner fits => ?_) s sound
    exact (yields_expect _).bind fun _ _ => yields_pure fits
  · exact yields_cannotExpand s sound

theorem yields_term (fuel : Nat) (grammar : Grammar) :
    Yields (term fuel nested grammar) (·.Fits grammar) := by
  refine yields_operations grammar fuel ?_ (yields_factor nestedFits fuel grammar)
    (yields_factor nestedFits fuel grammar)
  intro kind op isOp _
  unfold BinaryOp.ofMultiplicative? at isOp
  split at isOp <;> simp_all [BinaryOp.isArithmetic]
  all_goals subst isOp; rfl

theorem yields_signedTerm (fuel : Nat) (grammar : Grammar) :
    Yields (signedTerm fuel nested grammar) (·.Fits grammar) := by
  refine yields_of_kind fun s sound => ?_
  split
  · refine (yields_advance.bind fun _ _ => ?_) s sound
    exact (yields_term nestedFits fuel grammar).bind fun _ fits => yields_pure fits
  · exact yields_term nestedFits fuel grammar s sound

theorem yields_sum (fuel : Nat) (grammar : Grammar) :
    Yields (sum fuel nested grammar) (·.Fits grammar) := by
  refine yields_operations grammar fuel ?_ (yields_signedTerm nestedFits fuel grammar)
    (yields_term nestedFits fuel grammar)
  intro kind op isOp _
  unfold BinaryOp.ofAdditive? at isOp
  split at isOp <;> simp_all [BinaryOp.isArithmetic]
  all_goals subst isOp; rfl

theorem yields_comparison (fuel : Nat) :
    Yields (comparison fuel nested) (·.Fits .condition) := by
  have sum := yields_sum nestedFits fuel .condition
  refine sum.bind fun left leftFits => ?_
  refine (yields_operation (fun _ => True) (fun _ _ _ => trivial) sum).bind ?_
  intro operation? fit
  cases operation? with
  | none => exact yields_pure leftFits
  | some operation =>
      refine yields_pure (fits_chain leftFits ?_)
      simpa using (fit operation rfl).2

theorem yields_negation (fuel : Nat) (depth : Nat) :
    Yields (negation fuel nested depth) (·.Fits .condition) := by
  induction depth with
  | zero => exact yields_throw
  | succ depth ih =>
      refine yields_of_kind fun s sound => ?_
      split
      · refine (yields_advance.bind fun _ _ => ih.bind fun operand fits => ?_) s sound
        exact yields_pure ⟨rfl, fits⟩
      · exact yields_comparison nestedFits fuel s sound

theorem yields_disjunction (fuel : Nat) :
    Yields (disjunction fuel nested) (·.Fits .condition) := by
  have negation := yields_negation nestedFits fuel fuel
  have conjunction : Yields (conjunction fuel nested) (·.Fits .condition) :=
    yields_operations .condition fuel (by simp) negation negation
  exact yields_operations .condition fuel (by simp) conjunction conjunction

end

theorem yields_nested (fuel : Nat) (grammar : Grammar) :
    Yields (nested fuel grammar) (·.Fits grammar) := by
  induction fuel generalizing grammar with
  | zero => exact yields_throw
  | succ fuel ih =>
      cases grammar with
      | arithmetic => exact yields_sum ih (fuel + 1) .arithmetic
      | condition => exact yields_disjunction ih (fuel + 1)

theorem yields_expression (fuel : Nat) : Yields (expression fuel) (·.Fits .arithmetic) :=
  yields_nested fuel .arithmetic

theorem yields_condition (fuel : Nat) : Yields (condition fuel) (·.Fits .condition) :=
  yields_nested fuel .condition

end Parse

end MiniPascal
