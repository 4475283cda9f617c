import MiniPascal.Proofs.Layout.Translation
import MiniPascal.Proofs.Printing.Mains

/-!
# Printing what was read from a printed text

A printed text that is read and printed again stays as it is, but for one number: the least of the 32
bits has no opposite, so that it is read as the negation of itself and gains a sign with each round.
-/

namespace MiniPascal

/-! ### Numbers -/

mutual

def Expr.numbers : Expr → List Int32
  | .number value _ => [value]
  | .binary _ left right _ => left.numbers ++ right.numbers
  | .negate operand _ | .not operand _ => operand.numbers
  | .element _ index _ => index.numbers
  | .call _ arguments _ => Expr.numbersAll arguments
  | .ident _ _ | .literal _ _ => []

def Expr.numbersAll : List Expr → List Int32
  | [] => []
  | first :: others => first.numbers ++ Expr.numbersAll others

end

def DataType.numbers : DataType → List Int32
  | integer => []
  | array low high => low.numbers ++ high.numbers

def Assignment.numbers (assignment : Assignment) : List Int32 :=
  assignment.target.numbers ++ assignment.value.numbers

mutual

def Statement.numbers : Statement → List Int32
  | .program _ | .forward _ | .leave _ _ => []
  | .vars group => group.type.numbers
  | .constant _ value _ => value.numbers
  | .callable _ body => Statement.numbersAll body
  | .call _ arguments _ => Expr.numbersAll arguments
  | .assign assignment => assignment.numbers
  | .block statements => Statement.numbersAll statements
  | .ifThen condition holds _ => condition.numbers ++ holds.numbers
  | .ifThenElse condition holds fails _ => condition.numbers ++ holds.numbers ++ fails.numbers
  | .whileLoop _ condition body _ => condition.numbers ++ body.numbers
  | .forLoop _ initial _ limit body _ => initial.numbers ++ limit.numbers ++ body.numbers

def Statement.numbersAll : List Statement → List Int32
  | [] => []
  | first :: others => first.numbers ++ Statement.numbersAll others

end

def Program.numbers (program : Program) : List Int32 := Statement.numbersAll program.statements

/-- How often the least number is among some. -/
def leasts (numbers : List Int32) : Nat := numbers.count Int32.minValue

theorem leasts_append (first second : List Int32) :
    leasts (first ++ second) = leasts first + leasts second := List.count_append

/-! ### Texts -/

/-- A text and the one that is printed in its place, with so many more signs in parentheses. -/
structure Reprints (signs : Nat) (text again : String) : Prop where
  length : again.length = text.length + 3 * signs
  same : signs = 0 → again = text

namespace Reprints

variable {signs more : Nat} {text again first second : String}

theorem refl (text : String) : Reprints 0 text text := ⟨rfl, fun _ => rfl⟩

theorem append (front : Reprints signs text again) (back : Reprints more first second) :
    Reprints (signs + more) (text ++ first) (again ++ second) := by
  refine ⟨?_, fun none => ?_⟩
  · rw [String.length_append, String.length_append, front.length, back.length]
    omega
  · rw [front.same (by omega), back.same (by omega)]

theorem surround (front back : String) (reprints : Reprints signs text again) :
    Reprints signs (front ++ text ++ back) (front ++ again ++ back) := by
  have whole := ((refl front).append reprints).append (refl back)
  rwa [Nat.zero_add, Nat.add_zero] at whole

theorem prepend (front : String) (reprints : Reprints signs text again) :
    Reprints signs (front ++ text) (front ++ again) := by
  have whole := (refl front).append reprints
  rwa [Nat.zero_add] at whole

theorem eq_iff (reprints : Reprints signs text again) : again = text ↔ signs = 0 := by
  constructor
  · rintro rfl
    have length := reprints.length
    omega
  · exact reprints.same

end Reprints

inductive ReprintsAll : Nat → List String → List String → Prop where
  | nil : ReprintsAll 0 [] []
  | cons {signs more : Nat} {text again : String} {texts agains : List String} :
      Reprints signs text again → ReprintsAll more texts agains →
        ReprintsAll (signs + more) (text :: texts) (again :: agains)

namespace ReprintsAll

variable {signs : Nat} {texts agains : List String}

theorem commaSeparated (all : ReprintsAll signs texts agains) :
    Reprints signs (commaSeparated texts) (commaSeparated agains) := by
  induction all with
  | nil => exact .refl _
  | @cons _ _ first again _ _ head tail ih =>
      cases tail with
      | nil => simpa [MiniPascal.commaSeparated] using head
      | cons second others =>
          have isList (front next : String) (rest : List String) :
              MiniPascal.commaSeparated (front :: next :: rest) =
                front ++ (", " ++ MiniPascal.commaSeparated (next :: rest)) := by
            simp [MiniPascal.commaSeparated, String.intercalate_cons_cons, String.append_assoc]
          rw [isList, isList]
          exact head.append (ih.prepend ", ")

theorem renderCall (callee : String) (all : ReprintsAll signs texts agains) :
    Reprints signs (renderCall callee texts) (renderCall callee agains) := by
  cases all with
  | nil => exact .refl _
  | cons head tail => exact (ReprintsAll.cons head tail).commaSeparated.surround (callee ++ "(") ")"

theorem renderItems (depth : Nat) (all : ReprintsAll signs texts agains) :
    Reprints signs (renderItems depth texts) (renderItems depth agains) := by
  induction all with
  | nil => exact .refl _
  | cons head tail ih =>
      cases tail with
      | nil => exact head.surround _ _
      | cons second others =>
          rw [renderItems_cons, renderItems_cons]
          exact (head.surround _ _).append ih

theorem renderBlock (depth : Nat) (all : ReprintsAll signs texts agains) :
    Reprints signs (renderBlock depth texts) (renderBlock depth agains) := by
  have block := (all.renderItems (depth + 1)).surround "begin\n" (indentation depth ++ "end")
  simpa [MiniPascal.renderBlock, String.append_assoc] using block

theorem join (all : ReprintsAll signs texts agains) :
    Reprints signs (String.join texts) (String.join agains) := by
  induction all with
  | nil => exact .refl _
  | cons head tail ih =>
      rw [String.join_cons, String.join_cons]
      exact head.append ih

end ReprintsAll

/-! ### Expressions -/

theorem toInt_neg_of_neg {value : Int32} (notLeast : value ≠ Int32.minValue) :
    (-value).toInt = -value.toInt := by
  have notEqual : value.toInt ≠ Int32.minValue.toInt := fun same => notLeast (Int32.toInt_inj.1 same)
  have least : Int32.minValue.toInt = -2 ^ 31 := by decide
  have bound := value.minValue_le_toInt
  have above := value.toInt_lt
  rw [Int32.toInt_neg, Int.bmod_def]
  omega

theorem Expr.reprints_number (value : Int32) (position : Position) :
    Reprints (leasts [value]) (Expr.number value position).render
      (Expr.number value position).norm.render := by
  rw [Expr.norm]
  split
  · rename_i isNegative
    by_cases isLeast : value = Int32.minValue
    · subst isLeast
      simp only [Expr.render]
      exact ⟨by decide +kernel, by decide +kernel⟩
    · have opposite := toInt_neg_of_neg isLeast
      have isBelow : value.toInt < 0 := Int32.lt_iff_toInt_lt.1 isNegative
      have notNegative : ¬ -value < 0 := fun isBelow' => by
        have isBelow' : (-value).toInt < 0 := Int32.lt_iff_toInt_lt.1 isBelow'
        omega
      have isText := (Int32.toString_of_nonneg notNegative).1
      rw [show (-value).toInt.toNat = value.toInt.natAbs by omega] at isText
      have none : leasts [value] = 0 := by simp [leasts, isLeast]
      rw [none, Expr.render, Expr.render, Expr.render, if_pos isNegative, if_neg notNegative, isText]
      exact .refl _
  · rename_i notNegative
    have isOther : value ≠ Int32.minValue := by
      rintro rfl
      exact notNegative (by decide)
    have none : leasts [value] = 0 := by simp [leasts, isOther]
    rw [none]
    exact .refl _

mutual

theorem Expr.reprints (expr : Expr) :
    Reprints (leasts expr.numbers) expr.render expr.norm.render := by
  cases expr with
  | ident name position | literal text position => exact .refl _
  | number value position => exact reprints_number value position
  | binary op left right position =>
      rw [Expr.numbers, leasts_append]
      have first := (reprints left).surround "(" (" " ++ op.spelling ++ " ")
      have whole := first.append ((reprints right).append (.refl ")"))
      simpa [Expr.norm, Expr.render, String.append_assoc] using whole
  | negate operand position => exact (reprints operand).surround _ _
  | not operand position => exact (reprints operand).surround _ _
  | element array index position => exact (reprints index).surround _ _
  | call callee arguments position =>
      have all := (reprintsAll arguments).renderCall callee
      cases arguments with
      | nil => exact .refl _
      | cons first others => exact all

theorem Expr.reprintsAll (exprs : List Expr) :
    ReprintsAll (leasts (Expr.numbersAll exprs)) (Expr.renderAll exprs)
      (Expr.renderAll (Expr.normAll exprs)) := by
  cases exprs with
  | nil => exact .nil
  | cons first others =>
      rw [Expr.numbersAll, leasts_append]
      exact .cons (reprints first) (reprintsAll others)

end

theorem DataType.reprints (type : DataType) :
    Reprints (leasts type.numbers) type.render type.norm.render := by
  cases type with
  | integer => exact .refl _
  | array low high =>
      rw [DataType.numbers, leasts_append]
      have first := (low.reprints).surround "array [" " .. "
      have whole := first.append ((high.reprints).append (.refl "] of integer"))
      simpa [DataType.norm, DataType.render, String.append_assoc] using whole

theorem Assignment.reprints (assignment : Assignment) :
    Reprints (leasts assignment.numbers) assignment.render assignment.norm.render := by
  rw [Assignment.numbers, leasts_append]
  exact (assignment.target.reprints.append (.refl " := ")).append assignment.value.reprints

/-! ### Statements -/

namespace Statement

def Reprinted (statement : Statement) : Prop :=
  ∀ depth, Reprints (leasts statement.numbers) (statement.render depth) (statement.norm.render depth)

theorem renderBraced_braced (statement : Statement) (depth : Nat) :
    statement.braced.renderBraced depth = statement.renderBraced depth := by
  cases statement <;> simp [braced, renderBraced, renderAll]

theorem reprints_braced {statement : Statement} (reprinted : statement.Reprinted) (depth : Nat) :
    Reprints (leasts statement.numbers) (statement.renderBraced depth)
      (statement.norm.braced.renderBraced depth) := by
  rw [renderBraced_braced]
  have single : ReprintsAll (leasts statement.numbers) [statement.render (depth + 1)]
      [statement.norm.render (depth + 1)] := by
    have all := ReprintsAll.cons (reprinted (depth + 1)) .nil
    rwa [Nat.add_zero] at all
  cases statement with
  | block statements => simpa [norm, render, renderBraced] using reprinted depth
  | _ => simpa [norm, renderBraced] using single.renderBlock depth

mutual

theorem reprints : (statement : Statement) → (loop : Option LoopId) → (next : Nat) →
    statement.IsAction loop next → statement.Reprinted
  | .call callee arguments position, _, _, _ => fun depth => by
      rw [numbers, norm, render, render]
      exact (Expr.reprintsAll arguments).renderCall callee
  | .assign assignment, _, _, _ => fun depth => by
      rw [numbers, norm, render, render]
      exact assignment.reprints
  | .block statements, loop, next, isAction => fun depth => by
      rw [numbers, norm, render, render]
      exact (reprintsAll statements loop next isAction (depth + 1)).renderBlock depth
  | .ifThen condition holds position, loop, next, isAction => fun depth => by
      rw [numbers, norm, render, render, leasts_append]
      exact (condition.reprints.surround "if " " then ").append
        (reprints holds loop next isAction.2 depth)
  | .ifThenElse condition holds fails position, loop, next, isAction => fun depth => by
      have test := condition.reprints.surround "if " " then "
      have first := reprints_braced (reprints holds loop next isAction.2.1) depth
      have second := reprints fails loop _ isAction.2.2 depth
      rw [numbers, norm, render, render, leasts_append, leasts_append]
      exact ((test.append first).append (.refl " else ")).append second
  | .whileLoop id condition body position, _, _, isAction => fun depth => by
      rw [numbers, norm, render, render, leasts_append]
      exact (condition.reprints.surround "while " " do ").append
        (reprints body _ _ isAction.2.2 depth)
  | .forLoop id initial direction limit body position, _, _, isAction => fun depth => by
      have start := initial.reprints.surround "for " (" " ++ direction.spelling ++ " ")
      have header := start.append (limit.reprints.append (.refl " do "))
      have whole := header.append (reprints body _ _ isAction.2.2.2.2 depth)
      rw [numbers, norm, render, render, leasts_append, leasts_append]
      simpa [String.append_assoc] using whole
  | .leave loop position, _, _, _ => fun depth => by
      rw [numbers, norm]
      exact .refl _
  | .program _, _, _, isAction | .vars _, _, _, isAction | .constant _ _ _, _, _, isAction
  | .forward _, _, _, isAction | .callable _ _, _, _, isAction => isAction.elim

theorem reprintsAll : (statements : List Statement) → (loop : Option LoopId) → (next : Nat) →
    AreActions loop next statements → ∀ depth, ReprintsAll (leasts (numbersAll statements))
      (renderAll depth statements) (renderAll depth (normAll statements))
  | [], _, _, _ => fun depth => by
      rw [numbersAll, normAll, renderAll]
      exact .nil
  | first :: others, loop, next, areActions => fun depth => by
      rw [numbersAll, normAll, renderAll, renderAll, leasts_append]
      exact .cons (reprints first loop next areActions.1 depth)
        (reprintsAll others loop _ areActions.2 depth)

end

/-! ### Declarations -/

theorem reprints_storage {declaration : Statement} (isStorage : declaration.IsStorage) (depth : Nat) :
    Reprints (leasts declaration.numbers) (declaration.renderDeclaration depth)
      (declaration.norm.renderDeclaration depth) := by
  cases declaration with
  | vars group =>
      have type := group.type.reprints.surround
        (indentation depth ++ "var " ++ (commaSeparated group.names ++ ": ")) ";\n"
      rw [numbers, norm, renderDeclaration, renderDeclaration]
      simpa [VarGroup.render, VarGroup.norm, String.append_assoc] using type
  | constant name value position =>
      have text := value.reprints.surround (indentation depth ++ "const " ++ name ++ " = ") ";\n"
      rw [numbers, norm, renderDeclaration, renderDeclaration]
      exact text
  | _ => exact isStorage.elim

theorem isDeclaration_norm (statement : Statement) :
    statement.norm.isDeclaration = statement.isDeclaration := by
  cases statement <;> rfl

theorem reprints_body {declarations actions : List Statement} {next : Nat}
    (areStorage : ∀ declaration ∈ declarations, declaration.IsStorage)
    (areActions : AreActions none next actions) (depth : Nat) :
    Reprints (leasts (numbersAll (declarations ++ actions))) (renderBody depth (declarations ++ actions))
      (renderBody depth (normAll (declarations ++ actions))) := by
  induction declarations with
  | nil =>
      have block := (reprintsAll actions none next areActions (depth + 1)).renderBlock depth
      cases actions with
      | nil =>
          rw [List.append_nil, normAll, numbersAll]
          exact .refl _
      | cons first others =>
          rw [normAll] at block
          rw [List.nil_append, normAll, renderBody, renderBody, isDeclaration_norm,
            areActions.1.isDeclaration, if_neg Bool.false_ne_true, if_neg Bool.false_ne_true]
          exact block.prepend _
  | cons first others ih =>
      rw [List.forall_mem_cons] at areStorage
      rw [List.cons_append, normAll, renderBody, renderBody, isDeclaration_norm,
        areStorage.1.isDeclaration, if_pos rfl, if_pos rfl, numbersAll, leasts_append]
      exact (reprints_storage areStorage.1 (depth + 1)).append (ih areStorage.2)

end Statement

theorem Heading.norm_of_fits {heading : Heading} (fits : heading.Fits) : heading.norm = heading := by
  have parameters : heading.parameters.map VarGroup.norm = heading.parameters := by
    refine (List.map_congr_left fun group isIn => ?_).trans (List.map_id _)
    obtain ⟨-, isInteger⟩ := fits.2.1 group isIn
    rw [VarGroup.norm, isInteger, DataType.norm, ← isInteger]
    rfl
  have returns : heading.returns.map DataType.norm = heading.returns := by
    rcases fits.2.2 with isNone | isInteger
    · rw [isNone]
      rfl
    · rw [isInteger]
      rfl
  rw [Heading.norm, parameters, returns]

/-! ### Positions -/

theorem VarGroup.render_bare (group : VarGroup) : group.bare.render = group.render := by
  obtain ⟨names, type, position⟩ := group
  cases type with
  | integer => rfl
  | array low high =>
      simp [VarGroup.bare, DataType.bare, VarGroup.render, DataType.render, Lower.render_bare]

theorem Assignment.render_bare (assignment : Assignment) :
    assignment.bare.render = assignment.render := by
  simp [Assignment.bare, Assignment.render, Lower.render_bare]

theorem Heading.render_bare (heading : Heading) : heading.bare.render = heading.render := by
  have parameters : VarGroup.render ∘ VarGroup.bare = VarGroup.render := funext VarGroup.render_bare
  obtain ⟨name, groups, returns, position⟩ := heading
  cases returns with
  | none => simp [Heading.bare, Heading.render, parameters]
  | some type =>
      cases type <;>
        simp [Heading.bare, Heading.render, DataType.bare, DataType.render, parameters,
          Lower.render_bare]

namespace Statement

theorem renderBraced_bare {statement : Statement}
    (same : ∀ depth, statement.bare.render depth = statement.render depth) (depth : Nat) :
    statement.bare.renderBraced depth = statement.renderBraced depth := by
  cases statement with
  | program name => rfl
  | block statements => simpa only [bare, render, renderBraced] using same depth
  | _ =>
      have single := same (depth + 1)
      simp only [bare] at single ⊢
      simp only [renderBraced, single]

mutual

theorem render_bare (statement : Statement) (depth : Nat) :
    statement.bare.render depth = statement.render depth := by
  cases statement with
  | call callee arguments position => rw [bare, render, render, Lower.renderAll_bare]
  | assign assignment => rw [bare, render, render, Assignment.render_bare]
  | block statements => rw [bare, render, render, renderAll_bare statements]
  | ifThen condition holds position =>
      rw [bare, render, render, Lower.render_bare, render_bare holds]
  | ifThenElse condition holds fails position =>
      rw [bare, render, render, Lower.render_bare, renderBraced_bare (render_bare holds),
        render_bare fails]
  | whileLoop id condition body position =>
      rw [bare, render, render, Lower.render_bare, render_bare body]
  | forLoop id initial direction limit body position =>
      rw [bare, render, render, Lower.render_bare, Assignment.render_bare, render_bare body]
  | _ => simp only [bare, render]

theorem renderAll_bare (statements : List Statement) (depth : Nat) :
    renderAll depth (bareAll statements) = renderAll depth statements := by
  cases statements with
  | nil => rfl
  | cons first others =>
      rw [bareAll, renderAll, renderAll, render_bare first, renderAll_bare others]

end

theorem isDeclaration_bare (statement : Statement) :
    statement.bare.isDeclaration = statement.isDeclaration := by
  cases statement <;> rfl

mutual

theorem renderDeclaration_bare (statement : Statement) (depth : Nat) :
    statement.bare.renderDeclaration depth = statement.renderDeclaration depth := by
  have same := render_bare statement depth
  cases statement with
  | vars group => rw [bare, renderDeclaration, renderDeclaration, VarGroup.render_bare]
  | constant name value position => rw [bare, renderDeclaration, renderDeclaration, Lower.render_bare]
  | forward heading => rw [bare, renderDeclaration, renderDeclaration, Heading.render_bare]
  | callable heading body =>
      rw [bare, renderDeclaration, renderDeclaration, Heading.render_bare, renderBody_bare body]
  | program name => rfl
  | _ =>
      simp only [bare] at same ⊢
      simp only [renderDeclaration, same]

theorem renderBody_bare (statements : List Statement) (depth : Nat) :
    renderBody depth (bareAll statements) = renderBody depth statements := by
  cases statements with
  | nil => rfl
  | cons first others =>
      rw [bareAll, renderBody, renderBody, isDeclaration_bare, renderDeclaration_bare first,
        renderBody_bare others, ← bareAll, renderAll_bare]

end

end Statement

/-! ### Programs -/

namespace Program

theorem reprints_topLevel {declaration : Statement} {next : Nat}
    (isTopLevel : declaration.IsTopLevel next) (notMain : declaration.callableName? ≠ some mainName) :
    Reprints (leasts declaration.numbers) (renderTopLevel declaration)
      (renderTopLevel declaration.norm) := by
  have storage (isStorage : declaration.IsStorage) := Statement.reprints_storage isStorage 0
  cases declaration with
  | forward heading =>
      rw [Statement.norm, Heading.norm_of_fits isTopLevel]
      exact .refl _
  | callable heading body =>
      have notName : heading.name ≠ mainName := fun isMain => notMain (congrArg some isMain)
      obtain ⟨fits, declarations, actions, rfl, areStorage, areActions⟩ := isTopLevel
      rw [Statement.norm, Heading.norm_of_fits fits, renderTopLevel, renderTopLevel, if_neg notName,
        if_neg notName, Statement.renderDeclaration, Statement.renderDeclaration]
      exact (Statement.reprints_body areStorage areActions 0).surround _ _
  | vars group | constant name value position => exact storage isTopLevel
  | _ => exact isTopLevel.elim

theorem reprints_main {actions : List Statement} {next : Nat}
    (areActions : Statement.AreActions none next actions) (position : Position) :
    Reprints (leasts (Parse.mainCallable position actions).numbers)
      (renderTopLevel (Parse.mainCallable position actions))
      (renderTopLevel (Parse.mainCallable position actions).norm) := by
  have block := (Statement.reprintsAll actions none next areActions 1).renderBlock 0
  have whole := block.append (.refl ".\n")
  simpa [Parse.mainCallable, Statement.norm, Statement.numbers, Heading.norm, renderTopLevel]
    using whole

theorem reprintsAll_topLevel {statements : List Statement}
    (reprint : ∀ statement ∈ statements, Reprints (leasts statement.numbers) (renderTopLevel statement)
      (renderTopLevel statement.norm)) :
    ReprintsAll (leasts (Statement.numbersAll statements)) (statements.map renderTopLevel)
      ((Statement.normAll statements).map renderTopLevel) := by
  induction statements with
  | nil => exact .nil
  | cons first others ih =>
      rw [List.forall_mem_cons] at reprint
      rw [Statement.numbersAll, Statement.normAll, leasts_append]
      exact .cons reprint.1 (ih reprint.2)

/-- The text of a normal form has a further sign for each least number. -/
theorem reprints {program : Program} (grammatical : program.Grammatical)
    (oneMain : program.HasOneMain) :
    Reprints (leasts program.numbers) program.render program.norm.render := by
  obtain ⟨header, declarations, position, actions, isProgram, isHeader, areTopLevel, areActions⟩ :=
    grammatical
  refine (reprintsAll_topLevel fun statement isIn => ?_).join
  rw [HasOneMain, isProgram, List.dropLast_concat] at oneMain
  rw [isProgram, List.mem_append, List.mem_append, List.mem_singleton] at isIn
  rcases isIn with (isIn | isIn) | rfl
  · rcases isHeader with rfl | ⟨name, -, rfl⟩
    · cases isIn
    · rw [List.mem_singleton.1 isIn]
      exact .refl _
  · obtain ⟨next, isTopLevel⟩ := Statement.isTopLevel_of_mem areTopLevel isIn
    exact reprints_topLevel isTopLevel (oneMain statement (List.mem_append_right header isIn))
  · exact reprints_main areActions position

theorem renderTopLevel_bare (statement : Statement) :
    renderTopLevel statement.bare = renderTopLevel statement := by
  have same := Statement.renderDeclaration_bare statement 0
  cases statement with
  | forward heading =>
      rw [Statement.bare] at same ⊢
      rw [renderTopLevel, renderTopLevel, same]
      rfl
  | callable heading body =>
      rw [Statement.bare] at same ⊢
      rw [renderTopLevel, renderTopLevel, same, Statement.renderAll_bare]
      rfl
  | _ => exact same

theorem render_bare (program : Program) : program.bare.render = program.render := by
  rw [render, render, bare, Statement.bareAll_eq]
  simp only [Placed.bare, List.map_map]
  exact congrArg _ (List.map_congr_left fun statement _ => renderTopLevel_bare statement)

theorem reprints_again {source : String} {program again : Program}
    (parsed : parse source = .ok program) (parsedAgain : parse program.render = .ok again) :
    Reprints (leasts program.numbers) program.render again.render := by
  have grammatical := grammatical_of_parse parsed
  have oneMain : program.HasOneMain := Classical.byContradiction fun notOne =>
    not_parses_render grammatical notOne ⟨again, parsedAgain⟩
  obtain ⟨_, isAgain, same⟩ := parse_render_of_grammatical grammatical oneMain
  obtain rfl := Except.ok.inj (parsedAgain.symm.trans isAgain)
  rw [← render_bare again, same, render_bare]
  exact reprints grammatical oneMain

/-- A printed text that is read and printed again stays as it is exactly if the least number is not in
the program. -/
theorem render_again_iff {source : String} {program again : Program}
    (parsed : parse source = .ok program) (parsedAgain : parse program.render = .ok again) :
    again.render = program.render ↔ Int32.minValue ∉ program.numbers := by
  rw [(reprints_again parsed parsedAgain).eq_iff, leasts, List.count_eq_zero]

/-- The theorem at a number that is printed with a sign, and is read as a negation. -/
theorem render_again_iff_negative :
    ∃ program again, parse "procedure p; begin end; begin p(); x := 4294967295 end." = .ok program ∧
      parse program.render = .ok again ∧ again.render = program.render := by
  obtain ⟨program, parsed, holds⟩ := exists_of_any
    "procedure p; begin end; begin p(); x := 4294967295 end."
    (fun program => decide (program.HasOneMain ∧ Int32.minValue ∉ program.numbers))
    (by decide +kernel)
  obtain ⟨oneMain, notIn⟩ := of_decide_eq_true holds
  obtain ⟨again, parsedAgain, -⟩ :=
    parse_render_of_grammatical (grammatical_of_parse parsed) oneMain
  exact ⟨program, again, parsed, parsedAgain, (render_again_iff parsed parsedAgain).2 notIn⟩

/-- The least number is read as its own negation, and is printed with one more sign. -/
theorem render_again_least :
    ∃ program again, parse "begin x := 2147483648 end." = .ok program ∧
      parse program.render = .ok again ∧ again.render ≠ program.render := by
  obtain ⟨program, parsed, holds⟩ := exists_of_any "begin x := 2147483648 end."
    (fun program => decide (program.HasOneMain ∧ leasts program.numbers = 1)) (by decide +kernel)
  obtain ⟨oneMain, isOne⟩ := of_decide_eq_true holds
  obtain ⟨again, parsedAgain, -⟩ :=
    parse_render_of_grammatical (grammatical_of_parse parsed) oneMain
  refine ⟨program, again, parsed, parsedAgain, fun same => ?_⟩
  have none := (reprints_again parsed parsedAgain).eq_iff.1 same
  rw [isOne] at none
  exact Nat.one_ne_zero none

end Program

end MiniPascal
