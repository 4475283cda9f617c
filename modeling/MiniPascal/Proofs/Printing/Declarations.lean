import MiniPascal.Proofs.Printing.Statements

/-!
# Printed declarations are read again

Every declaration is printed on lines of its own, which end with a semicolon.  An empty list of
parameters is left out with its parentheses.
-/

namespace MiniPascal

/-- Lines are read by a rule as something, wherever they stand; they have so many loops. -/
def Rule.Lines {α : Type} (rule : Rule α) (next loops : Nat) (text : String) (a : α) : Prop :=
  ∃ tokens, Closed text tokens ∧ ∀ last others,
    rule ⟨tokens ++ last :: others, next⟩ a ⟨last :: others, next + loops⟩

namespace Rule

/-! ### Types -/

theorem writes_integer : Writes "integer" [.ident "integer" .nowhere] :=
  ⟨[], _, .scan (.word .nowhere "integer"), rfl, .word, rfl⟩

theorem word_cons {text : String} {next : Token} {others : List Token} {loops : Nat} :
    word text ⟨.ident text .nowhere :: next :: others, loops⟩ () ⟨next :: others, loops⟩ :=
  ⟨text, _, ident_cons, rfl, rfl⟩

theorem ordinaryType_cons {next : Token} {others : List Token} {loops : Nat} :
    ordinaryType ⟨.ident "integer" .nowhere :: next :: others, loops⟩ .integer
      ⟨next :: others, loops⟩ :=
  ⟨_, _, word_cons, rfl, rfl⟩

theorem spells_ordinaryType : ordinaryType.Spells anywhere "integer" .integer :=
  ⟨_, writes_integer, fun _ _ _ _ => ordinaryType_cons⟩

theorem spells_dataType {type : DataType} (fits : type.Fits) :
    dataType.Spells anywhere type.render type.norm.bare := by
  cases type with
  | integer => exact spells_ordinaryType.le fun _ _ _ => .inr
  | array low high =>
      obtain ⟨lows, writesLow, readsLow⟩ := Expr.spells_nested fits.1
      obtain ⟨highs, writesHigh, readsHigh⟩ := Expr.spells_nested fits.2
      have front : Closed "array [" [.ident "array" .nowhere, .sign .leftBracket] := rfl
      have middle : Closed " .. " [.sign .dot, .sign .dot] := rfl
      have back : Writes "] of integer"
          [.sign .rightBracket, .sign .ofWord, .ident "integer" .nowhere] :=
        ⟨[_, _], _, .scan (.word .nowhere "integer"), rfl, .word, rfl⟩
      have written := (((front.append_writes writesLow).append_closed (by decide)
        middle).append_writes writesHigh).append (by decide) back
      refine ⟨_, written, fun next others loops _ => .inl ?_⟩
      simp only [List.append_assoc, List.cons_append, List.nil_append]
      exact ⟨_, _, word_cons, _, _, sign_append, _, _, readsLow _ _ _ (by decide), _, _, sign_cons,
        _, _, sign_append, _, _, readsHigh _ _ _ (by decide), _, _, sign_cons, _, _, sign_cons,
        _, _, ordinaryType_cons, rfl, rfl⟩

/-! ### Groups of names -/

theorem spells_group {type : Rule DataType} {group : VarGroup} (fits : group.Fits)
    (spells : type.Spells anywhere group.type.render group.type.norm.bare) :
    (Rule.group type).Spells anywhere group.render group.norm.bare := by
  obtain ⟨tokens, writes, reads⟩ := @spells_separated String ident anywhere String .comma ", "
    detaches_comma closed_comma trivial id id group.names fits.1
    (fun name isIn => spells_ident (fits.2.1 name isIn))
  obtain ⟨tokens', writes', reads'⟩ := spells
  have middle : Closed ": " [.sign .colon] := rfl
  have written := (writes.append_closed (by decide) middle).append_writes writes'
  rw [List.map_id] at written
  refine ⟨_, written, fun next others loops _ => ?_⟩
  obtain ⟨first, middle, isFirst, rest, _, isRest, isNames, rfl⟩ :=
    reads (.sign .colon) (tokens' ++ next :: others) loops trivial
  rw [List.map_id] at isNames
  have isGroup : group.norm.bare = ⟨first :: rest, group.type.norm.bare, .nowhere⟩ := by
    rw [← isNames]
    rfl
  rw [isGroup]
  simp only [List.append_assoc, List.singleton_append]
  exact ⟨_, _, isFirst, _, _, isRest, _, _, sign_append, _, _, reads' next others loops trivial, rfl, rfl⟩

/-! ### Variables and constants -/

theorem lines_vars {group : VarGroup} (fits : group.Fits) (depth next : Nat) :
    (vars <|> consts).Lines next 0 ((Statement.vars group).renderDeclaration depth)
      [(Statement.vars group).norm.bare] := by
  obtain ⟨tokens, writes, reads⟩ := spells_group fits (spells_dataType fits.2.2)
  have front : Closed "var " [.sign .varWord] := rfl
  have back : Closed ";\n" [.sign .semicolon] := rfl
  have closed := (((Statement.closed_indentation depth).append front).append_writes
    writes).append_closed (by decide) back
  rw [← Statement.renderDeclaration] at closed
  refine ⟨_, closed, fun last others => .inl ?_⟩
  simp only [List.append_assoc, List.cons_append, List.nil_append]
  exact ⟨_, _, sign_append, _, _, ⟨_, _, ⟨_, _, reads _ _ _ trivial, _, _, sign_cons, rfl, rfl⟩,
    [], _, .nil, rfl, rfl⟩, rfl, rfl⟩

theorem lines_constant {name : String} {value : Expr} {position : Position}
    (isIdentifier : IsIdentifier name) (fits : value.Fits .arithmetic) (depth next : Nat) :
    (vars <|> consts).Lines next 0 ((Statement.constant name value position).renderDeclaration depth)
      [(Statement.constant name value position).norm.bare] := by
  obtain ⟨tokens, writes, reads⟩ := Expr.spells_nested fits
  have front : Closed "const " [.sign .constWord] := rfl
  have middle : Closed " = " [.sign .equal] := rfl
  have back : Closed ";\n" [.sign .semicolon] := rfl
  have closed := ((((((Statement.closed_indentation depth).append front).append_writes
    (writes_ident isIdentifier)).append_closed (by decide) middle).append_writes
    writes).append_closed (by decide) back)
  rw [← Statement.renderDeclaration] at closed
  refine ⟨_, closed, fun last others => .inr ?_⟩
  simp only [List.append_assoc, List.cons_append, List.nil_append]
  exact ⟨_, _, sign_cons, _, _, ⟨_, _, ident_cons, _, _, sign_append, _, _, reads _ _ _ (by decide), _, _,
    sign_cons, rfl, rfl⟩, [], _, .nil, rfl, rfl⟩

theorem lines_storage {declaration : Statement} (isStorage : declaration.IsStorage)
    (depth next : Nat) :
    (vars <|> consts).Lines next 0 (declaration.renderDeclaration depth) [declaration.norm.bare] := by
  cases declaration with
  | vars group => exact lines_vars isStorage depth next
  | constant name value position => exact lines_constant isStorage.1 isStorage.2 depth next
  | _ => exact isStorage.elim

/-! ### Headings -/

theorem spells_parameterGroup {group : VarGroup} (fits : group.Fits ∧ group.type = .integer) :
    (Rule.group ordinaryType).Spells anywhere group.render group.norm.bare := by
  refine spells_group fits.1 ?_
  rw [fits.2]
  exact spells_ordinaryType

theorem spells_parameters {groups : List VarGroup} (notEmpty : groups ≠ [])
    (fit : ∀ group ∈ groups, group.Fits ∧ group.type = .integer) :
    parameters.Spells anywhere ("(" ++ "; ".intercalate (groups.map VarGroup.render) ++ ")")
      (groups.map fun group => group.norm.bare) := by
  obtain ⟨tokens, writes, reads⟩ := @spells_separated VarGroup (Rule.group ordinaryType) anywhere
    VarGroup .semicolon "; " (by decide) rfl trivial VarGroup.render (fun group => group.norm.bare) groups
    notEmpty (fun group isIn => spells_parameterGroup (fit group isIn))
  have front : Closed "(" [.sign .leftParen] := rfl
  have back : Closed ")" [.sign .rightParen] := rfl
  have closed := (front.append_writes writes).append_closed (by decide) back
  refine ⟨_, closed.writes, fun next others loops _ => ?_⟩
  simp only [List.append_assoc, List.cons_append, List.nil_append]
  exact ⟨_, _, sign_append, _, _, .inl (reads _ _ _ trivial), _, _, sign_cons, rfl, rfl⟩

theorem spells_named {name : String} {groups : List VarGroup} (isIdentifier : IsIdentifier name)
    (fit : ∀ group ∈ groups, group.Fits ∧ group.type = .integer) :
    ∃ tokens, Writes (name ++ (if groups.isEmpty then ""
          else "(" ++ "; ".intercalate (groups.map VarGroup.render) ++ ")")) tokens ∧
      ∀ next others loops, ∃ middle, ident ⟨tokens ++ next :: others, loops⟩ name middle ∧
        (parameters <|> return []) middle (groups.map fun group => group.norm.bare)
          ⟨next :: others, loops⟩ := by
  cases groups with
  | nil =>
      refine ⟨_, by simpa using writes_ident isIdentifier, fun next others loops => ?_⟩
      exact ⟨_, ident_cons, .inr ⟨rfl, rfl⟩⟩
  | cons first others =>
      obtain ⟨tokens, writes, reads⟩ := spells_parameters (List.cons_ne_nil first others) fit
      have detaches : Detaches "(" := by decide
      refine ⟨_, (writes_ident isIdentifier).append detaches.append.append writes, ?_⟩
      exact fun next others loops => ⟨_, ident_append, .inl (reads next others loops trivial)⟩

theorem spells_heading {heading : Heading} (fits : heading.Fits) :
    Rule.heading.Spells anywhere heading.render heading.norm.bare := by
  obtain ⟨name, groups, returns, position⟩ := heading
  obtain ⟨tokens, writes, reads⟩ := spells_named fits.1 fits.2.1
  have isMap : (groups.map VarGroup.norm).map VarGroup.bare = groups.map fun group => group.norm.bare :=
    List.map_map
  rcases fits.2.2 with isNone | isInteger
  · obtain rfl : returns = none := isNone
    have front : Closed "procedure " [.sign .procedureWord] := rfl
    have written := front.append_writes writes
    refine ⟨_, by simpa [Heading.render, String.append_assoc] using written, ?_⟩
    intro next others loops _
    obtain ⟨middle, isName, isParameters⟩ := reads next others loops
    rw [← isMap] at isParameters
    exact .inr ⟨_, _, sign_append, _, _, isName, _, _, isParameters, rfl, rfl⟩
  · obtain rfl : returns = some .integer := isInteger
    have front : Closed "function " [.sign .functionWord] := rfl
    have back : Writes ": integer" [.sign .colon, .ident "integer" .nowhere] :=
      ⟨[_], _, .scan (.word .nowhere "integer"), rfl, .word, rfl⟩
    have written := (front.append_writes writes).append (by decide) back
    have isText : (": " ++ "integer" : String) = ": integer" := rfl
    refine ⟨_, by simpa [Heading.render, String.append_assoc, DataType.render, isText] using written, ?_⟩
    intro next others loops _
    obtain ⟨middle, isName, isParameters⟩ :=
      reads (.sign .colon) (.ident "integer" .nowhere :: next :: others) loops
    rw [← isMap] at isParameters
    simp only [List.append_assoc, List.cons_append, List.nil_append]
    exact .inl ⟨_, _, sign_append, _, _, isName, _, _, isParameters, _, _, sign_cons, _, _,
      ordinaryType_cons, rfl, rfl⟩

end Rule

end MiniPascal
