import MiniPascal.Proofs.Acceptance.Programs

/-!
# The `else` of the nearest `if`

The grammar of programs as it is usually written lets an `else` belong to any `if` in front of it
that has none.  A parser gives it to the nearest one.  It misses no text by that: whatever the grammar
reads can also be read with every `else` at the nearest `if`.  Reading the other way, a statement may
be left open, which means that it ends with an `if` that an `else` behind it belongs to.
-/

namespace MiniPascal

namespace Rule

open Parse (noElse)

variable {α β γ δ : Type}

/-- Wherever one rule reads, the other reads as far, maybe to something else. -/
def Covers (rule : Rule α) (other : Rule β) : Prop :=
  ∀ input a rest, rule input a rest → ∃ b, other input b rest

theorem Covers.refl (rule : Rule α) : Covers rule rule := fun _ a _ read => ⟨a, read⟩

theorem Covers.bind {rule : Rule α} {other : Rule β} {next : α → Rule γ} {next' : β → Rule δ}
    (first : Covers rule other) (second : ∀ a b, Covers (next a) (next' b)) :
    Covers (rule >>= next) (other >>= next') := by
  rintro input c rest ⟨a, middle, read, reads⟩
  obtain ⟨b, read'⟩ := first _ _ _ read
  obtain ⟨d, reads'⟩ := second a b _ _ _ reads
  exact ⟨d, b, middle, read', reads'⟩

theorem Covers.pure (a : α) (b : β) : Covers (Pure.pure a : Rule α) (Pure.pure b : Rule β) := by
  rintro input _ _ ⟨rfl, rfl⟩
  exact ⟨b, rfl, rfl⟩

theorem Covers.orElse {first second : Rule α} {first' second' : Rule β} (left : Covers first first')
    (right : Covers second second') : Covers (first <|> second) (first' <|> second') := by
  rintro input a rest (read | read)
  · obtain ⟨b, read'⟩ := left _ _ _ read
    exact ⟨b, .inl read'⟩
  · obtain ⟨b, read'⟩ := right _ _ _ read
    exact ⟨b, .inr read'⟩

theorem Covers.star {rule : Rule α} {other : Rule β} (covers : Covers rule other) :
    Covers (star rule) (star other) := by
  intro input as rest reads
  induction reads with
  | nil => exact ⟨[], .nil⟩
  | cons head _ ih =>
      obtain ⟨b, head'⟩ := covers _ _ _ head
      obtain ⟨bs, tail'⟩ := ih
      exact ⟨b :: bs, .cons head' tail'⟩

/-! ### Statements that end with a statement -/

def ifHead : Rule Expr := do
  let _ ← token .ifWord
  let condition ← condition
  let _ ← token .thenWord
  return condition

def loopHead : Rule (LoopId × (Statement → Statement)) :=
  (do
    let _ ← token .whileWord
    let condition ← condition
    let _ ← token .doWord
    let id ← freshLoop
    return (id, fun body => .whileLoop id condition body .nowhere)) <|> do
  let _ ← token .forWord
  let counter ← ident
  let initial ← assignTo (.ident counter .nowhere)
  let direction ← direction
  let limit ← expression
  let _ ← token .doWord
  let id ← freshLoop
  return (id, fun body => .forLoop id initial direction limit body .nowhere)

theorem action_eq (Stops : TokenKind → Prop) (inner : Option LoopId → Rule Statement)
    (loop : Option LoopId) : action Stops inner loop =
      ((do
        let condition ← ifHead
        let holds ← inner loop
        (do
          let _ ← token .elseWord
          let fails ← inner loop
          return .ifThenElse condition holds fails .nowhere) <|> do
        ahead Stops
        return .ifThen condition holds .nowhere) <|> (do
        let head ← loopHead
        let body ← inner (some head.1)
        return head.2 body) <|> blockAction inner loop <|> simple loop) := by
  simp only [action, ifAction, whileAction, forAction, ifHead, loopHead, orElse_bind, bind_assoc,
    pure_bind, orElse_assoc]

section

variable {loop : Option LoopId} {input middle rest : Input} {condition : Expr}

theorem statement_ifThen {holds : Statement} (head : ifHead input condition middle)
    (read : statement noElse loop middle holds rest) (noneFollows : rest.kind ≠ .elseWord) :
    ∃ tree, statement noElse loop input tree rest := by
  refine ⟨.ifThen condition holds .nowhere, ?_⟩
  rw [statement_eq, action_eq]
  exact .inl ⟨_, _, head, _, _, read, .inr ⟨(), _, ⟨noneFollows, rfl⟩, rfl, rfl⟩⟩

theorem statement_ifThenElse {behind after : Input} {holds fails : Statement} {sign : Token}
    (head : ifHead input condition middle) (read : statement noElse loop middle holds behind)
    (passed : token .elseWord behind sign after) (read' : statement noElse loop after fails rest) :
    ∃ tree, statement noElse loop input tree rest := by
  refine ⟨.ifThenElse condition holds fails .nowhere, ?_⟩
  rw [statement_eq, action_eq]
  exact .inl ⟨_, _, head, _, _, read, .inl ⟨_, _, passed, _, _, read', rfl, rfl⟩⟩

theorem statement_loop {made : LoopId × (Statement → Statement)} {body : Statement}
    (head : loopHead input made middle)
    (read : statement noElse (some made.1) middle body rest) :
    ∃ tree, statement noElse loop input tree rest := by
  refine ⟨made.2 body, ?_⟩
  rw [statement_eq, action_eq]
  exact .inr (.inl ⟨_, _, head, _, _, read, rfl, rfl⟩)

end

/-! ### Open statements -/

/-- A statement that ends with an `if` without an `else`, whatever follows. -/
inductive Open : Option LoopId → Input → Input → Prop where
  | dangling {loop : Option LoopId} {input middle rest : Input} {condition : Expr} {holds : Statement}
      (head : ifHead input condition middle) (read : statement noElse loop middle holds rest) :
      Open loop input rest
  | holds {loop : Option LoopId} {input middle rest : Input} {condition : Expr}
      (head : ifHead input condition middle) (inner : Open loop middle rest) : Open loop input rest
  | fails {loop : Option LoopId} {input middle behind after rest : Input} {condition : Expr}
      {holds : Statement} {sign : Token} (head : ifHead input condition middle)
      (read : statement noElse loop middle holds behind) (passed : token .elseWord behind sign after)
      (inner : Open loop after rest) : Open loop input rest
  | body {loop : Option LoopId} {input middle rest : Input} {made : LoopId × (Statement → Statement)}
      (head : loopHead input made middle) (inner : Open (some made.1) middle rest) :
      Open loop input rest

def Read (loop : Option LoopId) (input rest : Input) : Prop :=
  (∃ tree, statement noElse loop input tree rest) ∨ Open loop input rest

variable {loop : Option LoopId} {input middle rest : Input}

theorem Open.complete (isOpen : Open loop input rest) (noneFollows : rest.kind ≠ .elseWord) :
    ∃ tree, statement noElse loop input tree rest := by
  induction isOpen with
  | dangling head read => exact statement_ifThen head read noneFollows
  | holds head _ ih =>
      obtain ⟨tree, read⟩ := ih noneFollows
      exact statement_ifThen head read noneFollows
  | fails head read passed _ ih =>
      obtain ⟨tree, read'⟩ := ih noneFollows
      exact statement_ifThenElse head read passed read'
  | body head _ ih =>
      obtain ⟨tree, read⟩ := ih noneFollows
      exact statement_loop head read

theorem Read.complete (read : Read loop input rest) (noneFollows : rest.kind ≠ .elseWord) :
    ∃ tree, statement noElse loop input tree rest :=
  read.elim id fun isOpen => isOpen.complete noneFollows

theorem Read.holds {condition : Expr} (head : ifHead input condition middle)
    (read : Read loop middle rest) : Read loop input rest := by
  rcases read with ⟨tree, read⟩ | isOpen
  · exact .inr (.dangling head read)
  · exact .inr (.holds head isOpen)

theorem Read.fails {behind after : Input} {condition : Expr} {holds : Statement} {sign : Token}
    (head : ifHead input condition middle) (first : statement noElse loop middle holds behind)
    (passed : token .elseWord behind sign after) (read : Read loop after rest) :
    Read loop input rest := by
  rcases read with ⟨tree, read⟩ | isOpen
  · exact .inl (statement_ifThenElse head first passed read)
  · exact .inr (.fails head first passed isOpen)

theorem Read.body {made : LoopId × (Statement → Statement)} (head : loopHead input made middle)
    (read : Read (some made.1) middle rest) : Read loop input rest := by
  rcases read with ⟨tree, read⟩ | isOpen
  · exact .inl (statement_loop head read)
  · exact .inr (.body head isOpen)

def Within (inner loop : Option LoopId) : Prop := inner = loop ∨ inner.isSome

theorem Within.trans {innermost inner loop : Option LoopId} (h₁ : Within innermost inner)
    (h₂ : Within inner loop) : Within innermost loop := by
  rcases h₁ with rfl | isSome
  · exact h₂
  · exact .inr isSome

/-- An open statement takes an `else`.  It may take it inside of a loop where there was none. -/
theorem Open.absorb {after last : Input} {sign : Token} (isOpen : Open loop input rest)
    (passed : token .elseWord rest sign after)
    (fails : ∀ inner, Within inner loop → Read inner after last) :
    Read loop input last := by
  induction isOpen with
  | dangling head read => exact (fails _ (.inl rfl)).fails head read passed
  | holds head _ ih => exact (ih passed fails).holds head
  | fails head read passed' _ ih => exact (ih passed fails).fails head read passed'
  | body head _ ih =>
      have inLoop {id : LoopId} {inner : Option LoopId} (within : Within inner (some id)) :
          inner.isSome := within.elim (fun same => same ▸ rfl) fun isSome => isSome
      exact (ih passed fun inner within => fails inner (.inr (inLoop within))).body head

/-! ### Any statement -/

theorem star_statement {inner : Rule Statement} (begins : Begins BeginsStatement inner)
    (reads : ∀ input tree rest, inner input tree rest → Read loop input rest) {trees : List Statement}
    (star_ : star inner input trees rest) (isEnd : rest.kind = .endWord) :
    (∃ trees', star (statement noElse loop) input trees' rest) ∧ input.kind ≠ .elseWord := by
  induction star_ with
  | nil => exact ⟨⟨[], .nil⟩, by simp [isEnd]⟩
  | cons head _ ih =>
      obtain ⟨⟨trees', tail'⟩, noneFollows⟩ := ih isEnd
      obtain ⟨tree', head'⟩ := (reads _ _ _ head).complete noneFollows
      refine ⟨⟨tree' :: trees', .cons head' tail'⟩, fun isElse => ?_⟩
      simpa [isElse, BeginsStatement] using begins _ _ _ head

theorem simple_covers {inner : Option LoopId} (within : Within inner loop) :
    Covers (simple loop) (simple inner) := by
  refine (Covers.orElse (.refl _) (.orElse (.refl _) ?_)).bind fun _ _ =>
    (Covers.refl separator).bind fun _ _ => .pure _ _
  cases loop with
  | none => exact fun _ _ _ read => read.elim
  | some id =>
      have isSome : inner.isSome := within.elim (fun same => same ▸ rfl) fun isSome => isSome
      obtain ⟨id', rfl⟩ := Option.isSome_iff_exists.1 isSome
      exact (Covers.refl (token .breakWord)).bind fun _ _ => .pure _ _

/-- A statement of the grammar in which an `else` may belong to any `if`. -/
theorem read_of_statement {tree : Statement}
    (derived : statement (fun _ => True) loop input tree rest) {inner : Option LoopId}
    (within : Within inner loop) : Read inner input rest := by
  induction derived generalizing inner with
  | @intro actual below loop input rest tree root ih =>
      have ofSimple (read : simple loop input tree rest) : Read inner input rest := by
        obtain ⟨tree', read'⟩ := simple_covers within _ _ _ read
        refine .inl ⟨tree', ?_⟩
        rw [statement_eq, action_eq]
        exact .inr (.inr (.inr read'))
      rw [action_eq] at root
      rcases root with ⟨condition, middle, head, holds, behind, read, tail⟩ |
          ⟨made, middle, head, body, _, read, rfl, rfl⟩ | ⟨sign, middle, passed, trees, last, reads, sign',
            after, passed', _, _, separated, rfl, rfl⟩ | read
      · rcases tail with ⟨sign, after, passed, fails, _, read', rfl, rfl⟩ | ⟨_, _, ⟨-, rfl⟩, rfl, rfl⟩
        · have fails (deeper : Option LoopId) (isWithin : Within deeper inner) : Read deeper after rest :=
            ih _ _ _ _ read' (isWithin.trans within)
          rcases ih _ _ _ _ read within with ⟨tree, read⟩ | isOpen
          · exact (fails inner (.inl rfl)).fails head read passed
          · exact (isOpen.absorb passed fails).holds head
        · exact (ih _ _ _ _ read within).holds head
      · exact (ih _ _ _ _ read (.inl rfl)).body head
      · have begins : Begins BeginsStatement (actual loop) := fun _ _ _ read =>
          begins_statement _ _ _ _ _ (below _ _ _ _ read)
        obtain ⟨⟨trees', reads'⟩, -⟩ := star_statement begins
          (fun _ _ _ read => ih _ _ _ _ read within) reads (begins_token _ _ _ _ passed')
        refine .inl ⟨.block trees', ?_⟩
        rw [statement_eq, action_eq]
        exact .inr (.inr (.inl ⟨_, _, passed, _, _, reads', _, _, passed', _, _, separated, rfl, rfl⟩))
      · exact ofSimple read

/-! ### Programs -/

theorem body_covers : Covers (body fun _ => True) (body noElse) := by
  rintro input trees rest ⟨sign, middle, passed, trees, behind, reads, sign', _, passed', rfl, rfl⟩
  obtain ⟨⟨trees', reads'⟩, -⟩ := star_statement (begins_statement _ none)
    (fun _ _ _ read => read_of_statement read (.inl rfl)) reads (begins_token _ _ _ _ passed')
  exact ⟨trees', _, _, passed, _, _, reads', _, _, passed', rfl, rfl⟩

theorem callable_covers : Covers (callable fun _ => True) (callable noElse) := by
  refine (Covers.refl heading).bind fun _ _ => (Covers.refl _).bind fun _ _ => Covers.orElse ?_ ?_
  · exact (Covers.refl _).bind fun _ _ => (Covers.refl _).bind fun _ _ => .pure _ _
  · exact (Covers.refl _).bind fun _ _ => body_covers.bind fun _ _ =>
      (Covers.refl _).bind fun _ _ => .pure _ _

theorem topLevel_covers : Covers (topLevel fun _ => True) (topLevel noElse) :=
  (callable_covers.bind fun _ _ => .pure _ _).orElse (.refl _)

theorem program_covers : Covers (program fun _ => True) (program noElse) :=
  (Covers.refl header).bind fun _ _ => topLevel_covers.star.bind fun _ _ =>
    body_covers.bind fun _ _ => (Covers.refl _).bind fun _ _ =>
      (Covers.refl _).bind fun _ _ => .pure _ _

/-- The grammar with every `else` at the nearest `if` is part of the other one. -/
theorem statement_le (loop : Option LoopId) :
    Le (statement noElse loop) (statement (fun _ => True) loop) := by
  intro input tree rest derived
  induction derived with
  | @intro inner below loop input rest tree root ih =>
      have more : Le (action noElse inner loop) (action (fun _ => True) inner loop) := by
        refine Le.orElse ?_ (.refl _)
        refine (Le.refl _).bind fun _ => (Le.refl _).bind fun _ => (Le.refl _).bind fun _ =>
          (Le.refl _).bind fun _ => Le.orElse (.refl _) (Le.bind ?_ fun _ => .refl _)
        exact fun _ _ _ ⟨_, same⟩ => ⟨trivial, same⟩
      rw [statement_eq]
      exact Le.action _ (fun loop input tree rest => ih loop input tree rest) loop _ _ _
        (more _ _ _ root)

theorem body_le : Le (body noElse) (body fun _ => True) :=
  (Le.refl _).bind fun _ => (Le.star (statement_le none)).bind fun _ => .refl _

theorem callable_le : Le (callable noElse) (callable fun _ => True) :=
  (Le.refl _).bind fun _ => (Le.refl _).bind fun _ => Le.orElse (.refl _) <|
    (Le.refl _).bind fun _ => body_le.bind fun _ => .refl _

theorem program_le : Le (program noElse) (program fun _ => True) :=
  (Le.refl _).bind fun _ => (Le.star ((callable_le.bind fun _ => .refl _).orElse (.refl _))).bind
    fun _ => body_le.bind fun _ => .refl _

end Rule

/-- A text is parsed exactly if its lexemes derive from the grammar of programs.  The tree is that of
a derivation, and of the only one in which every `else` belongs to the nearest `if`. -/
theorem Program.parse_derives (text : String) :
    ((∃ program, Program.parse text = .ok program) ↔
      ∃ tree rest, Rule.program (fun _ => True) (Input.ofText text) tree rest) ∧
    ∀ program, Program.parse text = .ok program →
      (∃ rest, Rule.program (fun _ => True) (Input.ofText text) program.bare rest) ∧
      ∀ tree, (∃ rest, Rule.program (· ≠ .elseWord) (Input.ofText text) tree rest) ↔
        tree = program.bare := by
  have derives {program : Program} (parsed : Program.parse text = .ok program) :
      ∃ rest, Rule.program Parse.noElse (Input.ofText text) program.bare rest :=
    (Program.parse_iff text program.bare).1 ⟨program, parsed, rfl⟩
  refine ⟨⟨?_, ?_⟩, fun program parsed => ⟨?_, fun tree => ⟨fun derived => ?_, ?_⟩⟩⟩
  · rintro ⟨program, parsed⟩
    obtain ⟨rest, derived⟩ := derives parsed
    exact ⟨program.bare, rest, Rule.program_le _ _ _ derived⟩
  · rintro ⟨tree, rest, derived⟩
    obtain ⟨tree', derived'⟩ := Rule.program_covers _ _ _ derived
    obtain ⟨program, parsed, -⟩ := (Program.parse_iff text tree').2 ⟨rest, derived'⟩
    exact ⟨program, parsed⟩
  · obtain ⟨rest, derived⟩ := derives parsed
    exact ⟨rest, Rule.program_le _ _ _ derived⟩
  · obtain ⟨program', parsed', rfl⟩ := (Program.parse_iff text tree).2 derived
    cases parsed.symm.trans parsed'
    rfl
  · rintro rfl
    exact derives parsed

end MiniPascal
