import MiniPascal.Proofs.Lexical.Stream

/-!
# Parsers that read what a rule reads

A parser knows one token, a rule of a grammar sees all lexemes to come.  `Parse.Reads` says that a
step of the parser succeeds exactly where a rule can read, with the tree that the rule builds, and
leaves what the rule leaves.  Trees are compared without positions.

Steps that count down a fuel do so only for inputs that are not longer than the fuel; hence the bound
on the size.  It is enough because no rule makes the input longer.
-/

namespace MiniPascal

namespace Parser

theorem input_size_pos (parser : Parser) : 0 < parser.input.size := by
  rw [Input.size, input, List.length_map]
  exact List.length_pos_iff.2 (parser.lexer.lexemesFrom_ne_nil parser.current)

theorem kind_input (parser : Parser) : parser.input.kind = parser.current.kind := by
  obtain ⟨lexer, current, loops⟩ := parser
  unfold input lexemes Lexer.lexemesFrom Lexer.complete Lexer.final
  split
  · split at *
    · rename_i isEnd _
      rw [if_pos isEnd]
      split <;> exact isEnd.symm
    · rename_i notEnd _
      rw [if_neg notEnd]
      rfl
  · rename_i whole rest completed
    split at completed
    · cases completed
    · split at completed
      · split at completed
        · cases completed
        · split at completed
          · cases completed
          · split at completed
            · cases completed
              rfl
            · cases completed
      · cases completed
        rfl

theorem input_size_le_fuel (parser : Parser) : parser.input.size ≤ parser.fuel := by
  rw [Input.size, input, List.length_map, lexemes, Lexer.lexemesFrom, fuel]
  split
  · simp
  · rename_i whole rest completed
    have shorter := (Lexer.remaining_complete completed).2
    have bounded := rest.length_lexemes
    rw [List.length_cons]
    omega

end Parser

namespace Parse

variable {α β : Type} [Placed α] [Placed β]

/-- On inputs up to a size that begin with certain kinds, a step reads what a rule reads, and takes at
least so many lexemes. -/
structure Reads (least size : Nat) (kinds : TokenKind → Prop) (action : Parse α) (rule : Rule α) :
    Prop where
  exact : ∀ parser : Parser, parser.input.size ≤ size → kinds parser.input.kind → ∀ a rest,
    (∃ a' parser', action parser = .ok a' parser' ∧ Placed.bare a' = a ∧ parser'.input = rest) ↔
      rule parser.input a rest
  shorter : ∀ parser : Parser, parser.input.size ≤ size → kinds parser.input.kind → ∀ a parser',
    action parser = .ok a parser' → parser'.input.size + least ≤ parser.input.size

def anyKind : TokenKind → Prop := fun _ => True

variable {least size : Nat} {kinds : TokenKind → Prop} {action : Parse α} {rule : Rule α}

theorem Reads.unique (reads : Reads least size kinds action rule) {parser : Parser}
    (bounded : parser.input.size ≤ size) (begins : kinds parser.input.kind) {a b : α}
    {rest rest' : Input} (read : rule parser.input a rest) (read' : rule parser.input b rest') :
    a = b ∧ rest = rest' := by
  obtain ⟨_, _, isOk, rfl, rfl⟩ := (reads.exact parser bounded begins a rest).2 read
  obtain ⟨_, _, isOk', rfl, rfl⟩ := (reads.exact parser bounded begins b rest').2 read'
  cases isOk.symm.trans isOk'
  exact ⟨rfl, rfl⟩

theorem Reads.atSize {fewer : Nat} (reads : Reads least size kinds action rule)
    (le : fewer ≤ size) : Reads least fewer kinds action rule where
  exact parser bounded := reads.exact parser (Nat.le_trans bounded le)
  shorter parser bounded := reads.shorter parser (Nat.le_trans bounded le)

theorem Reads.onKinds {more : TokenKind → Prop} (reads : Reads least size kinds action rule)
    (weaker : ∀ kind, more kind → kinds kind) : Reads least size more action rule where
  exact parser bounded begins := reads.exact parser bounded (weaker _ begins)
  shorter parser bounded begins := reads.shorter parser bounded (weaker _ begins)

theorem Reads.ofAny (reads : Reads least size anyKind action rule) :
    Reads least size kinds action rule :=
  reads.onKinds fun _ _ => trivial

theorem Reads.weaken (reads : Reads least size kinds action rule) :
    Reads 0 size kinds action rule where
  exact := reads.exact
  shorter parser bounded begins a parser' ok :=
    Nat.le_trans (Nat.le_add_right _ _) (reads.shorter parser bounded begins a parser' ok)

theorem Reads.congr {other : Rule α} (reads : Reads least size kinds action rule)
    (same : ∀ input a rest, kinds input.kind → (rule input a rest ↔ other input a rest)) :
    Reads least size kinds action other where
  exact parser bounded begins a rest :=
    (reads.exact parser bounded begins a rest).trans (same _ _ _ begins)
  shorter := reads.shorter

theorem Reads.left {other : Rule α} {others : TokenKind → Prop}
    (reads : Reads least size kinds action rule) (begins : Rule.Begins others other)
    (apart : ∀ kind, kinds kind → ¬ others kind) :
    Reads least size kinds action (rule <|> other) :=
  reads.congr fun input a rest isKind =>
    ⟨.inl, fun read => read.elim id fun read =>
      absurd (begins input a rest read) (apart _ isKind)⟩

theorem Reads.right {other : Rule α} {others : TokenKind → Prop}
    (reads : Reads least size kinds action rule) (begins : Rule.Begins others other)
    (apart : ∀ kind, kinds kind → ¬ others kind) :
    Reads least size kinds action (other <|> rule) :=
  reads.congr fun input a rest isKind =>
    ⟨.inr, fun read => read.elim
      (fun read => absurd (begins input a rest read) (apart _ isKind)) id⟩

theorem Reads.ahead {holds : TokenKind → Prop} (reads : Reads least size kinds action rule)
    (right : ∀ kind, kinds kind → holds kind) :
    Reads least size kinds action (Rule.ahead holds >>= fun _ => rule) :=
  reads.congr fun input _ _ isKind =>
    ⟨fun read => ⟨(), input, ⟨right _ isKind, rfl⟩, read⟩, fun ⟨_, _, ⟨_, same⟩, read⟩ => same ▸ read⟩

/-! ### Steps one after the other -/

theorem reads_pure {a b : α} (isBare : Placed.bare a = b) :
    Reads 0 size kinds (pure a) (pure b) where
  exact parser _ _ a' rest := by
    simp only [pure_eq_ok, Rule.pure_apply]
    constructor
    · rintro ⟨_, _, ⟨rfl, rfl⟩, rfl, rfl⟩
      exact ⟨isBare, rfl⟩
    · rintro ⟨rfl, rfl⟩
      exact ⟨a, parser, ⟨rfl, rfl⟩, isBare, rfl⟩
  shorter parser _ _ a' parser' ok := by
    obtain ⟨-, rfl⟩ := pure_eq_ok.1 ok
    exact Nat.le_refl _

theorem reads_never (never : ∀ parser a parser', action parser ≠ .ok a parser')
    (nothing : ∀ input a rest, kinds input.kind → ¬ rule input a rest) :
    Reads least size kinds action rule where
  exact parser _ begins _ _ :=
    ⟨fun ⟨a', parser', isOk, _⟩ => absurd isOk (never parser a' parser'),
      fun reads => absurd reads (nothing _ _ _ begins)⟩
  shorter parser _ _ a parser' isOk := absurd isOk (never parser a parser')

section

variable {next : α → Parse β} {nextRule : α → Rule β} {fewer : Nat}

private theorem Reads.bindTo (Known : α → Prop) (first : Reads least size kinds action rule)
    (known : ∀ parser : Parser, kinds parser.input.kind → ∀ a parser',
      action parser = .ok a parser' → Known a)
    (le : size ≤ fewer + least)
    (second : ∀ a, Known a → Reads 0 fewer anyKind (next a) (nextRule (Placed.bare a))) :
    Reads least size kinds (action >>= next) (rule >>= nextRule) where
  exact parser bounded begins b rest := by
    have less {a : α} {parser' : Parser} (isOk : action parser = .ok a parser') :
        parser'.input.size ≤ fewer := by
      have shorter := first.shorter parser bounded begins a parser' isOk
      omega
    simp only [bind_eq_ok, Rule.bind_apply]
    constructor
    · rintro ⟨b', parser'', ⟨a', parser', isOk, isOk'⟩, rfl, rfl⟩
      exact ⟨_, _, (first.exact parser bounded begins _ _).1 ⟨a', parser', isOk, rfl, rfl⟩,
        ((second a' (known _ begins _ _ isOk)).exact parser' (less isOk) trivial _ _).1
          ⟨b', parser'', isOk', rfl, rfl⟩⟩
    · rintro ⟨a, middle, read, reads⟩
      obtain ⟨a', parser', isOk, rfl, rfl⟩ := (first.exact parser bounded begins _ _).2 read
      obtain ⟨b', parser'', isOk', isBare, isRest⟩ :=
        ((second a' (known _ begins _ _ isOk)).exact parser' (less isOk) trivial _ _).2 reads
      exact ⟨b', parser'', ⟨a', parser', isOk, isOk'⟩, isBare, isRest⟩
  shorter parser bounded begins b parser'' ok := by
    obtain ⟨a, parser', isOk, isOk'⟩ := bind_eq_ok.1 ok
    have shorter := first.shorter parser bounded begins a parser' isOk
    have shorter' := (second a (known _ begins _ _ isOk)).shorter parser' (by omega) trivial _ _ isOk'
    omega

theorem Reads.bind (first : Reads least size kinds action rule)
    (second : ∀ a, Reads 0 size anyKind (next a) (nextRule (Placed.bare a))) :
    Reads least size kinds (action >>= next) (rule >>= nextRule) :=
  first.bindTo (fun _ => True) (fun _ _ _ _ _ => trivial) (Nat.le_add_right _ _) fun a _ => second a

/-- Behind a step that takes a lexeme, the next one has less in front of it. -/
theorem Reads.bindFewer (first : Reads 1 (size + 1) kinds action rule)
    (second : ∀ a, Reads 0 size anyKind (next a) (nextRule (Placed.bare a))) :
    Reads 1 (size + 1) kinds (action >>= next) (rule >>= nextRule) :=
  first.bindTo (fun _ => True) (fun _ _ _ _ _ => trivial) (Nat.le_refl _) fun a _ => second a

theorem Reads.bindKnown (Known : α → Prop) (first : Reads least size kinds action rule)
    (known : ∀ parser : Parser, kinds parser.input.kind → ∀ a parser',
      action parser = .ok a parser' → Known a)
    (second : ∀ a, Known a → Reads 0 size anyKind (next a) (nextRule (Placed.bare a))) :
    Reads least size kinds (action >>= next) (rule >>= nextRule) :=
  first.bindTo Known known (Nat.le_add_right _ _) second

theorem Reads.bindLoop {Stops : TokenKind → Prop}
    (loop : Reads least size kinds action (do let a ← rule; Rule.ahead Stops; return a))
    (second : ∀ a, Reads 0 size Stops (next a) (nextRule (Placed.bare a)))
    (begins : ∀ a, Rule.Begins Stops (nextRule a)) :
    Reads least size kinds (action >>= next) (rule >>= nextRule) where
  exact parser bounded isKind b rest := by
    have less {a : α} {parser' : Parser} (isOk : action parser = .ok a parser') :
        parser'.input.size ≤ size := by
      have shorter := loop.shorter parser bounded isKind a parser' isOk
      omega
    simp only [bind_eq_ok, Rule.bind_apply]
    constructor
    · rintro ⟨b', parser'', ⟨a', parser', isOk, isOk'⟩, rfl, rfl⟩
      obtain ⟨_, _, read, _, _, ⟨stops, isMiddle⟩, isA, isMiddle'⟩ :=
        (loop.exact parser bounded isKind _ _).1 ⟨a', parser', isOk, rfl, rfl⟩
      subst isMiddle isA isMiddle'
      exact ⟨_, _, read, ((second a').exact parser' (less isOk) stops _ _).1
        ⟨b', parser'', isOk', rfl, rfl⟩⟩
    · rintro ⟨a, middle, read, reads⟩
      have stops := begins a middle b rest reads
      obtain ⟨a', parser', isOk, rfl, rfl⟩ := (loop.exact parser bounded isKind _ _).2
        ⟨a, middle, read, (), middle, ⟨stops, rfl⟩, rfl, rfl⟩
      obtain ⟨b', parser'', isOk', isBare, isRest⟩ :=
        ((second a').exact parser' (less isOk) stops _ _).2 reads
      exact ⟨b', parser'', ⟨a', parser', isOk, isOk'⟩, isBare, isRest⟩
  shorter parser bounded isKind b parser'' ok := by
    obtain ⟨a, parser', isOk, isOk'⟩ := bind_eq_ok.1 ok
    have shorter := loop.shorter parser bounded isKind a parser' isOk
    obtain ⟨_, _, -, _, _, ⟨stops, isMiddle⟩, -, isMiddle'⟩ :=
      (loop.exact parser bounded isKind _ _).1 ⟨a, parser', isOk, rfl, rfl⟩
    subst isMiddle isMiddle'
    have shorter' := (second a).shorter parser' (by omega) stops _ _ isOk'
    omega

end

theorem Reads.map (reads : Reads least size kinds action rule) (f g : α → β)
    (same : ∀ a, Placed.bare (f a) = g (Placed.bare a)) :
    Reads least size kinds (action >>= fun a => pure (f a)) (rule >>= fun a => pure (g a)) :=
  reads.bind fun a => reads_pure (same a)

theorem kind_bind_apply {γ : Type} (next : TokenKind → Parse γ) (parser : Parser) :
    (Parse.kind >>= next) parser = next parser.input.kind parser := by
  rw [parser.kind_input]
  rfl

theorem reads_kind {next : TokenKind → Parse α}
    (each : ∀ kind, kinds kind → Reads least size (· = kind) (next kind) rule) :
    Reads least size kinds (Parse.kind >>= next) rule where
  exact parser bounded begins a rest := by
    rw [kind_bind_apply]
    exact (each _ begins).exact parser bounded rfl a rest
  shorter parser bounded begins a parser' := by
    rw [kind_bind_apply]
    exact (each _ begins).shorter parser bounded rfl a parser'

/-! ### Passing lexemes -/

theorem draw_eq_ok {α : Type} {action : EStateM LexError Lexer α} {parser parser' : Parser} {a : α} :
    draw action parser = .ok a parser' ↔
      ∃ lexer, action parser.lexer = .ok a lexer ∧ { parser with lexer := lexer } = parser' := by
  unfold draw
  split
  · rename_i isOk
    rw [isOk]
    constructor
    · rintro ⟨⟩
      exact ⟨_, rfl, rfl⟩
    · rintro ⟨lexer, ⟨⟩, rfl⟩
      rfl
  · rename_i isError
    rw [isError]
    exact ⟨(nomatch ·), fun ⟨_, impossible, _⟩ => nomatch impossible⟩

theorem advance_eq_ok {parser parser' : Parser} {passed : Token} :
    advance parser = .ok passed parser' ↔ ∃ token lexer, parser.lexer.next = .ok token lexer ∧
      parser.current = passed ∧ ⟨lexer, token, parser.nextLoop⟩ = parser' := by
  simp only [advance, current, bind_eq_ok, get_eq_ok, pure_eq_ok, draw_eq_ok, modify_eq_ok]
  constructor
  · rintro ⟨_, _, ⟨_, _, ⟨rfl, rfl⟩, rfl, rfl⟩, token, _, ⟨lexer, isNext, rfl⟩, _, _, rfl, rfl, rfl⟩
    exact ⟨token, lexer, isNext, rfl, rfl⟩
  · rintro ⟨token, lexer, isNext, rfl, rfl⟩
    exact ⟨_, _, ⟨_, _, ⟨rfl, rfl⟩, rfl, rfl⟩, token, _, ⟨lexer, isNext, rfl⟩, (), _, rfl, rfl, rfl⟩

theorem kind_eq_ok {parser parser' : Parser} {kind : TokenKind} :
    Parse.kind parser = .ok kind parser' ↔ parser.current.kind = kind ∧ parser = parser' := by
  change EStateM.Result.ok _ _ = _ ↔ _
  simp

theorem position_eq_ok {parser parser' : Parser} {position : Position} :
    Parse.position parser = .ok position parser' ↔
      parser.current.position = position ∧ parser = parser' := by
  change EStateM.Result.ok _ _ = _ ↔ _
  simp

def IsOrdinary (kind : TokenKind) : Prop := kind ≠ .endOfInput ∧ kind ≠ .apostrophe

instance (kind : TokenKind) : Decidable (IsOrdinary kind) := by
  unfold IsOrdinary
  infer_instance

theorem lexemes_of_isOrdinary {parser : Parser} (isOrdinary : IsOrdinary parser.current.kind) :
    parser.lexemes = parser.current :: parser.lexer.lexemes := by
  rw [Parser.lexemes, Lexer.lexemesFrom, Lexer.complete, if_neg isOrdinary.1, if_neg isOrdinary.2]

theorem reads_advance (kind : TokenKind) (isOrdinary : IsOrdinary kind) :
    Reads 1 size (· = kind) advance (Rule.token kind) := by
  have begins {parser : Parser} (isKind : parser.input.kind = kind) :
      parser.input = ⟨parser.current.bare :: parser.lexer.lexemes.map Token.bare, parser.nextLoop⟩ := by
    rw [Parser.kind_input] at isKind
    rw [Parser.input, lexemes_of_isOrdinary (isKind ▸ isOrdinary), List.map_cons]
  constructor
  · intro parser _ isKind a rest
    simp only [advance_eq_ok]
    rw [begins isKind]
    rw [Parser.kind_input] at isKind
    constructor
    · rintro ⟨a', parser', ⟨token, lexer, isNext, rfl, rfl⟩, rfl, rfl⟩
      obtain ⟨next, others, isCons⟩ := List.exists_cons_of_ne_nil (lexer.lexemesFrom_ne_nil token)
      refine ⟨isKind, next.bare, others.map Token.bare, ?_, ?_⟩
      · rw [Lexer.lexemes_of_next isNext, isCons]
        rfl
      · rw [Parser.input, Parser.lexemes, isCons]
        rfl
    · rintro ⟨-, next, others, isCons, rfl⟩
      obtain ⟨rfl, isRest⟩ := List.cons.inj isCons
      cases isNext : parser.lexer.next with
      | ok token lexer =>
          rw [Lexer.lexemes_of_next isNext] at isRest
          exact ⟨_, _, ⟨token, lexer, rfl, rfl, rfl⟩, rfl,
            congrArg (Input.mk · parser.nextLoop) isRest⟩
      | error error lexer =>
          rw [Lexer.lexemes_of_error isNext] at isRest
          cases isRest
  · intro parser _ isKind a parser' isOk
    obtain ⟨token, lexer, isNext, -, rfl⟩ := advance_eq_ok.1 isOk
    rw [begins isKind, Lexer.lexemes_of_next isNext]
    exact Nat.le_refl _

theorem kind_of_advance {parser parser' : Parser} {passed : Token}
    (isOk : advance parser = .ok passed parser') : passed.kind = parser.input.kind := by
  obtain ⟨_, _, _, rfl, -⟩ := advance_eq_ok.1 isOk
  exact parser.kind_input.symm

theorem unexpected_ne_ok {γ : Type} {wanted : TokenKind} (parser : Parser) (a : γ)
    (parser' : Parser) : (unexpected wanted : Parse γ) parser ≠ .ok a parser' :=
  fun isOk => nomatch isOk

theorem cannotExpand_ne_ok {γ : Type} {rule : Nonterminal} (parser : Parser) (a : γ)
    (parser' : Parser) : (cannotExpand rule : Parse γ) parser ≠ .ok a parser' :=
  fun isOk => nomatch isOk

theorem expect_eq_ok {wanted : TokenKind} {parser parser' : Parser} {passed : Token} :
    expect wanted parser = .ok passed parser' ↔
      parser.current.kind = wanted ∧ advance parser = .ok passed parser' := by
  simp only [expect, bind_eq_ok, kind_eq_ok]
  constructor
  · rintro ⟨_, _, ⟨rfl, rfl⟩, isOk⟩
    split at isOk
    · rename_i isWanted
      exact ⟨isWanted, isOk⟩
    · exact absurd isOk (unexpected_ne_ok _ _ _)
  · rintro ⟨rfl, isOk⟩
    exact ⟨_, _, ⟨rfl, rfl⟩, by rw [if_pos rfl]; exact isOk⟩

theorem reads_expect (wanted : TokenKind) (isOrdinary : IsOrdinary wanted) :
    Reads 1 size kinds (expect wanted) (Rule.token wanted) := by
  refine reads_kind fun kind _ => ?_
  by_cases isWanted : kind = wanted
  · subst isWanted
    rw [if_pos rfl]
    exact reads_advance _ isOrdinary
  · rw [if_neg isWanted]
    refine reads_never unexpected_ne_ok fun input a rest isKind read => isWanted ?_
    exact isKind.symm.trans (Rule.begins_token wanted input a rest read)

theorem reads_name : Reads 1 size kinds name Rule.ident :=
  (reads_expect .ident (by decide)).bind fun _ => reads_pure rfl

/-! ### Repetition -/

theorem reads_zero : Reads least 0 kinds action rule where
  exact parser bounded := absurd parser.input_size_pos (Nat.not_lt.2 bounded)
  shorter parser bounded := absurd parser.input_size_pos (Nat.not_lt.2 bounded)

inductive Repeated {α : Type} (item : Rule (Option α)) : Input → List α → Input → Prop where
  | done {input rest : Input} (last : item input none rest) : Repeated item input [] rest
  | more {input middle rest : Input} {first : α} {others : List α}
      (head : item input (some first) middle) (tail : Repeated item middle others rest) :
      Repeated item input (first :: others) rest

def repeated {α : Type} (item : Rule (Option α)) : Rule (List α) := Repeated item

theorem reads_repeated {item : Parse (Option α)} {itemRule : Rule (Option α)} {fuel : Nat}
    (le : size ≤ fuel) (reads : Reads 0 size anyKind item itemRule)
    (takes : ∀ parser : Parser, parser.input.size ≤ size → ∀ a parser',
      item parser = .ok (some a) parser' → parser'.input.size < parser.input.size) :
    Reads 0 size anyKind (many fuel item) (repeated itemRule) := by
  induction fuel generalizing size with
  | zero =>
      obtain rfl := Nat.le_zero.1 le
      exact reads_zero
  | succ fuel ih =>
      -- an item takes a lexeme, so that less fuel is enough behind it
      have smaller {parser parser' : Parser} {a : α} (bounded : parser.input.size ≤ size)
          (isOk : item parser = .ok (some a) parser') : parser'.input.size ≤ size - 1 := by
        have := takes parser bounded a parser' isOk
        omega
      have again := ih (by omega : size - 1 ≤ fuel) (reads.atSize (Nat.sub_le _ _))
        fun parser bounded => takes parser (Nat.le_trans bounded (Nat.sub_le _ _))
      constructor
      · intro parser bounded _ as rest
        have one := reads.exact parser bounded trivial
        simp only [many, bind_eq_ok]
        constructor
        · rintro ⟨as', parser'', ⟨o, parser', isOk, isOk'⟩, rfl, rfl⟩
          have read := (one (Placed.bare o) parser'.input).1 ⟨o, parser', isOk, rfl, rfl⟩
          cases o with
          | none =>
              obtain ⟨rfl, rfl⟩ := pure_eq_ok.1 isOk'
              exact .done read
          | some a =>
              obtain ⟨others, parser₂, isOthers, isPure⟩ := bind_eq_ok.1 isOk'
              obtain ⟨rfl, rfl⟩ := pure_eq_ok.1 isPure
              exact .more read ((again.exact parser' (smaller bounded isOk) trivial _ _).1
                ⟨others, _, isOthers, rfl, rfl⟩)
        · intro repeated
          cases repeated with
          | done last =>
              obtain ⟨o, parser', isOk, isBare, rfl⟩ := (one none _).2 last
              cases o with
              | none => exact ⟨[], parser', ⟨none, parser', isOk, rfl⟩, rfl, rfl⟩
              | some a => cases isBare
          | more head tail =>
              obtain ⟨o, parser', isOk, isBare, rfl⟩ := (one (some _) _).2 head
              cases o with
              | none => cases isBare
              | some a =>
                  cases isBare
                  obtain ⟨others, parser'', isOthers, rfl, rfl⟩ :=
                    (again.exact parser' (smaller bounded isOk) trivial _ _).2 tail
                  exact ⟨a :: others, parser'', ⟨some a, parser', isOk,
                    bind_eq_ok.2 ⟨others, parser'', isOthers, rfl⟩⟩, rfl, rfl⟩
      · intro parser bounded _ as parser'' ok
        obtain ⟨o, parser', isOk, isOk'⟩ := bind_eq_ok.1 ok
        have shorter := reads.shorter parser bounded trivial o parser' isOk
        cases o with
        | none =>
            obtain ⟨-, rfl⟩ := pure_eq_ok.1 isOk'
            exact shorter
        | some a =>
            obtain ⟨others, parser₂, isOthers, isPure⟩ := bind_eq_ok.1 isOk'
            obtain ⟨-, rfl⟩ := pure_eq_ok.1 isPure
            have shorter' := again.shorter parser' (smaller bounded isOk) trivial _ _ isOthers
            omega

theorem repeated_eq {γ : Type} (rule : Rule γ) (ends : Input → Prop) :
    repeated ((some <$> rule) <|> do Rule.guard ends; return none) = (do
      let as ← Rule.star rule
      Rule.guard ends
      return as) :=
  Rule.ext fun input as rest => by
    constructor
    · intro repeated
      induction repeated with
      | done last =>
          obtain ⟨_, _, _, isNone, -⟩ | ⟨_, _, ⟨isEnd, rfl⟩, -, rfl⟩ := last
          · cases isNone
          · exact ⟨[], _, .nil, (), _, ⟨isEnd, rfl⟩, rfl, rfl⟩
      | more head _ ih =>
          obtain ⟨a, _, read, isSome, rfl⟩ | ⟨_, _, _, isNone, -⟩ := head
          · cases isSome
            obtain ⟨_, _, reads, _, _, isLast, rfl, rfl⟩ := ih
            exact ⟨_ :: _, _, .cons read reads, (), _, isLast, rfl, rfl⟩
          · cases isNone
    · rintro ⟨as', middle, reads, _, _, ⟨isEnd, rfl⟩, rfl, rfl⟩
      induction reads with
      | nil => exact .done (.inr ⟨(), _, ⟨isEnd, rfl⟩, rfl, rfl⟩)
      | cons head _ ih => exact .more (.inl ⟨_, _, head, rfl, rfl⟩) (ih isEnd)

section

variable {next : TokenKind → Parse (Option α)} {Stops : TokenKind → Prop}
  (begins : Rule.Begins (fun kind => ¬ Stops kind) rule)
  (stops : ∀ kind, Stops kind → Reads 0 size (· = kind) (next kind) (pure none))
  (goesOn : ∀ kind, ¬ Stops kind → Reads 1 size (· = kind) (next kind) (some <$> rule))

include begins stops goesOn

theorem reads_item : Reads 0 size anyKind (Parse.kind >>= next)
    ((some <$> rule) <|> do Rule.ahead Stops; return none) := by
  refine reads_kind fun kind _ => ?_
  by_cases isStop : Stops kind
  · refine Reads.right ?_ (begins.bind _) fun kind' isKind notStop => notStop (isKind ▸ isStop)
    refine (stops kind isStop).congr fun input o rest isKind => ⟨?_, ?_⟩
    · rintro ⟨rfl, rfl⟩
      exact ⟨(), rest, ⟨(congrArg Stops isKind).mpr isStop, rfl⟩, rfl, rfl⟩
    · rintro ⟨_, _, ⟨_, rfl⟩, rfl, rfl⟩
      exact ⟨rfl, rfl⟩
  · exact (goesOn kind isStop).weaken.left (Rule.begins_ahead.bind _)
      fun kind' isKind isStop' => isStop (isKind ▸ isStop')

theorem reads_many {fuel : Nat} (le : size ≤ fuel) :
    Reads 0 size anyKind (many fuel (Parse.kind >>= next)) (do
      let as ← Rule.star rule
      Rule.ahead Stops
      return as) := by
  rw [Rule.ahead, ← repeated_eq]
  refine reads_repeated le (reads_item begins stops goesOn) fun parser bounded a parser' isOk => ?_
  rw [kind_bind_apply] at isOk
  by_cases isStop : Stops parser.input.kind
  · cases ((stops _ isStop).exact parser bounded rfl _ _).1 ⟨_, _, isOk, rfl, rfl⟩ |>.1
  · exact (goesOn _ isStop).shorter parser bounded rfl _ _ isOk

end

end Parse

end MiniPascal
