import MiniPascal.Proofs.Parser.PortRules

/-!
# Tokens that a parser passes

`Parser.Passes` counts the tokens that a parser has put behind it since a start: a token that is handed
back does not count, and neither does the end of the input.  Each of them takes something off
`Parser.ahead`, which adds up the token in hand, the tokens handed back, the symbol carried over and the
characters not yet read.  So a parser passes no more tokens than it has had ahead.

`Parse.Advances` compares two steps from one start on.  Where they succeed, it tells how many tokens have
been passed; where they fail, it is not for want of fuel.
-/

namespace MiniPascal

/-- The end of the input takes up nothing, in hand or handed back. -/
def Token.size (token : Token) : Nat := if token.kind = .endOfInput then 0 else 1

theorem Token.size_le_one (token : Token) : token.size ≤ 1 := by
  unfold size
  split <;> simp

theorem Token.size_of_ne {token : Token} (notEnd : token.kind ≠ .endOfInput) : token.size = 1 :=
  if_neg notEnd

namespace Lexer

def ahead (lexer : Lexer) : Nat :=
  lexer.returned.countP (·.kind ≠ .endOfInput) + (if lexer.carry.isSome then 1 else 0) +
    lexer.reader.remaining

theorem ahead_le_remaining (lexer : Lexer) : lexer.ahead ≤ lexer.remaining :=
  Nat.add_le_add_right (Nat.add_le_add_right List.countP_le_length _) _

theorem ahead_giveBack (token : Token) (lexer : Lexer) :
    (lexer.giveBack token).ahead = lexer.ahead + token.size := by
  have counted : (lexer.giveBack token).ahead =
      (token :: lexer.returned).countP (·.kind ≠ .endOfInput) +
        (if lexer.carry.isSome then 1 else 0) + lexer.reader.remaining := rfl
  rw [counted, ahead]
  by_cases isEnd : token.kind = .endOfInput
  · simp [Token.size, isEnd]
  · rw [List.countP_cons_of_pos (by simp [isEnd]), Token.size_of_ne isEnd]
    omega

theorem ahead_next {lexer rest : Lexer} {token : Token} (ok : lexer.next = .ok token rest) :
    rest.ahead + token.size ≤ lexer.ahead := by
  obtain ⟨reader, carry, returned⟩ := lexer
  cases returned with
  | cons first others =>
      cases ok
      exact Nat.le_of_eq (ahead_giveBack token ⟨reader, carry, others⟩).symm
  | nil =>
      have all : (⟨reader, carry, []⟩ : Lexer).ahead = (⟨reader, carry, []⟩ : Lexer).remaining := rfl
      have bounded := rest.ahead_le_remaining
      obtain ⟨le, lt⟩ := remaining_next ok
      by_cases isEnd : token.kind = .endOfInput
      · simp only [Token.size, if_pos isEnd]
        omega
      · have := lt isEnd
        rw [Token.size_of_ne isEnd]
        omega

theorem returned_rawText {lexer rest : Lexer} {text : String}
    (ok : lexer.rawText = .ok text rest) : rest.returned = lexer.returned := by
  unfold rawText at ok
  split at ok
  · cases ok
  · rename_i symbol reader carry returned isSymbol
    obtain ⟨same, -⟩ := remaining_symbol isSymbol
    split at ok <;> cases ok
    exact same

theorem ahead_rawText {lexer rest : Lexer} {text : String}
    (ok : lexer.rawText = .ok text rest) : rest.ahead ≤ lexer.ahead := by
  have le := remaining_rawText ok
  have same := returned_rawText ok
  simp only [remaining, same] at le
  simp only [ahead, same]
  omega

end Lexer

namespace Parser

def ahead (parser : Parser) : Nat := parser.lexer.ahead + parser.current.size

theorem ahead_lt_fuel (parser : Parser) : parser.ahead < parser.fuel := by
  have lexer := parser.lexer.ahead_le_remaining
  have current := parser.current.size_le_one
  rw [ahead, fuel]
  omega

/-- From a start, a parser has come past at least so many tokens. -/
inductive Passes (start : Parser) : Nat → Parser → Prop where
  | here : Passes start 0 start
  | fewer {count less : Nat} {s : Parser} (passes : Passes start count s) (le : less ≤ count) :
      Passes start less s
  | token {count : Nat} {s s' : Parser} {passed : Token} (passes : Passes start count s)
      (notEnd : s.current.kind ≠ .endOfInput) (ok : Parse.advance s = .ok passed s') :
      Passes start (count + 1) s'
  /-- The end of the input may be passed, but is no token. -/
  | endOfInput {count : Nat} {s s' : Parser} {passed : Token} (passes : Passes start count s)
      (ok : Parse.advance s = .ok passed s') : Passes start count s'
  | text {count : Nat} {s s' : Parser} {text : String} (passes : Passes start count s)
      (ok : Parse.draw Lexer.rawText s = .ok text s') : Passes start count s'
  /-- What has been passed and is handed back has not been passed. -/
  | back {count : Nat} {s s' s'' : Parser} {passed : Token} (passes : Passes start count s)
      (ok : Parse.advance s = .ok passed s') (ok' : Parse.backtrack passed s' = .ok () s'') :
      Passes start count s''
  | loop {count : Nat} {s s' : Parser} {id : LoopId} (passes : Passes start count s)
      (ok : Parse.freshLoop s = .ok id s') : Passes start count s'

variable {start s s' : Parser} {count : Nat}

theorem ahead_advance {passed : Token} (ok : Parse.advance s = .ok passed s') :
    s'.ahead + passed.size ≤ s.ahead := by
  obtain ⟨token, lexer, isNext, rfl, rfl⟩ := Parse.advance_eq_ok.1 ok
  exact Nat.add_le_add_right (Lexer.ahead_next isNext) _

theorem ahead_backtrack {passed : Token} (ok : Parse.backtrack passed s = .ok () s') :
    s'.ahead = s.ahead + passed.size := by
  rw [Parse.backtrack_eq] at ok
  cases ok
  exact congrArg (· + passed.size) (s.lexer.ahead_giveBack s.current)

theorem Passes.ahead (passes : start.Passes count s) : s.ahead + count ≤ start.ahead := by
  induction passes with
  | here => exact Nat.le_refl _
  | fewer passes le ih => omega
  | token passes notEnd ok ih =>
      have fewer := ahead_advance ok
      obtain ⟨-, -, -, rfl, -⟩ := Parse.advance_eq_ok.1 ok
      rw [Token.size_of_ne notEnd] at fewer
      omega
  | endOfInput passes ok ih =>
      have fewer := ahead_advance ok
      omega
  | text passes ok ih =>
      obtain ⟨lexer, isText, rfl⟩ := Parse.draw_eq_ok.1 ok
      have fewer := Lexer.ahead_rawText isText
      simp only [Parser.ahead] at *
      omega
  | back passes ok ok' ih =>
      have fewer := ahead_advance ok
      have more := ahead_backtrack ok'
      omega
  | loop passes ok ih =>
      cases ok
      exact ih

theorem Passes.trans {more : Nat} (passes : start.Passes count s) (passes' : s.Passes more s') :
    start.Passes (count + more) s' := by
  induction passes' with
  | here => exact passes
  | fewer _ le ih => exact ih.fewer (Nat.add_le_add_left le count)
  | token _ notEnd ok ih => exact ih.token notEnd ok
  | endOfInput _ ok ih => exact ih.endOfInput ok
  | text _ ok ih => exact ih.text ok
  | back _ ok ok' ih => exact ih.back ok ok'
  | loop _ ok ih => exact ih.loop ok

end Parser

namespace Parse

variable {α β : Type} {start : Parser} {passed : Nat} {kinds : TokenKind → Prop}
  {reach : α → Nat} {action action' : Parse α}

def GetsPast (start : Parser) (reach : α → Nat) (action : Parse α) (s : Parser) : Prop :=
  match action s with
  | .ok a s' => start.Passes (reach a) s'
  | .error error _ => error ≠ .outOfFuel

def AdvancesAt (start : Parser) (reach : α → Nat) (action action' : Parse α) (s : Parser) : Prop :=
  action s = action' s ∧ GetsPast start reach action s

/-- Two steps come to the same wherever so many tokens have been passed and one of certain kinds is in
hand. -/
def Advances (start : Parser) (passed : Nat) (kinds : TokenKind → Prop) (reach : α → Nat)
    (action action' : Parse α) : Prop :=
  ∀ s : Parser, start.Passes passed s → kinds s.current.kind →
    AdvancesAt start reach action action' s

theorem Advances.ofAny (advances : Advances start passed anyKind reach action action') :
    Advances start passed kinds reach action action' :=
  fun s passes _ => advances s passes trivial

theorem Advances.weaken {less : α → Nat} (advances : Advances start passed kinds reach action action')
    (le : ∀ a, less a ≤ reach a) : Advances start passed kinds less action action' := by
  intro s passes begins
  obtain ⟨same, outcome⟩ := advances s passes begins
  refine ⟨same, ?_⟩
  unfold GetsPast at outcome ⊢
  cases isAction : action s with
  | ok a s' =>
      rw [isAction] at outcome
      exact outcome.fewer (le a)
  | error error s' =>
      rw [isAction] at outcome
      exact outcome

/-- No more tokens can have been passed than were ahead. -/
theorem advances_of_ahead_lt (lt : start.ahead < passed) :
    Advances start passed kinds reach action action' := by
  intro s passes
  have := passes.ahead
  omega

theorem advances_pure {a : α} (le : reach a ≤ passed) :
    Advances start passed kinds reach (pure a) (pure a) :=
  fun _ passes _ => ⟨rfl, passes.fewer le⟩

theorem advances_throw {error : ParseError} (fuelled : error ≠ .outOfFuel) :
    Advances start passed kinds reach (throw error : Parse α) (throw error) :=
  fun _ _ _ => ⟨rfl, fuelled⟩

section

variable {further : β → Nat} {next next' : α → Parse β}

theorem Advances.bind (first : Advances start passed kinds reach action action')
    (second : ∀ a, Advances start (reach a) anyKind further (next a) (next' a)) :
    Advances start passed kinds further (action >>= next) (action' >>= next') := by
  intro s passes begins
  obtain ⟨same, outcome⟩ := first s passes begins
  unfold GetsPast at outcome
  cases isAction : action s with
  | ok a s' =>
      rw [isAction] at same outcome
      rw [AdvancesAt, GetsPast, bind_of_ok next isAction, bind_of_ok next' same.symm]
      exact second a s' outcome trivial
  | error error s' =>
      rw [isAction] at same outcome
      rw [AdvancesAt, GetsPast, bind_of_error next isAction, bind_of_error next' same.symm]
      exact ⟨rfl, outcome⟩

theorem advancesAt_kind {next next' : TokenKind → Parse β} {s : Parser}
    (each : ∀ kind, s.current.kind = kind → AdvancesAt start further (next kind) (next' kind) s) :
    AdvancesAt start further (kind >>= next) (kind >>= next') s :=
  each _ rfl

theorem advances_kind {next next' : TokenKind → Parse β}
    (each : ∀ kind, kinds kind → Advances start passed (· = kind) further (next kind) (next' kind)) :
    Advances start passed kinds further (kind >>= next) (kind >>= next') :=
  fun s passes begins => each _ begins s passes rfl

theorem advances_current {next next' : Token → Parse β}
    (each : ∀ token, kinds token.kind →
      Advances start passed (· = token.kind) further (next token) (next' token)) :
    Advances start passed kinds further (current >>= next) (current >>= next') :=
  fun s passes begins => each _ begins s passes rfl

theorem advances_position {next next' : Position → Parse β}
    (each : ∀ position, Advances start passed kinds further (next position) (next' position)) :
    Advances start passed kinds further (position >>= next) (position >>= next') :=
  fun s passes begins => each _ s passes begins

end

theorem advances_unexpected (wanted : TokenKind) :
    Advances start passed kinds reach (unexpected wanted : Parse α) (unexpected wanted) :=
  advances_current fun _ _ => advances_throw (by simp)

theorem advances_unexpected_bind {further : β → Nat} {next next' : α → Parse β} (wanted : TokenKind) :
    Advances start passed kinds further (unexpected wanted >>= next) (unexpected wanted >>= next') :=
  fun _ _ _ => ⟨rfl, nofun⟩

theorem advances_cannotExpand (rule : Nonterminal) :
    Advances start passed kinds reach (cannotExpand rule : Parse α) (cannotExpand rule) :=
  advances_current fun _ _ => advances_throw (by simp)

/-! ### Passing tokens -/

theorem ne_outOfFuel_of_draw {action : EStateM LexError Lexer α} {s s' : Parser} {error : ParseError}
    (failed : draw action s = .error error s') : error ≠ .outOfFuel := by
  unfold draw at failed
  split at failed <;> cases failed
  simp

theorem ne_outOfFuel_of_advance {s s' : Parser} {error : ParseError}
    (failed : advance s = .error error s') : error ≠ .outOfFuel := by
  rw [advance_eq] at failed
  split at failed <;> cases failed
  simp

theorem advances_advance {kind : TokenKind} (notEnd : kind ≠ .endOfInput) :
    Advances start passed (· = kind) (fun _ => passed + 1) advance advance := by
  intro s passes begins
  refine ⟨rfl, ?_⟩
  unfold GetsPast
  cases isAdvance : advance s with
  | ok token s' => exact passes.token (begins ▸ notEnd) isAdvance
  | error error s' => exact ne_outOfFuel_of_advance isAdvance

theorem advances_advance_any : Advances start passed kinds (fun _ => passed) advance advance := by
  intro s passes begins
  refine ⟨rfl, ?_⟩
  unfold GetsPast
  cases isAdvance : advance s with
  | ok token s' => exact passes.endOfInput isAdvance
  | error error s' => exact ne_outOfFuel_of_advance isAdvance

theorem advances_advance_bind {next next' : Token → Parse α}
    (each : ∀ s token s', start.Passes passed s → kinds s.current.kind → advance s = .ok token s' →
      AdvancesAt start reach (next token) (next' token) s') :
    Advances start passed kinds reach (advance >>= next) (advance >>= next') := by
  intro s passes begins
  cases isAdvance : advance s with
  | ok token s' =>
      rw [AdvancesAt, GetsPast, bind_of_ok next isAdvance, bind_of_ok next' isAdvance]
      exact each s token s' passes begins isAdvance
  | error error s' =>
      rw [AdvancesAt, GetsPast, bind_of_error next isAdvance, bind_of_error next' isAdvance]
      exact ⟨rfl, ne_outOfFuel_of_advance isAdvance⟩

theorem advancesAt_backtrack {s s' : Parser} {token : Token} {a : α} (passes : start.Passes passed s)
    (ok : advance s = .ok token s') (le : reach a ≤ passed) :
    AdvancesAt start reach (do backtrack token; return a) (do backtrack token; return a) s' :=
  ⟨rfl, (passes.back ok (backtrack_eq token s')).fewer le⟩

theorem advances_rawText :
    Advances start passed kinds (fun _ => passed) (draw Lexer.rawText) (draw Lexer.rawText) := by
  intro s passes begins
  refine ⟨rfl, ?_⟩
  unfold GetsPast
  cases isText : draw Lexer.rawText s with
  | ok text s' => exact passes.text isText
  | error error s' => exact ne_outOfFuel_of_draw isText

theorem advances_freshLoop : Advances start passed kinds (fun _ => passed) freshLoop freshLoop :=
  fun _ passes _ => ⟨rfl, passes.loop rfl⟩

theorem advances_expect {wanted : TokenKind} (notEnd : wanted ≠ .endOfInput) :
    Advances start passed kinds (fun _ => passed + 1) (expect wanted) (expect wanted) := by
  refine advances_kind fun kind _ => ?_
  split
  · rename_i isWanted
    exact advances_advance (isWanted ▸ notEnd)
  · exact advances_unexpected wanted

theorem advances_expect_endOfInput :
    Advances start passed kinds (fun _ => passed) (expect .endOfInput) (expect .endOfInput) := by
  refine advances_kind fun kind _ => ?_
  split
  · exact advances_advance_any
  · exact advances_unexpected .endOfInput

theorem advances_name : Advances start passed kinds (fun _ => passed + 1) name name :=
  (advances_expect (by simp)).bind fun _ => advances_pure (Nat.le_refl _)

/-! ### Loops -/

def behind (passed : Nat) : Option α → Nat
  | none => passed
  | some _ => passed + 1

/-- A loop whose rounds pass tokens ends before its fuel does. -/
theorem advances_many {item item' : Parse (Option α)} {fuel fuel' : Nat}
    (enough : start.ahead < fuel + passed) (enough' : start.ahead < fuel' + passed)
    (isItem : ∀ count, passed ≤ count → Advances start count anyKind (behind count) item item') :
    Advances start passed kinds (fun _ => passed) (many fuel item) (many fuel' item') := by
  -- a loop without fuel would have all tokens behind it, and one more
  induction fuel generalizing passed fuel' kinds with
  | zero => exact advances_of_ahead_lt (by omega)
  | succ fuel ih =>
      cases fuel' with
      | zero => exact advances_of_ahead_lt (by omega)
      | succ fuel' =>
          refine (isItem passed (Nat.le_refl _)).ofAny.bind fun found => ?_
          cases found with
          | none => exact advances_pure (Nat.le_refl _)
          | some first =>
              have others := @ih (passed + 1) anyKind fuel' (by omega) (by omega)
                fun count le => isItem count (Nat.le_of_succ_le le)
              exact others.bind fun _ => advances_pure (Nat.le_succ _)

end Parse

end MiniPascal
