import MiniPascal.Diagnostic
import MiniPascal.Proofs.Acceptance.Expressions
import MiniPascal.Proofs.Lexical.Words

/-!
# Two parsers in front of the same lexemes

Where lexemes stand, and what is between them, makes no difference to a parser: `Parse.Agree` says
that two steps, which may differ in their fuels, give the same trees and the same errors up to
positions for parsers that have the same lexemes in front of them.
-/

namespace MiniPascal

/-! ### Errors without positions -/

def LexError.bare : LexError → LexError
  | invalidOctal _ => invalidOctal .nowhere
  | invalidHex _ => invalidHex .nowhere
  | unterminatedComment _ => unterminatedComment .nowhere
  | unterminatedString _ => unterminatedString .nowhere
  | invalidSymbol char _ => invalidSymbol char .nowhere
  | identifierTooLong _ => identifierTooLong .nowhere
  | unreadable _ => unreadable .nowhere

def ParseError.bare : ParseError → ParseError
  | lexical error => lexical error.bare
  | expected wanted found _ => expected wanted found .nowhere
  | expansion rule found _ => expansion rule found .nowhere
  | invalidDataType _ => invalidDataType .nowhere
  | expectedOrdinary _ => expectedOrdinary .nowhere
  | breakOutsideLoop _ => breakOutsideLoop .nowhere
  | invalidStatement name _ => invalidStatement name .nowhere
  | outOfFuel => outOfFuel

/-! ### How lexemes end -/

namespace Lexer

/-- The error behind the last lexeme, if nothing can be drawn there.  Behind the end of the input it
comes up again. -/
def fault (token : Token) (lexer : Lexer) : Option LexError :=
  if token.kind = .endOfInput then
    match lexer.next with
    | .ok _ _ => none
    | .error error _ => some error
  else
    match lexer.rawText with
    | .error error _ => some error
    | .ok _ inner =>
        match inner.next with
        | .ok _ _ => none
        | .error error _ => some error

/-- The error at which a lexer comes to its end, if it does not come to the end of the input. -/
def ending (lexer : Lexer) : Option LexError :=
  match isNext : lexer.next with
  | .error error _ => some error
  | .ok token behind =>
      match completed : complete token behind with
      | none => fault token behind
      | some (_, rest) =>
          have : rest.remaining < lexer.remaining :=
            have ⟨notEnd, le⟩ := remaining_complete completed
            Nat.lt_of_le_of_lt le ((remaining_next isNext).2 notEnd)
          rest.ending
termination_by lexer.remaining

def endingFrom (token : Token) (lexer : Lexer) : Option LexError :=
  match complete token lexer with
  | none => fault token lexer
  | some (_, rest) => rest.ending

theorem ending_of_next {lexer rest : Lexer} {token : Token} (ok : lexer.next = .ok token rest) :
    lexer.ending = endingFrom token rest := by
  rw [ending, endingFrom]
  split
  · rename_i isError
    cases ok.symm.trans isError
  · rename_i token' rest' isOk
    cases ok.symm.trans isOk
    split <;> rename_i completed
    · simp only [completed]
    · simp only [completed]

theorem ending_of_error {lexer rest : Lexer} {error : LexError}
    (isError : lexer.next = .error error rest) : lexer.ending = some error := by
  rw [ending]
  split
  · rename_i isError'
    cases isError.symm.trans isError'
    rfl
  · rename_i isOk
    cases isError.symm.trans isOk

theorem returned_next {lexer rest : Lexer} {token : Token} (ok : lexer.next = .ok token rest) :
    rest.returned = lexer.returned.tail := by
  unfold next at ok
  split at ok
  · rename_i isReturned
    cases ok
    rw [isReturned]
    rfl
  · rename_i isReturned
    rw [isReturned]
    split at ok
    · exact (sound_scan (show Scan.Sound .blank from trivial) ok).2
    · cases ok

theorem collect_eq_ok {start : Position} {text result : String} {symbol : Symbol} {reader : Reader}
    {inner : Lexer} (ok : collect start text symbol reader = .ok result inner) :
    ∃ position rest, inner = ⟨rest, some ⟨some '\'', position⟩, []⟩ := by
  fun_induction collect start text symbol reader with
  | case2 text reader char position isQuote =>
      cases ok
      rw [beq_iff_eq.1 isQuote]
      exact ⟨position, reader, rfl⟩
  | case3 text reader char position notQuote symbol rest isRead smaller ih => exact ih ok
  | _ => cases ok

theorem next_of_rawText {lexer inner : Lexer} {text : String} (noneReturned : lexer.returned = [])
    (isText : lexer.rawText = .ok text inner) :
    ∃ quote rest, inner.next = .ok quote rest ∧ quote.kind = .apostrophe ∧ rest.returned = [] := by
  unfold rawText at isText
  split at isText
  · cases isText
  · rename_i first reader carry returned isSymbol
    obtain ⟨same, -⟩ := remaining_symbol isSymbol
    have isNil : returned = [] := same.trans noneReturned
    split at isText
    · rename_i collected
      cases isText
      obtain ⟨position, rest, rfl⟩ := collect_eq_ok collected
      refine ⟨.plain .apostrophe position, ofReader rest, ?_, rfl, rfl⟩
      rw [isNil]
      change scan .blank ⟨some '\'', position⟩ rest = _
      rw [scan]
      rfl
    · cases isText

end Lexer

/-! ### Parsers that stand alike -/

namespace Parser

def ending (parser : Parser) : Option LexError := parser.lexer.endingFrom parser.current

/-- At most one token has been handed back, and only behind a name. -/
def Settled (parser : Parser) : Prop :=
  parser.lexer.returned = [] ∨
    parser.lexer.returned.length = 1 ∧ parser.current.kind = .ident

structure Alike (first second : Parser) : Prop where
  input : first.input = second.input
  ending : first.ending.map LexError.bare = second.ending.map LexError.bare
  settled : first.Settled
  settled' : second.Settled

theorem Settled.alike {parser : Parser} (settled : parser.Settled) : parser.Alike parser :=
  ⟨rfl, rfl, settled, settled⟩

theorem Alike.kind {first second : Parser} (alike : first.Alike second) :
    first.current.kind = second.current.kind := by
  rw [← kind_input, ← kind_input, alike.input]

theorem Alike.nextLoop {first second : Parser} (alike : first.Alike second) :
    first.nextLoop = second.nextLoop :=
  congrArg Input.loops alike.input

theorem Alike.lexemes {first second : Parser} (alike : first.Alike second) :
    first.lexemes.map Token.bare = second.lexemes.map Token.bare :=
  congrArg Input.lexemes alike.input

theorem Alike.length {first second : Parser} (alike : first.Alike second) :
    first.lexemes.length = second.lexemes.length := by
  simpa using congrArg List.length alike.lexemes

theorem Settled.tail_eq_nil {parser : Parser} (settled : parser.Settled) :
    parser.lexer.returned.tail = [] := by
  rcases settled with isNil | ⟨one, -⟩
  · rw [isNil]
    rfl
  · exact List.eq_nil_of_length_eq_zero (by simp [one])

theorem settled_of_returned {parser : Parser} (isNil : parser.lexer.returned = []) :
    parser.Settled := .inl isNil

/-- From one parser to another at least so many lexemes have been taken. -/
structure Leads (least : Nat) (parser rest : Parser) : Prop where
  suffix_ : rest.lexemes <:+ parser.lexemes
  shorter : rest.lexemes.length + least ≤ parser.lexemes.length

theorem Leads.ofEq {parser rest : Parser} (same : rest.lexemes = parser.lexemes) :
    Leads 0 parser rest :=
  ⟨same ▸ List.suffix_refl _, Nat.le_of_eq (congrArg List.length same)⟩

theorem Leads.refl (parser : Parser) : Leads 0 parser parser := .ofEq rfl

theorem Leads.trans {least more : Nat} {parser middle rest : Parser}
    (leads : Leads least parser middle) (leads' : Leads more middle rest) :
    Leads (more + least) parser rest := by
  refine ⟨leads'.suffix_.trans leads.suffix_, ?_⟩
  have := leads.shorter
  have := leads'.shorter
  omega

theorem Leads.weaken {least : Nat} {parser rest : Parser} (leads : Leads least parser rest) :
    Leads 0 parser rest :=
  ⟨leads.suffix_, Nat.le_trans (Nat.le_add_right _ _) leads.shorter⟩

end Parser

namespace Parse

open MiniPascal.Parser

variable {α β : Type} [Placed α] [Placed β]

inductive Outcome (least : Nat) (first second : Parser) :
    EStateM.Result ParseError Parser α → EStateM.Result ParseError Parser α → Prop where
  | ok {a b : α} {first' second' : Parser} (same : Placed.bare a = Placed.bare b)
      (alike : first'.Alike second') (leads : first.Leads least first')
      (leads' : second.Leads least second') :
      Outcome least first second (.ok a first') (.ok b second')
  | error {error error' : ParseError} {first' second' : Parser} (same : error.bare = error'.bare)
      (fuelled : error ≠ .outOfFuel) :
      Outcome least first second (.error error first') (.error error' second')

theorem Outcome.weaken {least : Nat} {first second : Parser}
    {result result' : EStateM.Result ParseError Parser α}
    (outcome : Outcome least first second result result') : Outcome 0 first second result result' := by
  cases outcome with
  | ok same alike leads leads' => exact .ok same alike leads.weaken leads'.weaken
  | error same fuelled => exact .error same fuelled

theorem Outcome.behind {least : Nat} {first second first' second' : Parser}
    {result result' : EStateM.Result ParseError Parser α} (leads : first.Leads least first')
    (leads' : second.Leads least second') (outcome : Outcome 0 first' second' result result') :
    Outcome least first second result result' := by
  cases outcome with
  | ok same alike further further' =>
      exact .ok same alike (Nat.zero_add least ▸ leads.trans further)
        (Nat.zero_add least ▸ leads'.trans further')
  | error same fuelled => exact .error same fuelled

/-- On inputs up to a size that begin with certain kinds, two steps give the same for parsers that
stand alike, and take at least so many lexemes. -/
def Agree (least size : Nat) (kinds : TokenKind → Prop) (action action' : Parse α) : Prop :=
  ∀ first second : Parser, first.Alike second → first.lexemes.length ≤ size →
    kinds first.current.kind → Outcome least first second (action first) (action' second)

variable {least size : Nat} {kinds : TokenKind → Prop} {action action' : Parse α}

theorem Agree.atSize {fewer : Nat} (agree : Agree least size kinds action action')
    (le : fewer ≤ size) : Agree least fewer kinds action action' :=
  fun first second alike bounded => agree first second alike (Nat.le_trans bounded le)

theorem Agree.onKinds {more : TokenKind → Prop} (agree : Agree least size kinds action action')
    (weaker : ∀ kind, more kind → kinds kind) : Agree least size more action action' :=
  fun first second alike bounded begins => agree first second alike bounded (weaker _ begins)

theorem Agree.ofAny (agree : Agree least size anyKind action action') :
    Agree least size kinds action action' :=
  agree.onKinds fun _ _ => trivial

theorem Agree.weaken (agree : Agree least size kinds action action') :
    Agree 0 size kinds action action' :=
  fun first second alike bounded begins => (agree first second alike bounded begins).weaken

theorem agree_pure {a b : α} (same : Placed.bare a = Placed.bare b) :
    Agree 0 size kinds (pure a) (pure b) :=
  fun first second alike _ _ => .ok same alike (.refl first) (.refl second)

theorem agree_throw {error error' : ParseError} (same : error.bare = error'.bare)
    (fuelled : error ≠ .outOfFuel) :
    Agree least size kinds (throw error : Parse α) (throw error') :=
  fun _ _ _ _ _ => .error same fuelled

theorem agree_zero : Agree least 0 kinds action action' := by
  intro first second alike bounded
  have notEmpty := List.length_pos_iff.2 (first.lexer.lexemesFrom_ne_nil first.current)
  exact absurd notEmpty (Nat.not_lt.2 bounded)

section

variable {next next' : α → Parse β} {fewer : Nat}

private theorem Agree.bindTo (first : Agree least size kinds action action')
    (le : size ≤ fewer + least)
    (second : ∀ a b, Placed.bare a = Placed.bare b → Agree 0 fewer anyKind (next a) (next' b)) :
    Agree least size kinds (action >>= next) (action' >>= next') := by
  intro parser parser' alike bounded begins
  have outcome := first parser parser' alike bounded begins
  rw [bind_run, bind_run]
  generalize action parser = result at outcome
  generalize action' parser' = result' at outcome
  cases outcome with
  | ok same alike leads leads' =>
      have shorter := leads.shorter
      exact .behind leads leads' (second _ _ same _ _ alike (by omega) trivial)
  | error same fuelled => exact .error same fuelled

theorem Agree.bind (first : Agree least size kinds action action')
    (second : ∀ a b, Placed.bare a = Placed.bare b → Agree 0 size anyKind (next a) (next' b)) :
    Agree least size kinds (action >>= next) (action' >>= next') :=
  first.bindTo (Nat.le_add_right _ _) second

/-- Behind a step that takes a lexeme, the next one has less in front of it. -/
theorem Agree.bindFewer (first : Agree 1 (size + 1) kinds action action')
    (second : ∀ a b, Placed.bare a = Placed.bare b → Agree 0 size anyKind (next a) (next' b)) :
    Agree 1 (size + 1) kinds (action >>= next) (action' >>= next') :=
  first.bindTo (Nat.le_refl _) second

end

theorem agree_kind {next next' : TokenKind → Parse α}
    (each : ∀ kind, kinds kind → Agree least size (· = kind) (next kind) (next' kind)) :
    Agree least size kinds (Parse.kind >>= next) (Parse.kind >>= next') := by
  intro first second alike bounded begins
  have outcome := each _ begins first second alike bounded rfl
  rw [kind_bind_apply, kind_bind_apply, kind_input, kind_input, ← alike.kind]
  exact outcome

/-! ### Passing lexemes -/

inductive Takes (read : Token → α) (parser : Parser) :
    EStateM.Result ParseError Parser α → Prop where
  | ok {a : α} {rest : Parser} (whole : Token) (isCons : parser.lexemes = whole :: rest.lexemes)
      (same : Placed.bare a = read whole.bare) (ends : parser.ending = rest.ending)
      (returned : rest.lexer.returned = []) (loops : rest.nextLoop = parser.nextLoop) :
      Takes read parser (.ok a rest)
  | error {error : LexError} {rest : Parser} (isLast : parser.lexemes.length = 1)
      (ends : parser.ending = some error) : Takes read parser (.error (.lexical error) rest)

theorem agree_of_takes {read : Token → α}
    (takes : ∀ parser : Parser, parser.Settled → kinds parser.current.kind →
      Takes read parser (action parser)) :
    Agree 1 size kinds action action := by
  intro first second alike _ begins
  have took := takes first alike.settled begins
  have took' := takes second alike.settled' (alike.kind ▸ begins)
  have length := alike.length
  have lexemes := alike.lexemes
  generalize action first = result at took
  generalize action second = result' at took'
  have notEmpty {parser : Parser} : 0 < parser.lexemes.length :=
    List.length_pos_iff.2 (parser.lexer.lexemesFrom_ne_nil parser.current)
  cases took with
  | @ok a rest whole isCons same ends returned loops =>
      cases took' with
      | @ok a' rest' whole' isCons' same' ends' returned' loops' =>
          rw [isCons, isCons', List.map_cons, List.map_cons, List.cons.injEq] at lexemes
          refine .ok ?_ ⟨?_, ?_, .inl returned, .inl returned'⟩ ⟨?_, ?_⟩ ⟨?_, ?_⟩
          · rw [same, same', lexemes.1]
          · rw [Parser.input, Parser.input, lexemes.2, loops, loops', alike.nextLoop]
          · rw [← ends, ← ends', alike.ending]
          · rw [isCons]
            exact List.suffix_cons _ _
          · rw [isCons]
            exact Nat.le_refl _
          · rw [isCons']
            exact List.suffix_cons _ _
          · rw [isCons']
            exact Nat.le_refl _
      | error isLast =>
          rw [isLast, isCons, List.length_cons] at length
          exact absurd (@notEmpty rest) (by omega)
  | error isLast ends =>
      cases took' with
      | @ok a' rest' whole' isCons' =>
          rw [isLast, isCons', List.length_cons] at length
          exact absurd (@notEmpty rest') (by omega)
      | error isLast' ends' =>
          refine .error ?_ (by simp)
          have same := alike.ending
          rw [ends, ends'] at same
          exact congrArg ParseError.lexical (Option.some.inj same)

theorem draw_of_error {γ : Type} {act : EStateM LexError Lexer γ} {parser : Parser}
    {error : LexError} {lexer : Lexer} (isError : act parser.lexer = .error error lexer) :
    draw act parser = .error (.lexical error) { parser with lexer := lexer } := by
  unfold draw
  rw [isError]

theorem advance_of_error {parser : Parser} {error : LexError} {lexer : Lexer}
    (isError : parser.lexer.next = .error error lexer) :
    advance parser = .error (.lexical error) { parser with lexer := lexer } := by
  have isCurrent : current parser = .ok parser.current parser := rfl
  rw [advance, bind_of_ok _ isCurrent, bind_of_error _ (draw_of_error isError)]

theorem takes_advance {parser : Parser} (settled : parser.Settled)
    (isOrdinary : IsOrdinary parser.current.kind) : Takes id parser (advance parser) := by
  have isCons := lexemes_of_isOrdinary isOrdinary
  have ends : parser.ending = parser.lexer.ending := by
    rw [Parser.ending, Lexer.endingFrom, Lexer.complete, if_neg isOrdinary.1, if_neg isOrdinary.2]
  cases isNext : parser.lexer.next with
  | ok token lexer =>
      have isOk : advance parser = .ok parser.current ⟨lexer, token, parser.nextLoop⟩ :=
        advance_eq_ok.2 ⟨token, lexer, isNext, rfl, rfl⟩
      rw [isOk]
      refine .ok parser.current ?_ rfl ?_ ?_ rfl
      · rw [isCons, Lexer.lexemes_of_next isNext]
        rfl
      · rw [ends, Lexer.ending_of_next isNext]
        rfl
      · exact (Lexer.returned_next isNext).trans settled.tail_eq_nil
  | error error lexer =>
      rw [advance_of_error isNext]
      refine .error ?_ ?_
      · rw [isCons, Lexer.lexemes_of_error isNext]
        rfl
      · rw [ends, Lexer.ending_of_error isNext]

theorem agree_advance (kind : TokenKind) (isOrdinary : IsOrdinary kind) :
    Agree 1 size (· = kind) advance advance :=
  agree_of_takes fun _ settled isKind => takes_advance settled (isKind ▸ isOrdinary)

theorem agree_unexpected (wanted : TokenKind) :
    Agree least size kinds (unexpected wanted : Parse α) (unexpected wanted) := by
  intro first second alike _ _
  refine .error ?_ ?_
  · simp [ParseError.bare, alike.kind]
  · simp

theorem agree_cannotExpand (rule : Nonterminal) :
    Agree least size kinds (cannotExpand rule : Parse α) (cannotExpand rule) := by
  intro first second alike _ _
  refine .error ?_ ?_
  · simp [ParseError.bare, alike.kind]
  · simp

theorem agree_expect (wanted : TokenKind) (isOrdinary : IsOrdinary wanted) :
    Agree 1 size kinds (expect wanted) (expect wanted) := by
  refine agree_kind fun kind _ => ?_
  by_cases isWanted : kind = wanted
  · subst isWanted
    rw [if_pos rfl]
    exact agree_advance _ isOrdinary
  · rw [if_neg isWanted]
    exact agree_unexpected wanted

theorem bare_text {token token' : Token} (same : Placed.bare token = Placed.bare token') :
    token.text = token'.text :=
  (congrArg Token.text same : (Placed.bare token).text = (Placed.bare token').text)

theorem bare_value {token token' : Token} (same : Placed.bare token = Placed.bare token') :
    token.value = token'.value :=
  (congrArg Token.value same : (Placed.bare token).value = (Placed.bare token').value)

theorem agree_name : Agree 1 size kinds name name :=
  (agree_expect .ident (by decide)).bind fun _ _ same => agree_pure (bare_text same)

/-! ### Repetition -/

theorem bare_cons {a b : α} {others others' : List α} (same : Placed.bare a = Placed.bare b)
    (same' : Placed.bare others = Placed.bare others') :
    Placed.bare (a :: others) = Placed.bare (b :: others') := by
  change Placed.bare a :: Placed.bare others = Placed.bare b :: Placed.bare others'
  rw [same, same']

theorem agree_many {item item' : Parse (Option α)} {fuel fuel' : Nat} (le : size ≤ fuel)
    (le' : size ≤ fuel') (agree : Agree 0 size anyKind item item')
    (takes : ∀ parser : Parser, parser.Settled → parser.lexemes.length ≤ size → ∀ a rest,
      item parser = .ok (some a) rest → rest.lexemes.length < parser.lexemes.length) :
    Agree 0 size anyKind (many fuel item) (many fuel' item') := by
  induction fuel generalizing size fuel' with
  | zero =>
      obtain rfl := Nat.le_zero.1 le
      exact agree_zero
  | succ fuel ih =>
      cases fuel' with
      | zero =>
          obtain rfl := Nat.le_zero.1 le'
          exact agree_zero
      | succ fuel' =>
          intro first second alike bounded _
          have outcome := agree first second alike bounded trivial
          have shrinks := takes first alike.settled bounded
          change Outcome 0 first second ((item >>= _) first) ((item' >>= _) second)
          rw [bind_run, bind_run]
          generalize item first = result at outcome shrinks
          generalize item' second = result' at outcome
          cases outcome with
          | error same fuelled => exact .error same fuelled
          | @ok a b first' second' same alike leads leads' =>
              apply Outcome.behind leads leads'
              cases a with
              | none =>
                  cases b with
                  | none => exact .ok rfl alike (.refl first') (.refl second')
                  | some b => cases same
              | some a =>
                  cases b with
                  | none => cases same
                  | some b =>
                      have fewer := shrinks a first' rfl
                      have again := @ih (size - 1) fuel' (by omega) (by omega)
                        (agree.atSize (Nat.sub_le _ _)) fun parser settled bounded =>
                          takes parser settled (Nat.le_trans bounded (Nat.sub_le _ _))
                      refine Agree.bind again (fun others others' same' => agree_pure ?_) _ _ alike
                        (by omega) trivial
                      exact bare_cons (Option.some.inj same) same'

theorem Agree.leads (agree : Agree least size kinds action action') {parser rest : Parser}
    (settled : parser.Settled) (bounded : parser.lexemes.length ≤ size)
    (begins : kinds parser.current.kind) {a : α} (isOk : action parser = .ok a rest) :
    parser.Leads least rest ∧ rest.Settled := by
  have outcome := agree parser parser settled.alike bounded begins
  rw [isOk] at outcome
  generalize action' parser = result' at outcome
  cases outcome with
  | ok same alike leads leads' => exact ⟨leads, alike.settled⟩

theorem agree_many_kind (Stops : TokenKind → Prop) {next next' : TokenKind → Parse (Option α)}
    {fuel fuel' : Nat} (le : size ≤ fuel) (le' : size ≤ fuel')
    (stops : ∀ kind, Stops kind → next kind = pure none ∧ next' kind = pure none)
    (goesOn : ∀ kind, ¬ Stops kind → Agree 1 size (· = kind) (next kind) (next' kind)) :
    Agree 0 size anyKind (many fuel (Parse.kind >>= next)) (many fuel' (Parse.kind >>= next')) := by
  refine agree_many le le' (agree_kind fun kind _ => ?_) fun parser settled bounded a rest isOk => ?_
  · by_cases isStop : Stops kind
    · rw [(stops kind isStop).1, (stops kind isStop).2]
      exact agree_pure rfl
    · exact (goesOn kind isStop).weaken
  · rw [kind_bind_apply, kind_input] at isOk
    by_cases isStop : Stops parser.current.kind
    · rw [(stops _ isStop).1] at isOk
      cases isOk
    · exact ((goesOn _ isStop).leads settled bounded rfl isOk).1.shorter

omit [Placed α] in
theorem stops_of_many {next : TokenKind → Parse (Option α)} (Stops : TokenKind → Prop)
    (stops : ∀ kind, Stops kind → next kind = pure none)
    (goesOn : ∀ kind, ¬ Stops kind → ∀ parser rest, next kind parser ≠ .ok none rest) {fuel : Nat}
    {parser rest : Parser} {items : List α}
    (isOk : many fuel (Parse.kind >>= next) parser = .ok items rest) : Stops rest.current.kind := by
  induction fuel generalizing parser items with
  | zero => cases isOk
  | succ fuel ih =>
      obtain ⟨o, middle, isItem, isOk⟩ := bind_eq_ok.1 isOk
      cases o with
      | none =>
          obtain ⟨-, rfl⟩ := pure_eq_ok.1 isOk
          rw [kind_bind_apply, kind_input] at isItem
          by_cases isStop : Stops parser.current.kind
          · rw [stops _ isStop] at isItem
            obtain ⟨-, rfl⟩ := pure_eq_ok.1 isItem
            exact isStop
          · exact absurd isItem (goesOn _ isStop _ _)
      | some a =>
          obtain ⟨others, last, isOthers, isOk⟩ := bind_eq_ok.1 isOk
          obtain ⟨-, rfl⟩ := pure_eq_ok.1 isOk
          exact ih isOthers

theorem Agree.bindEnds {next next' : α → Parse β} (Stops : TokenKind → Prop)
    (first : Agree least size kinds action action')
    (ends : ∀ parser a rest, action parser = .ok a rest → Stops rest.current.kind)
    (second : ∀ a b, Placed.bare a = Placed.bare b → Agree 0 size Stops (next a) (next' b)) :
    Agree least size kinds (action >>= next) (action' >>= next') := by
  intro parser parser' alike bounded begins
  have outcome := first parser parser' alike bounded begins
  have ends := ends parser
  rw [bind_run, bind_run]
  generalize action parser = result at outcome ends
  generalize action' parser' = result' at outcome
  cases outcome with
  | ok same alike leads leads' =>
      have shorter := leads.shorter
      exact .behind leads leads' (second _ _ same _ _ alike (by omega) (ends _ _ rfl))
  | error same fuelled => exact .error same fuelled

end Parse

end MiniPascal
