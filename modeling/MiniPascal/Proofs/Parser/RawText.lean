import MiniPascal.Proofs.Lexical.Standing
import MiniPascal.Proofs.Parser.PortRules

/-!
# Raw text and tokens handed back

A parser is called again and again on one text, whatever becomes of each call.  Between its steps at
most one token has been handed back, and none just behind an `advance`.  So literal text is read with
nothing handed back and nothing carried over, from the character behind the opening quote on; and what
is handed back was in hand just before, so that the same tokens come again.
-/

namespace MiniPascal

namespace Lexer

theorem tokens_congr {lexer other : Lexer} (same : lexer.next = other.next) (count : Nat) :
    tokens (count + 1) lexer = tokens (count + 1) other := by
  rw [tokens, bind_run, bind_run, same]

end Lexer

namespace Parser

/-- The opening quote of a literal is in hand, nothing is handed back or carried over, and the next
character is the one behind the quote. -/
structure BeforeRawText (text : List Char) (parser : Parser) : Prop where
  isQuote : parser.current.kind = .apostrophe
  noneReturned : parser.lexer.returned = []
  noCarry : parser.lexer.carry = none
  stands : ∃ before after, text = before ++ '\'' :: after ∧
    parser.current.position = place before ∧ parser.lexer.reader.At (before ++ ['\'']) after

def Poised (text : List Char) (parser : Parser) : Prop :=
  parser.lexer.StandsIn text ∧ (parser.lexer.returned = [] ∨
    ∃ token, parser.lexer.returned = [token] ∧ parser.lexer.BehindQuote text token)

/-- The current token and those that follow it, so many, until one cannot be drawn. -/
def upcoming (count : Nat) (parser : Parser) : Except LexError (List Token) :=
  match Lexer.tokens count parser.lexer with
  | .ok tokens _ => .ok (parser.current :: tokens)
  | .error error _ => .error error

end Parser

/-- A literal is the text between two quotes, and its position that of the first. -/
def IsQuoted (source : List Char) (text : String) (position : Position) : Prop :=
  ∃ before after, source = before ++ '\'' :: (text.toList ++ '\'' :: after) ∧
    '\'' ∉ text.toList ∧ position = place before

namespace Parse

variable {text : List Char} {s s' : Parser} {token : Token}

theorem poised_of_advance (poised : s.Poised text) (ok : advance s = .ok token s') :
    s'.lexer.StandsIn text ∧ s'.lexer.returned = [] ∧ s'.lexer.BehindQuote text s'.current := by
  obtain ⟨found, lexer, isNext, -, rfl⟩ := advance_eq_ok.1 ok
  obtain ⟨stands, noneReturned | ⟨first, isReturned, behind⟩⟩ := poised
  · have stays := Lexer.staysIn_next stands noneReturned
    rw [isNext] at stays
    exact ⟨stays.1, stays.2, Lexer.behindQuote_next stands noneReturned isNext⟩
  · rw [Lexer.next, isReturned] at isNext
    cases isNext
    exact ⟨stands, rfl, behind⟩

theorem beforeRawText_of_advance (poised : s.Poised text) (ok : advance s = .ok token s')
    (isQuote : s'.current.kind = .apostrophe) : s'.BeforeRawText text := by
  obtain ⟨-, noneReturned, behind⟩ := poised_of_advance poised ok
  obtain ⟨noCarry, before, after, isText, isPlace, proper, all⟩ := behind isQuote
  rw [noCarry] at all
  exact ⟨isQuote, noneReturned, noCarry, before, after, isText, isPlace, proper, all⟩

/-- What is read as literal text stands between two quotes. -/
theorem isQuoted_of_rawText {found : String} (ready : s.BeforeRawText text)
    (ok : draw Lexer.rawText s = .ok found s') : IsQuoted text found s.current.position := by
  obtain ⟨-, -, noCarry, before, after, rfl, isPlace, proper, all⟩ := ready
  obtain ⟨lexer, isRaw, -⟩ := draw_eq_ok.1 ok
  have stands : s.lexer.At (before ++ ['\'']) after := by
    refine ⟨proper, ?_⟩
    rw [noCarry]
    exact all
  obtain ⟨start, gives⟩ := Lexer.rawText_eq stands
  rw [isRaw] at gives
  obtain ⟨-, before', after', isQuoted, -⟩ := gives
  obtain ⟨inner, left, rfl, noQuote, isInner, -⟩ := Lexer.quoted_eq_ok isQuoted
  obtain rfl : found.toList = inner := isInner
  exact ⟨before, left, rfl, noQuote, isPlace⟩

/-! ### The ports of the parser -/

theorem coincide_advance : Coincide (Parser.Poised text) (IsQuoted text) advance advance := by
  intro s poised
  refine ⟨rfl, ?_⟩
  cases outcome : advance s with
  | ok token s' =>
      obtain ⟨stands, noneReturned, -⟩ := poised_of_advance poised outcome
      exact ⟨onlyQuotes_of_nil rfl, stands, .inl noneReturned⟩
  | error error s' =>
      rw [advance_eq] at outcome
      obtain ⟨stands, noneReturned | ⟨first, isReturned, behind⟩⟩ := poised
      · have stays := Lexer.staysIn_next stands noneReturned
        cases isNext : s.lexer.next with
        | ok token lexer =>
            rw [isNext] at outcome
            cases outcome
        | error error lexer =>
            rw [isNext] at outcome stays
            cases outcome
            exact ⟨stays.1, .inl stays.2⟩
      · simp only [Lexer.next, isReturned] at outcome
        cases outcome

theorem poised_of_rawText (ready : s.BeforeRawText text) (poised : s.Poised text) :
    match draw Lexer.rawText s with
    | .ok _ s' | .error _ s' => s'.Poised text := by
  have stays := Lexer.staysIn_rawText poised.1
  rw [ready.noneReturned] at stays
  unfold draw
  cases isRaw : s.lexer.rawText with
  | ok found lexer =>
      rw [isRaw] at stays
      exact ⟨stays.1, .inl stays.2⟩
  | error error lexer =>
      rw [isRaw] at stays
      exact ⟨stays.1, .inl stays.2⟩

end Parse

/-- Where the parser reads raw text just behind a quote, and where it hands back the token that it has
just passed, the same is done at the ports. -/
structure Ports.Faithful (text : List Char) (ports : Ports) : Prop where
  rawText : ∀ s : Parser, s.BeforeRawText text → ports.rawText s = Parse.draw Lexer.rawText s
  backtrack : ∀ s passed s', Parse.advance s = .ok passed s' →
    ports.backtrack passed s' = Parse.backtrack passed s'

namespace Ports.Faithful

open Parse (CoincideAt)

variable {text : List Char} {ports : Ports}

theorem atRawText (faithful : ports.Faithful text) {s : Parser} (poised : s.Poised text)
    (ready : s.BeforeRawText text) :
    CoincideAt (Parser.Poised text) (IsQuoted text) ports.rawText (Parse.draw Lexer.rawText) s := by
  refine ⟨faithful.rawText s ready, ?_⟩
  have kept := Parse.poised_of_rawText ready poised
  cases outcome : Parse.draw Lexer.rawText s with
  | ok found s' =>
      rw [outcome] at kept
      exact ⟨onlyQuotes_of_nil rfl, kept⟩
  | error error s' =>
      rw [outcome] at kept
      exact kept

theorem literal (faithful : ports.Faithful text) {s : Parser} (poised : s.Poised text)
    (ready : s.current.kind = .apostrophe → s.BeforeRawText text) :
    CoincideAt (Parser.Poised text) (IsQuoted text) ports.literal Parse.literal s := by
  refine coincideAt_literal Parse.coincide_advance poised fun isQuote => ?_
  have before := ready isQuote
  exact ⟨faithful.atRawText poised before, fun _ _ => Parse.isQuoted_of_rawText before⟩

theorem suits (faithful : ports.Faithful text) :
    ports.Suits (Parser.Poised text) (IsQuoted text) where
  advance := Parse.coincide_advance
  freshLoop s poised := ⟨rfl, onlyQuotes_of_nil rfl, poised⟩
  literal s token s' poised ok := by
    obtain ⟨stands, noneReturned, -⟩ := Parse.poised_of_advance poised ok
    exact faithful.literal ⟨stands, .inl noneReturned⟩ (Parse.beforeRawText_of_advance poised ok)
  backtrack s token s' poised ok := by
    obtain ⟨stands, noneReturned, behind⟩ := Parse.poised_of_advance poised ok
    refine ⟨faithful.backtrack s token s' ok, onlyQuotes_of_nil rfl, stands, .inr ?_⟩
    exact ⟨s'.current, by simp [Lexer.giveBack, noneReturned], behind⟩

end Ports.Faithful

theorem Ports.faithful_standard (text : List Char) : Ports.standard.Faithful text :=
  ⟨fun _ _ => rfl, fun _ _ _ _ => rfl⟩

/-- Reads no raw text but behind a quote in hand with nothing handed back and nothing carried over. -/
def Ports.guarded : Ports where
  rawText := fun s =>
    if s.current.kind = .apostrophe ∧ s.lexer.returned = [] ∧ s.lexer.carry = none then
      Parse.draw Lexer.rawText s
    else .error .outOfFuel s
  backtrack := Parse.backtrack

theorem Ports.faithful_guarded (text : List Char) : Ports.guarded.Faithful text where
  rawText _ ready := if_pos ⟨ready.isQuote, ready.noneReturned, ready.noCarry⟩
  backtrack _ _ _ _ := rfl

namespace Parser

theorem poised_ofText {source : String} {parser : Parser} (ok : ofText source = .ok parser) :
    parser.Poised source.toList := by
  have stands := Lexer.standsIn_ofText source
  have stays := Lexer.staysIn_next stands rfl
  simp only [ofText, ofReader] at ok
  split at ok
  · rename_i token lexer isNext
    cases ok
    rw [Lexer.ofText, isNext] at stays
    exact ⟨stays.1, .inl stays.2⟩
  · cases ok

/-- The token that was in hand comes again, and then all that came before. -/
theorem upcoming_backtrack {s s' : Parser} {passed : Token} (ok : Parse.advance s = .ok passed s') :
    ∃ s'', Parse.backtrack passed s' = .ok () s'' ∧ s''.current = s.current ∧
      s''.nextLoop = s.nextLoop ∧ s''.lexer.returned = s'.current :: s'.lexer.returned ∧
      ∀ count, s''.upcoming count = s.upcoming count := by
  obtain ⟨token, lexer, isNext, rfl, rfl⟩ := Parse.advance_eq_ok.1 ok
  refine ⟨_, Parse.backtrack_eq _ _, rfl, rfl, rfl, fun count => ?_⟩
  cases count with
  | zero => rfl
  | succ count =>
      rw [upcoming, upcoming, Lexer.tokens_congr]
      exact isNext.symm

/-- However often programs are read from a text, and whatever came of it before: literal text is read
nowhere but just behind the quote in hand, with nothing handed back and nothing carried over, so that
anything else could be done elsewhere; each literal is the text between two quotes; and handing back the
token just passed brings all that came behind it once more. -/
theorem rawText_at_quotes {source : String} {parser : Parser} (ok : ofText source = .ok parser)
    (count : Nat) :
    (∀ ports : Ports, ports.Faithful source.toList →
      ports.program.calls count parser = Parse.program.calls count parser) ∧
    (∀ program, .ok program ∈ (Parse.program.calls count parser).1 →
      ∀ quote ∈ program.quotes, IsQuoted source.toList quote.1 quote.2) ∧
    ∀ s passed s', Parse.advance s = .ok passed s' →
      ∃ s'', Parse.backtrack passed s' = .ok () s'' ∧ s''.current = s.current ∧
        s''.nextLoop = s.nextLoop ∧ s''.lexer.returned = s'.current :: s'.lexer.returned ∧
        ∀ count, s''.upcoming count = s.upcoming count := by
  have poised := poised_ofText ok
  refine ⟨fun ports faithful => ?_, fun program isIn => ?_, fun _ _ _ => upcoming_backtrack⟩
  · exact (faithful.suits.program.calls count poised).1
  · have faithful := Ports.faithful_standard source.toList
    exact (faithful.suits.program.calls count poised).2 program isIn

/-- The theorem at a text whose first three programs are in error: with the guarded ports as well, one
literal is read, and the first word of the text can be handed back. -/
theorem rawText_at_quotes_braces :
    ∃ parser, ofText "program program ? begin write('a\x7bb\n') end." = .ok parser ∧
      Ports.guarded.program.calls 4 parser = Parse.program.calls 4 parser ∧
      (∃ program, .ok program ∈ (Parse.program.calls 4 parser).1 ∧
        program.quotes = [("a\x7bb\n", ⟨1, 31⟩)] ∧
        IsQuoted "program program ? begin write('a\x7bb\n') end.".toList "a\x7bb\n" ⟨1, 31⟩) ∧
      ∃ passed s' s'', Parse.advance parser = .ok passed s' ∧ Parse.backtrack passed s' = .ok () s'' ∧
        s''.current = parser.current ∧ s''.lexer.returned = s'.current :: s'.lexer.returned ∧
        ∀ count, s''.upcoming count = parser.upcoming count := by
  obtain ⟨parser, isMade, program, isIn, isQuotes⟩ := Parse.exists_of_calls
    (ofText "program program ? begin write('a\x7bb\n') end.") Parse.program 4
    (fun program => program.quotes == [("a\x7bb\n", ⟨1, 31⟩)]) (by decide +kernel)
  obtain ⟨_, isMade', token, isFirst, -⟩ := Parse.exists_of_calls
    (ofText "program program ? begin write('a\x7bb\n') end.") Parse.advance 1 (fun _ => true)
    (by decide +kernel)
  obtain rfl := Except.ok.inj (isMade.symm.trans isMade')
  obtain ⟨sameCalls, quoted, returned⟩ := rawText_at_quotes isMade 4
  have isQuotes := beq_iff_eq.1 isQuotes
  refine ⟨parser, isMade, sameCalls _ (Ports.faithful_guarded _),
    ⟨program, isIn, isQuotes, quoted program isIn ("a\x7bb\n", ⟨1, 31⟩) (by simp [isQuotes])⟩, ?_⟩
  cases outcome : Parse.advance parser with
  | error error s' =>
      rw [Parse.calls, outcome] at isFirst
      cases List.mem_singleton.1 isFirst
  | ok passed s' =>
      obtain ⟨s'', ok, isCurrent, -, isReturned, same⟩ := returned _ _ _ outcome
      exact ⟨passed, s', s'', rfl, ok, isCurrent, isReturned, same⟩

end Parser

end MiniPascal
