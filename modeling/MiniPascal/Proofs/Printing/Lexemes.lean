import MiniPascal.Proofs.Acceptance.Programs
import MiniPascal.Proofs.Layout.Basic
import MiniPascal.Proofs.Lexical.Cutting

/-!
# The lexemes of a text that is put together

A text that a printer writes is put together from pieces.  To know its lexemes, the pieces are fed to
the scanning automaton one after the other: `Closed` pieces end between two lexemes, and behind those
that only `Writes` their lexemes the last one may go on, unless what comes behind `Detaches` it.
-/

namespace MiniPascal

abbrev Token.sign (kind : TokenKind) : Token := .plain kind .nowhere

/-! ### The automaton without positions -/

def Scan.bare : Scan → Scan
  | blank => blank
  | comment _ => comment .nowhere
  | word _ text => word .nowhere text
  | decimal _ value => decimal .nowhere value
  | zero _ => zero .nowhere
  | octal _ value digits => octal .nowhere value digits
  | hex _ value digits => hex .nowhere value digits
  | less _ => less .nowhere
  | greater _ => greater .nowhere
  | colon _ => colon .nowhere

def Scan.Step.bare : Scan.Step → Scan.Step
  | more scan => more scan.bare
  | last token => last token.bare
  | before => before
  | fail error => fail error.bare

namespace Scan

theorem start_bare (char : Char) (position : Position) :
    (start char position).bare = start char .nowhere := by
  unfold start
  split
  · rfl
  · split <;> try rfl
    split <;> rfl

theorem step_bare (state : Scan) (char : Char) (position : Position) :
    (state.step char position).bare = state.bare.step char .nowhere := by
  cases state with
  | blank => exact start_bare char position
  | comment origin =>
      simp only [step, bare]
      split <;> rfl
  | word origin text =>
      simp only [step, bare]
      split
      · split <;> rfl
      · rfl
  | decimal origin value =>
      simp only [step, bare]
      split <;> rfl
  | zero origin =>
      simp only [step, bare]
      split
      · split <;> rfl
      · split
        · split <;> rfl
        · rfl
  | octal origin value digits =>
      simp only [step, bare]
      split
      · rfl
      · split <;> rfl
  | hex origin value digits =>
      simp only [step, bare]
      split
      · rfl
      · split <;> rfl
  | less origin =>
      simp only [step, bare]
      split <;> rfl
  | greater origin =>
      simp only [step, bare]
      split <;> rfl
  | colon origin =>
      simp only [step, bare]
      split <;> rfl

theorem result_bare {state : Scan} {position : Position} {token : Token}
    (ok : state.bare.result .nowhere = .ok token) :
    ∃ found, state.result position = .ok found ∧ found.bare = token := by
  cases state with
  | comment origin => cases ok
  | word origin text =>
      cases ok
      refine ⟨_, rfl, ?_⟩
      unfold Token.word
      split <;> rfl
  | octal origin value digits | hex origin value digits =>
      cases digits with
      | false => cases ok
      | true =>
          cases ok
          exact ⟨_, rfl, rfl⟩
  | _ =>
      cases ok
      exact ⟨_, rfl, rfl⟩

end Scan

/-! ### Feeding characters -/

/-- What is being read between two characters of a text. -/
inductive Mode where
  | scan (state : Scan)
  /-- Behind the opening quote of literal text. -/
  | quoted (text : String)
  deriving DecidableEq

namespace Mode

abbrev blank : Mode := .scan .blank

def literal (text : String) : Token := ⟨.apostrophe, text, 0, .nowhere⟩

/-- What is complete behind a step of the automaton, and what is being read then. -/
def settle : Scan.Step → Option (List Token × Mode)
  | .more state => some ([], .scan state)
  | .last token => if token.kind = .apostrophe then some ([], .quoted "") else some ([token], blank)
  | .before | .fail _ => none

def start (char : Char) : Option (List Token × Mode) := settle (Scan.start char .nowhere)

def feed : Mode → Char → Option (List Token × Mode)
  | .quoted text, char =>
      if char = '\'' then some ([literal text], blank) else some ([], .quoted (text.push char))
  | .scan state, char =>
      match state.step char .nowhere with
      | .before =>
          match state.result .nowhere with
          | .ok token => (start char).map (Prod.map (token :: ·) id)
          | .error _ => none
      | step => settle step

def feedAll : Mode → List Char → Option (List Token × Mode)
  | mode, [] => some ([], mode)
  | mode, char :: chars =>
      match mode.feed char with
      | none => none
      | some (tokens, next) => (next.feedAll chars).map (Prod.map (tokens ++ ·) id)

theorem feedAll_append {mode middle last : Mode} {first second : List Char}
    {tokens others : List Token} (left : mode.feedAll first = some (tokens, middle))
    (right : middle.feedAll second = some (others, last)) :
    mode.feedAll (first ++ second) = some (tokens ++ others, last) := by
  induction first generalizing mode tokens with
  | nil =>
      cases left
      exact right
  | cons char first ih =>
      rw [List.cons_append, feedAll]
      rw [feedAll] at left
      split at left
      · cases left
      · rename_i found next isFed
        obtain ⟨⟨more, _⟩, isMore, isTokens⟩ := Option.map_eq_some_iff.1 left
        cases isTokens
        simp [ih isMore]

theorem feedAll_cons {mode last : Mode} {char : Char} {chars : List Char} {tokens : List Token}
    (fed : mode.feedAll (char :: chars) = some (tokens, last)) :
    ∃ found next others, mode.feed char = some (found, next) ∧
      next.feedAll chars = some (others, last) ∧ tokens = found ++ others := by
  rw [feedAll] at fed
  split at fed
  · cases fed
  · rename_i found next isFed
    obtain ⟨⟨others, _⟩, isOthers, isTokens⟩ := Option.map_eq_some_iff.1 fed
    cases isTokens
    exact ⟨found, next, others, isFed, isOthers, rfl⟩

theorem feed_of_step {state : Scan} {char : Char} (notBefore : state.step char .nowhere ≠ .before) :
    (Mode.scan state).feed char = settle (state.step char .nowhere) := by
  rw [feed]
  split
  · exact absurd ‹_› notBefore
  · rfl

theorem feed_blank (char : Char) : blank.feed char = start char :=
  feed_of_step (Scan.start_ne_before char .nowhere)

theorem feed_of_before {state : Scan} {char : Char} {token : Token}
    (before : state.step char .nowhere = .before) (ok : state.result .nowhere = .ok token) :
    (Mode.scan state).feed char = (start char).map (Prod.map (token :: ·) id) := by
  rw [feed, before]
  simp only [ok]

end Mode

/-! ### From characters to lexemes -/

theorem Scan.kind_of_result {state : Scan} {position : Position} {token : Token}
    (notBlank : state ≠ .blank) (ok : state.result position = .ok token) :
    token.kind ≠ .apostrophe ∧ token.kind ≠ .endOfInput := by
  cases state with
  | blank => exact absurd rfl notBlank
  | comment origin => cases ok
  | word origin text =>
      cases ok
      have notQuote : TokenKind.ofSpelling text ≠ .apostrophe := by
        unfold TokenKind.ofSpelling
        cases found : TokenKind.reserved.find? fun kind => kind.spelling == some text with
        | none => simp
        | some kind =>
            have isReserved := List.mem_of_find?_eq_some found
            rintro rfl
            exact absurd isReserved (by decide)
      have notEnd := TokenKind.ofSpelling_ne_endOfInput text
      unfold Token.word
      split
      · exact ⟨by simp [Token.ident], by simp [Token.ident]⟩
      · exact ⟨notQuote, notEnd⟩
  | octal origin value digits | hex origin value digits =>
      cases digits with
      | false => cases ok
      | true =>
          cases ok
          exact ⟨by simp [Token.number], by simp [Token.number]⟩
  | decimal origin value | zero origin =>
      cases ok
      exact ⟨by simp [Token.number], by simp [Token.number]⟩
  | less origin | greater origin | colon origin =>
      cases ok
      exact ⟨by simp [Token.plain], by simp [Token.plain]⟩

theorem Scan.plain_of_last {state : Scan} {char : Char} {position : Position} {token : Token}
    (last : state.step char position = .last token) :
    token.kind ≠ .endOfInput ∧ token.bare = .plain token.kind .nowhere := by
  cases state with
  | blank =>
      obtain ⟨kind, isKind, rfl⟩ := start_last last
      refine ⟨?_, rfl⟩
      rintro rfl
      unfold TokenKind.ofChar? at isKind
      split at isKind <;> cases isKind
  | less origin | greater origin | colon origin =>
      simp only [step] at last
      split at last <;> cases last <;> exact ⟨by simp [Token.plain], rfl⟩
  | _ =>
      simp only [step] at last
      repeat' split at last
      all_goals cases last

namespace Mode

inductive Draws (tokens : List Token) :
    Except LexError (Token × List Char × List Char) → Prop where
  | endOfInput {position : Position} {before : List Char} (isNil : tokens = []) :
      Draws tokens (.ok (.plain .endOfInput position, before, []))
  | lexeme {token : Token} {before after : List Char} {others : List Token}
      (notEnd : token.kind ≠ .endOfInput) (notQuote : token.kind ≠ .apostrophe)
      (isCons : tokens = token.bare :: others) (fed : blank.feedAll after = some (others, blank)) :
      Draws tokens (.ok (token, before, after))
  | quote {token : Token} {before after : List Char} (isQuote : token.kind = .apostrophe)
      (isPlain : token.bare = .plain .apostrophe .nowhere)
      (fed : (Mode.quoted "").feedAll after = some (tokens, blank)) :
      Draws tokens (.ok (token, before, after))

theorem draws_of_feed {state : Scan} {before after : List Char} {tokens : List Token}
    (fed : (Mode.scan state.bare).feedAll after = some (tokens, blank)) :
    Draws tokens (state.run before after) := by
  induction after generalizing state before tokens with
  | nil =>
      obtain ⟨rfl, isBlank⟩ := Prod.mk.injEq .. ▸ Option.some.inj fed
      cases state with
      | blank => exact .endOfInput rfl
      | _ => cases isBlank
  | cons char after ih =>
      obtain ⟨found, next, others, isFed, isOthers, rfl⟩ := feedAll_cons fed
      have isBare := state.step_bare char (place before)
      rw [Scan.run]
      cases isStep : state.step char (place before) with
      | more inner =>
          rw [isStep] at isBare
          rw [feed_of_step (by rw [← isBare]; simp [Scan.Step.bare]), ← isBare] at isFed
          cases isFed
          exact ih isOthers
      | last token =>
          obtain ⟨notEnd, isPlain⟩ := Scan.plain_of_last isStep
          rw [isStep] at isBare
          rw [feed_of_step (by rw [← isBare]; simp [Scan.Step.bare]), ← isBare] at isFed
          simp only [Scan.Step.bare, settle] at isFed
          split at isFed
          · rename_i isQuote
            cases isFed
            refine .quote isQuote ?_ isOthers
            rw [isPlain]
            exact congrArg (Token.plain · .nowhere) isQuote
          · rename_i notQuote
            cases isFed
            exact .lexeme notEnd notQuote rfl isOthers
      | before =>
          -- the character ends a token that it is no part of, and is fed again
          have notBlank : state ≠ .blank := by
            rintro rfl
            exact Scan.start_ne_before _ _ isStep
          rw [isStep] at isBare
          cases isResult : state.bare.result .nowhere with
          | error error =>
              rw [feed, ← isBare] at isFed
              simp [Scan.Step.bare, isResult] at isFed
          | ok token =>
              rw [feed_of_before isBare.symm isResult] at isFed
              obtain ⟨⟨more, _⟩, isStart, isFound⟩ := Option.map_eq_some_iff.1 isFed
              cases isFound
              obtain ⟨drawn, isDrawn, rfl⟩ := @Scan.result_bare state (place before) token isResult
              obtain ⟨notQuote, notEnd⟩ := Scan.kind_of_result notBlank isDrawn
              rw [isDrawn]
              refine .lexeme notEnd notQuote rfl ?_
              simpa [feedAll, feed_blank, isStart] using isOthers
      | fail error =>
          rw [isStep] at isBare
          rw [feed_of_step (by rw [← isBare]; simp [Scan.Step.bare]), ← isBare] at isFed
          cases isFed

theorem quoted_of_feed {text : String} {after : List Char} {tokens : List Token}
    (fed : (Mode.quoted text).feedAll after = some (tokens, blank)) (before : List Char) :
    ∃ whole before' after' others,
      (∀ start, Lexer.quoted start text before after = .ok (whole, before', '\'' :: after')) ∧
      tokens = literal whole :: others ∧ blank.feedAll after' = some (others, blank) := by
  induction after generalizing text before tokens with
  | nil => cases fed
  | cons char after ih =>
      obtain ⟨found, next, others, isFed, fed, rfl⟩ := feedAll_cons fed
      simp only [Lexer.quoted]
      by_cases isQuote : char = '\''
      · subst isQuote
        cases isFed
        exact ⟨text, before, after, others, fun _ => rfl, rfl, fed⟩
      · rw [feed, if_neg isQuote] at isFed
        cases isFed
        simp only [beq_iff_eq, isQuote, if_false]
        exact ih fed _

end Mode

namespace Lexer

variable {lexer : Lexer} {before after before' after' : List Char} {token : Token}

theorem lexemes_of_end (stands : lexer.At before after) (noneReturned : lexer.returned = [])
    {position : Position}
    (isRun : Scan.run .blank before after = .ok (.plain .endOfInput position, before', [])) :
    lexer.lexemes.map Token.bare = [.plain .endOfInput .nowhere] := by
  obtain ⟨rest, isNext, stands, noneReturned⟩ := next_of_run stands noneReturned isRun
  obtain ⟨last, isLast, -⟩ := next_of_gap .nil stands noneReturned
  rw [lexemes_of_next isNext, lexemesFrom]
  simp [complete, final, Token.plain, isLast, Token.bare]

theorem lexemes_of_lexeme (stands : lexer.At before after) (noneReturned : lexer.returned = [])
    (isRun : Scan.run .blank before after = .ok (token, before', after'))
    (notEnd : token.kind ≠ .endOfInput) (notQuote : token.kind ≠ .apostrophe) :
    ∃ rest : Lexer, lexer.lexemes = token :: rest.lexemes ∧ rest.At before' after' ∧ rest.returned = [] := by
  obtain ⟨rest, isNext, stands, noneReturned⟩ := next_of_run stands noneReturned isRun
  refine ⟨rest, ?_, stands, noneReturned⟩
  simp [lexemes_of_next isNext, lexemesFrom, complete, notEnd, notQuote]

theorem lexemes_of_quote (stands : lexer.At before after) (noneReturned : lexer.returned = [])
    (isRun : Scan.run .blank before after = .ok (token, before', after'))
    (isQuote : token.kind = .apostrophe) {text : String} {inner left : List Char}
    (isQuoted : ∀ start, quoted start "" before' after' = .ok (text, inner, '\'' :: left)) :
    ∃ rest : Lexer, lexer.lexemes = { token with text := text } :: rest.lexemes ∧
      rest.At (inner ++ ['\'']) left ∧ rest.returned = [] := by
  obtain ⟨behind, isNext, stands, noneReturned⟩ := next_of_run stands noneReturned isRun
  obtain ⟨start, gives⟩ := rawText_eq stands
  rw [isQuoted] at gives
  cases isText : behind.rawText with
  | error error rest =>
      rw [isText] at gives
      cases gives.2
  | ok found closing =>
      rw [isText] at gives
      obtain ⟨isNil, _, _, isSame, stands⟩ := gives
      cases isSame
      obtain ⟨rest, isClosing, stands, noneReturned⟩ :=
        next_of_run stands (isNil.trans noneReturned)
          (show Scan.run .blank inner ('\'' :: left) =
            .ok (.plain .apostrophe (place inner), inner ++ ['\''], left) from rfl)
      refine ⟨rest, ?_, stands, noneReturned⟩
      rw [lexemes_of_next isNext, lexemesFrom]
      simp [complete, isQuote, isText, isClosing, Token.plain]

theorem lexemes_step (stands : lexer.At before after) (noneReturned : lexer.returned = [])
    {tokens : List Token} (fed : Mode.blank.feedAll after = some (tokens, .blank)) :
    (tokens = [] ∧ lexer.lexemes.map Token.bare = [.plain .endOfInput .nowhere]) ∨
      ∃ first others before' after', ∃ rest : Lexer, tokens = first :: others ∧
        lexer.lexemes.map Token.bare = first :: rest.lexemes.map Token.bare ∧
        rest.At before' after' ∧ rest.returned = [] ∧
        Mode.blank.feedAll after' = some (others, .blank) := by
  have draws := @Mode.draws_of_feed .blank before after tokens fed
  generalize isRun : Scan.run .blank before after = outcome at draws
  cases draws with
  | endOfInput isNil => exact .inl ⟨isNil, lexemes_of_end stands noneReturned isRun⟩
  | lexeme notEnd notQuote isCons fed =>
      obtain ⟨rest, isLexemes, stands, noneReturned⟩ :=
        lexemes_of_lexeme stands noneReturned isRun notEnd notQuote
      refine .inr ⟨_, _, _, _, rest, isCons, ?_, stands, noneReturned, fed⟩
      rw [isLexemes, List.map_cons]
  | @quote token before after isQuote isPlain fed =>
      obtain ⟨text, inner, left, others, isQuoted, isCons, fed⟩ := Mode.quoted_of_feed fed before
      obtain ⟨rest, isLexemes, stands, noneReturned⟩ :=
        lexemes_of_quote stands noneReturned isRun isQuote isQuoted
      refine .inr ⟨_, _, _, _, rest, isCons, ?_, stands, noneReturned, fed⟩
      rw [isLexemes, List.map_cons]
      exact congrArg (fun quote : Token => { quote with text := text } :: _) isPlain

/-- A lexer in front of a text draws the lexemes that feeding the text gives. -/
theorem lexemes_of_feed (stands : lexer.At before after) (noneReturned : lexer.returned = [])
    {tokens : List Token} (fed : Mode.blank.feedAll after = some (tokens, .blank)) :
    lexer.lexemes.map Token.bare = tokens ++ [.plain .endOfInput .nowhere] := by
  induction tokens generalizing lexer before after with
  | nil =>
      rcases lexemes_step stands noneReturned fed with ⟨-, isLast⟩ | ⟨_, _, _, _, _, isCons, -⟩
      · exact isLast
      · cases isCons
  | cons token tokens ih =>
      rcases lexemes_step stands noneReturned fed with
        ⟨isNil, -⟩ | ⟨first, others, before', after', rest, isCons, isLexemes, stands, noneReturned, fed⟩
      · cases isNil
      · cases isCons
        rw [isLexemes, ih stands noneReturned fed, List.cons_append]

end Lexer

/-! ### Pieces of a text -/

def Closed (text : String) (tokens : List Token) : Prop :=
  Mode.blank.feedAll text.toList = some (tokens, .blank)

inductive Mode.Rests : Mode → List Token → Prop where
  | blank : Rests blank []
  | word {text : String} : Rests (.scan (.word .nowhere text)) [.word text .nowhere]
  | decimal {value : Int32} : Rests (.scan (.decimal .nowhere value)) [.number value .nowhere]
  | zero : Rests (.scan (.zero .nowhere)) [.number 0 .nowhere]

/-- A text with some lexemes, of which the last one may be a word or a number. -/
def Writes (text : String) (tokens : List Token) : Prop :=
  ∃ done last mode, Mode.blank.feedAll text.toList = some (done, mode) ∧ mode.Rests last ∧
    tokens = done ++ last

instance (char : Char) : Decidable (IsWordPart char) :=
  inferInstanceAs (Decidable (SymbolClass.ofChar char = .letter ∨ SymbolClass.ofChar char = .digit))

/-- A text that does not go on with a word or a number in front of it. -/
def Detaches (text : String) : Prop := ∃ first ∈ text.toList.head?, ¬ IsWordPart first

instance (text : String) : Decidable (Detaches text) :=
  decidable_of_iff (text.toList.head?.any fun first => ¬ IsWordPart first) <| by
    simp [Detaches, Option.any_eq_true]

namespace Mode

theorem feed_of_rests {mode : Mode} {last : List Token} {char : Char} (rests : mode.Rests last)
    (apart : ¬ IsWordPart char) : mode.feed char = (start char).map (Prod.map (last ++ ·) id) := by
  have notDigit : ¬ IsDigit 10 char := fun isDigit =>
    apart (.inr (SymbolClass.ofChar_digit_iff_isDigit.2 isDigit))
  cases rests with
  | blank =>
      rw [feed_blank]
      cases start char <;> rfl
  | word =>
      apply feed_of_before
      · have noPart : ¬ (SymbolClass.ofChar char = .letter ∨ SymbolClass.ofChar char = .digit) := apart
        simp [Scan.step, noPart]
      · rfl
  | decimal =>
      apply feed_of_before
      · rw [IsDigit, Option.not_isSome_iff_eq_none] at notDigit
        simp [Scan.step, notDigit]
      · rfl
  | zero =>
      apply feed_of_before
      · have noPart : SymbolClass.ofChar char ≠ .letter ∧ SymbolClass.ofChar char ≠ .digit :=
          not_or.1 apart
        simp [Scan.step, noPart]
      · rfl

theorem feedAll_of_rests {mode middle : Mode} {last tokens : List Token} {text : String}
    (rests : mode.Rests last) (detaches : Detaches text)
    (fed : blank.feedAll text.toList = some (tokens, middle)) :
    mode.feedAll text.toList = some (last ++ tokens, middle) := by
  obtain ⟨first, isFirst, apart⟩ := detaches
  obtain ⟨others, isText⟩ := List.head?_eq_some_iff.1 isFirst
  rw [isText] at fed ⊢
  obtain ⟨found, next, more, isFed, isMore, rfl⟩ := feedAll_cons fed
  rw [feed_blank] at isFed
  rw [feedAll, feed_of_rests rests apart, isFed]
  simp [isMore]

end Mode

variable {first second : String} {tokens others : List Token}

theorem Detaches.append (detaches : Detaches first) : Detaches (first ++ second) := by
  obtain ⟨char, isFirst, apart⟩ := detaches
  refine ⟨char, ?_, apart⟩
  rw [Option.mem_def] at isFirst ⊢
  rw [String.toList_append, List.head?_append, isFirst]
  rfl

theorem Closed.writes (closed : Closed first tokens) : Writes first tokens :=
  ⟨tokens, [], .blank, closed, .blank, (List.append_nil _).symm⟩

theorem Closed.append (left : Closed first tokens) (right : Closed second others) :
    Closed (first ++ second) (tokens ++ others) := by
  rw [Closed, String.toList_append]
  exact Mode.feedAll_append left right

theorem Closed.append_writes (left : Closed first tokens) (right : Writes second others) :
    Writes (first ++ second) (tokens ++ others) := by
  obtain ⟨done, last, mode, fed, rests, rfl⟩ := right
  refine ⟨tokens ++ done, last, mode, ?_, rests, (List.append_assoc ..).symm⟩
  rw [String.toList_append]
  exact Mode.feedAll_append left fed

theorem Writes.append_closed (left : Writes first tokens) (detaches : Detaches second)
    (right : Closed second others) : Closed (first ++ second) (tokens ++ others) := by
  obtain ⟨done, last, mode, fed, rests, rfl⟩ := left
  rw [Closed, String.toList_append, List.append_assoc]
  exact Mode.feedAll_append fed (Mode.feedAll_of_rests rests detaches right)

theorem Writes.append (left : Writes first tokens) (detaches : Detaches second)
    (right : Writes second others) : Writes (first ++ second) (tokens ++ others) := by
  obtain ⟨done, last, mode, fed, rests, rfl⟩ := left
  obtain ⟨done', last', mode', fed', rests', rfl⟩ := right
  refine ⟨done ++ (last ++ done'), last', mode', ?_, rests', by simp⟩
  rw [String.toList_append]
  exact Mode.feedAll_append fed (Mode.feedAll_of_rests rests detaches fed')

/-- A closed text has its lexemes, and the end of the input behind them. -/
theorem Closed.lexemes {text : String} (closed : Closed text tokens) :
    (Lexer.ofText text).lexemes.map Token.bare = tokens ++ [.plain .endOfInput .nowhere] :=
  Lexer.lexemes_of_feed (Lexer.at_ofText text) rfl closed

/-! ### Words, numbers and literal text -/

theorem Scan.start_letter {char : Char} (isLetter : SymbolClass.ofChar char = .letter)
    (position : Position) : start char position = .more (.word position char.toString) := by
  unfold start
  split
  · rename_i isKind
    rw [ofChar?_ofChar isKind] at isLetter
    cases isLetter
  · split <;> first
      | exact absurd isLetter (by decide)
      | rw [isLetter]

theorem Mode.feedAll_word {text : String} {parts : List Char}
    (areParts : ∀ char ∈ parts, IsWordPart char)
    (short : text.length + parts.length ≤ maxIdentifierLength) :
    (Mode.scan (.word .nowhere text)).feedAll parts =
      some ([], .scan (.word .nowhere (text ++ String.ofList parts))) := by
  induction parts generalizing text with
  | nil => simp [feedAll]
  | cons char parts ih =>
      rw [List.forall_mem_cons] at areParts
      rw [List.length_cons] at short
      have isPart : SymbolClass.ofChar char = .letter ∨ SymbolClass.ofChar char = .digit := areParts.1
      have isStep : (Scan.word .nowhere text).step char .nowhere =
          .more (.word .nowhere (text.push char)) := by
        have isShort : text.length < maxIdentifierLength := by omega
        simp [Scan.step, isPart, isShort]
      have fed : (Mode.scan (.word .nowhere text)).feed char =
          some ([], .scan (.word .nowhere (text.push char))) := by
        rw [feed_of_step (by simp [isStep]), isStep]
        rfl
      rw [feedAll, fed]
      simp only
      rw [ih areParts.2 (by rw [String.length_push]; omega)]
      have isText : text.push char ++ String.ofList parts = text ++ String.ofList (char :: parts) :=
        String.toList_injective (by simp)
      rw [isText]
      rfl

theorem writes_word {text : String} (isWord : IsWord text) :
    Writes text [.word text .nowhere] := by
  obtain ⟨short, first, parts, isText, isLetter, areParts⟩ := isWord
  refine ⟨[], _, .scan (.word .nowhere text), ?_, .word, rfl⟩
  have isLength : text.length = parts.length + 1 := by
    rw [← String.length_toList, isText, List.length_cons]
  rw [isText, Mode.feedAll, Mode.feed_blank, Mode.start, Scan.start_letter isLetter]
  simp only [Mode.settle]
  rw [Mode.feedAll_word areParts (by simp [Char.toString]; omega)]
  have isWhole : first.toString ++ String.ofList parts = text :=
    String.toList_injective (by simp [isText, Char.toString])
  rw [isWhole]
  rfl

theorem writes_ident {name : String} (isIdentifier : IsIdentifier name) :
    Writes name [.ident name .nowhere] := by
  have isWord := writes_word isIdentifier.1
  rwa [Token.word, isIdentifier.2] at isWord

theorem digitValue?_digitChar {digit : Nat} (isDigit : digit < 10) :
    digitValue? 10 digit.digitChar = some (.ofNat digit) := by
  revert digit
  decide

theorem Mode.feedAll_digit : ∀ digit < 10, 0 < digit →
    blank.feedAll [digit.digitChar] = some ([], .scan (.decimal .nowhere (.ofNat digit))) := by
  decide

theorem Mode.feedAll_digits {value : Nat} (isPositive : 0 < value) :
    blank.feedAll (Nat.toDigits 10 value) = some ([], .scan (.decimal .nowhere (.ofNat value))) := by
  induction value using Nat.strongRecOn with
  | ind value ih =>
    rw [Nat.toDigits_eq_if (by decide)]
    split
    · exact feedAll_digit value ‹_› isPositive
    · have front := ih (value / 10) (by omega) (by omega)
      have isStep : (Scan.decimal .nowhere (.ofNat (value / 10))).step (value % 10).digitChar .nowhere =
          .more (.decimal .nowhere (.ofNat value)) := by
        have isValue : Int32.ofNat (value / 10) * 10 + Int32.ofNat (value % 10) = Int32.ofNat value := by
          have isTen : Int32.ofNat 10 = 10 := rfl
          rw [← isTen, ← Int32.ofNat_mul, ← Int32.ofNat_add]
          exact congrArg Int32.ofNat (by omega)
        simp [Scan.step, digitValue?_digitChar (Nat.mod_lt value (by decide)), isValue]
      refine feedAll_append front ?_
      rw [feedAll, feed_of_step (by simp [isStep]), isStep]
      rfl

theorem writes_number (value : Nat) : Writes (toString value) [.number (.ofNat value) .nowhere] := by
  have isText : (toString value).toList = Nat.toDigits 10 value := Nat.toList_repr
  rcases Nat.eq_zero_or_pos value with rfl | isPositive
  · exact ⟨[], _, .scan (.zero .nowhere), rfl, .zero, rfl⟩
  · refine ⟨[], _, .scan (.decimal .nowhere (.ofNat value)), ?_, .decimal, rfl⟩
    rw [isText]
    exact Mode.feedAll_digits isPositive

theorem Mode.feedAll_quoted {text : String} {chars : List Char} (noQuote : '\'' ∉ chars) :
    (Mode.quoted text).feedAll (chars ++ ['\'']) =
      some ([literal (text ++ String.ofList chars)], blank) := by
  induction chars generalizing text with
  | nil => simp [feedAll, feed]
  | cons char chars ih =>
      rw [List.mem_cons, not_or] at noQuote
      have fed : (Mode.quoted text).feed char = some ([], .quoted (text.push char)) :=
        if_neg (Ne.symm noQuote.1)
      have isText : text.push char ++ String.ofList chars = text ++ String.ofList (char :: chars) :=
        String.toList_injective (by simp)
      rw [List.cons_append, feedAll, fed]
      simp only
      rw [ih noQuote.2, isText]
      rfl

theorem closed_literal {text : String} (noQuote : '\'' ∉ text.toList) :
    Closed ("'" ++ text ++ "'") [Mode.literal text] := by
  have isText : ("'" ++ text ++ "'").toList = '\'' :: (text.toList ++ ['\'']) := by simp
  have fed : Mode.blank.feed '\'' = some ([], .quoted "") := rfl
  rw [Closed, isText, Mode.feedAll, fed]
  simp [Mode.feedAll_quoted noQuote]

end MiniPascal
