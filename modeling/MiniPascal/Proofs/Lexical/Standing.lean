import MiniPascal.Proofs.Lexical.Cutting

/-!
# Where a lexer stands

Whatever a lexer is asked for and whatever comes of it, it stands in its text and goes on from there.
Behind the token of a quote it stands just behind the quote, with nothing carried over, so that the raw
text begins there and goes up to the next quote.
-/

namespace MiniPascal

namespace Lexer

variable {text before after : List Char}

/-- A lexer hands out the rest of a text from some place on. -/
def StandsIn (text : List Char) (lexer : Lexer) : Prop :=
  ∃ before after, text = before ++ after ∧ lexer.At before after

def BehindQuote (text : List Char) (token : Token) (lexer : Lexer) : Prop :=
  token.kind = .apostrophe → lexer.carry = none ∧
    ∃ before after, text = before ++ '\'' :: after ∧ token.position = place before ∧
      lexer.At (before ++ ['\'']) after

def StaysIn {α : Type} (text : List Char) (returned : List Token) :
    EStateM.Result LexError Lexer α → Prop
  | .ok _ rest | .error _ rest => rest.StandsIn text ∧ rest.returned = returned

theorem standsIn_ofText (source : String) : (ofText source).StandsIn source.toList :=
  ⟨[], source.toList, rfl, at_ofText source⟩

theorem staysIn_scan {state : Scan} {symbol : Symbol} {reader : Reader}
    (ahead : Reader.Ahead before after symbol reader) :
    StaysIn (before ++ after) [] (scan state symbol reader) := by
  induction after generalizing state before symbol reader with
  | nil =>
      cases ahead with | endOfText stands => ?_
      have isThere : (ofReader reader).StandsIn (before ++ []) := ⟨before, [], rfl, stands⟩
      rw [scan]
      cases state.result (endPlace before) <;> exact ⟨isThere, rfl⟩
  | cons char after ih =>
      cases ahead with | char stands => ?_
      have isThere : (ofReader reader).StandsIn (before ++ char :: after) :=
        ⟨before ++ [char], after, by simp, stands⟩
      rw [scan]
      cases state.step char (place before) with
      | more state =>
          obtain ⟨next, rest, success, ahead⟩ := stands.ahead
          simp only
          split
          · rename_i success'
            cases success.symm.trans success'
            simpa using ih ahead
          · rename_i failure
            cases success.symm.trans failure
      | last token => exact ⟨isThere, rfl⟩
      | before =>
          simp only
          cases state.result (place before) with
          | ok token => exact ⟨⟨before, char :: after, rfl, at_carry [] stands⟩, rfl⟩
          | error error => exact ⟨isThere, rfl⟩
      | fail error => exact ⟨isThere, rfl⟩

theorem staysIn_collect {start : Position} {found : String} {symbol : Symbol} {reader : Reader}
    (ahead : Reader.Ahead before after symbol reader) :
    StaysIn (before ++ after) [] (collect start found symbol reader) := by
  induction after generalizing found before symbol reader with
  | nil =>
      cases ahead with | endOfText stands => ?_
      rw [collect]
      exact ⟨⟨before, [], rfl, stands⟩, rfl⟩
  | cons char after ih =>
      cases ahead with | char stands => ?_
      rw [collect]
      by_cases isQuote : char == '\''
      · rw [if_pos isQuote]
        exact ⟨⟨before, char :: after, rfl, at_carry [] stands⟩, rfl⟩
      · rw [if_neg isQuote]
        obtain ⟨next, rest, success, ahead⟩ := stands.ahead
        split
        · rename_i success'
          cases success.symm.trans success'
          simpa using ih ahead
        · rename_i failure
          cases success.symm.trans failure

theorem staysIn_next {lexer : Lexer} (stands : lexer.StandsIn text)
    (noneReturned : lexer.returned = []) :
    StaysIn text [] lexer.next := by
  obtain ⟨before, after, rfl, stands⟩ := stands
  obtain ⟨symbol, reader, success, ahead⟩ := symbol_eq stands
  simp only [next, noneReturned, success]
  exact staysIn_scan ahead

theorem staysIn_rawText {lexer : Lexer} (stands : lexer.StandsIn text) :
    StaysIn text lexer.returned lexer.rawText := by
  obtain ⟨before, after, rfl, stands⟩ := stands
  obtain ⟨symbol, reader, success, ahead⟩ := symbol_eq stands
  have collected := @staysIn_collect before after symbol.position "" symbol reader ahead
  simp only [rawText, success]
  cases isCollected : collect symbol.position "" symbol reader with
  | ok found rest =>
      rw [isCollected] at collected
      exact ⟨collected.1, rfl⟩
  | error error rest =>
      rw [isCollected] at collected
      exact ⟨collected.1, rfl⟩

/-! ### Behind a quote -/

theorem Scan.result_ne_apostrophe {state : Scan} {position : Position} {token : Token}
    (ok : state.result position = .ok token) : token.kind ≠ .apostrophe := by
  cases state with
  | comment origin => cases ok
  | word origin text =>
      cases ok
      have notQuote : TokenKind.ofSpelling text ≠ .apostrophe :=
        TokenKind.ofSpelling_ne (by decide) (by decide) text
      unfold Token.word
      split
      · simp [Token.ident]
      · exact notQuote
  | octal origin value digits | hex origin value digits =>
      cases digits <;> cases ok
      simp [Token.number]
  | _ =>
      cases ok
      simp [Token.number, Token.plain]

theorem carry_scan {state : Scan} {symbol : Symbol} {reader : Reader} {token : Token} {rest : Lexer}
    (ok : scan state symbol reader = .ok token rest) (isQuote : token.kind = .apostrophe) :
    rest.carry = none := by
  fun_induction scan state symbol reader with
  | case1 | case5 =>
      cases ok
      rfl
  | case3 state reader char position next step symbol rest isRead smaller ih => exact ih ok
  | case6 state reader char position step result isResult =>
      cases ok
      exact absurd isQuote (Scan.result_ne_apostrophe isResult)
  | _ => cases ok

end Lexer

theorem Lexeme.position_spelled {text : List Char} {spelled : Position → Token}
    (lexeme : Lexeme text spelled) (position : Position) :
    (spelled position).position = position := by
  cases lexeme with
  | word isLetter parts =>
      unfold Token.word
      split <;> rfl
  | _ => rfl

theorem Lexeme.eq_quote {lexeme : List Char} {spelled : Position → Token} {position : Position}
    (isLexeme : Lexeme lexeme spelled) (isQuote : (spelled position).kind = .apostrophe) :
    lexeme = ['\''] := by
  cases isLexeme with
  | @word first others =>
      have notQuote : TokenKind.ofSpelling (String.ofList (first :: others)) ≠ .apostrophe :=
        TokenKind.ofSpelling_ne (by decide) (by decide) _
      unfold Token.word at isQuote
      split at isQuote
      · cases isQuote
      · exact absurd isQuote notQuote
  | symbol isText notReserved =>
      cases isQuote
      cases isText
      rfl
  | _ => cases isQuote

namespace Lexer

variable {text before after : List Char}

theorem behindQuote_next {lexer rest : Lexer} {token : Token} (stands : lexer.StandsIn text)
    (noneReturned : lexer.returned = []) (ok : lexer.next = .ok token rest) :
    rest.BehindQuote text token := by
  intro isQuote
  obtain ⟨before, after, rfl, stands⟩ := stands
  obtain ⟨gap, isGap, -, ⟨lexeme, spelled, left, rfl, restStands, rfl, isLexeme, -⟩ |
    ⟨-, -, rfl⟩⟩ := next_cut stands noneReturned ok
  · obtain rfl := isLexeme.eq_quote isQuote
    rw [isLexeme.position_spelled]
    refine ⟨?_, before ++ gap, left, by simp, rfl, restStands⟩
    obtain ⟨symbol, reader, success, -⟩ := symbol_eq stands
    simp only [next, noneReturned, success] at ok
    exact carry_scan ok isQuote
  · cases isQuote

/-! ### Up to the next quote -/

theorem quoted_eq_ok {start : Position} {found result : String} {before' after' : List Char}
    (ok : quoted start found before after = .ok (result, before', after')) :
    ∃ inner left, after = inner ++ '\'' :: left ∧ '\'' ∉ inner ∧
      result.toList = found.toList ++ inner ∧ before' = before ++ inner ∧ after' = '\'' :: left := by
  induction after generalizing found before with
  | nil => cases ok
  | cons char after ih =>
      rw [quoted] at ok
      split at ok
      · rename_i isQuote
        cases ok
        rw [beq_iff_eq.1 isQuote]
        exact ⟨[], after, rfl, by simp, by simp, by simp, rfl⟩
      · rename_i notQuote
        obtain ⟨inner, left, rfl, noQuote, isResult, rfl, rfl⟩ := ih ok
        refine ⟨char :: inner, left, rfl, ?_, by simpa using isResult, by simp, rfl⟩
        rw [List.mem_cons, not_or]
        exact ⟨fun isQuote => notQuote (beq_iff_eq.2 isQuote.symm), noQuote⟩

end Lexer

end MiniPascal
