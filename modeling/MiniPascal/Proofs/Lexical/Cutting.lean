import MiniPascal.Proofs.Lexical.Lexemes

/-!
# Cutting a text into tokens

A fresh lexer that is asked for token after token cuts its text: what it has accounted for is gaps and
lexemes in turn, and what it still holds is the rest.  At the end of the text it stays.
-/

namespace MiniPascal

/-- A text between the text before and the text after it is gaps and lexemes in turn.  The tokens are
what the lexemes spell, each in the place of its first character; behind the last lexeme the end of the
input may have come up any number of times. -/
inductive Cut (after : List Char) : List Char → List Char → List Token → Prop where
  | nil {before : List Char} : Cut after before [] []
  | lexeme {before gap lexeme rest : List Char} {spelled : Position → Token} {tokens : List Token}
      (isGap : Gap gap) (isLexeme : Lexeme lexeme spelled) (short : Short lexeme)
      (longest : Longest lexeme (rest ++ after)) (others : Cut after (before ++ gap ++ lexeme) rest tokens) :
      Cut after before (gap ++ lexeme ++ rest) (spelled (place (before ++ gap)) :: tokens)
  | endOfInput {before gap : List Char} {tokens : List Token} (isGap : Gap gap) (atEnd : after = [])
      (others : Cut after (before ++ gap) [] tokens) :
      Cut after before gap (.plain .endOfInput (endPlace (before ++ gap)) :: tokens)

theorem TokenKind.ofSpelling_ne {kind : TokenKind} (notReserved : kind ∉ reserved)
    (notIdent : kind ≠ .ident) (word : String) : ofSpelling word ≠ kind := by
  unfold ofSpelling
  cases found : reserved.find? fun kind => kind.spelling == some word with
  | none => exact notIdent.symm
  | some other =>
      have isReserved := List.mem_of_find?_eq_some found
      rintro rfl
      exact notReserved isReserved

theorem TokenKind.ofSpelling_ne_endOfInput (word : String) : ofSpelling word ≠ .endOfInput :=
  ofSpelling_ne (by decide) (by decide) word

theorem Lexeme.kind_ne_endOfInput {text : List Char} {spelled : Position → Token}
    (lexeme : Lexeme text spelled) (position : Position) :
    (spelled position).kind ≠ .endOfInput := by
  cases lexeme with
  | @word first others =>
      have notEnd := TokenKind.ofSpelling_ne_endOfInput (String.ofList (first :: others))
      unfold Token.word
      split
      · simp [Token.ident]
      · exact notEnd
  | symbol isText notReserved =>
      rintro isEnd
      cases isEnd
      cases isText
  | _ => simp [Token.number]

namespace Lexer

def tokens : Nat → EStateM LexError Lexer (List Token)
  | 0 => pure []
  | count + 1 => do
      let token ← next
      let others ← tokens count
      return token :: others

variable {before after : List Char} {lexer : Lexer}

theorem next_of_run {token : Token} {before' after' : List Char} (stands : lexer.At before after)
    (noneReturned : lexer.returned = [])
    (isRun : Scan.run .blank before after = .ok (token, before', after')) :
    ∃ rest, lexer.next = .ok token rest ∧ rest.At before' after' ∧ rest.returned = [] := by
  have gives := next_eq stands noneReturned
  cases isNext : lexer.next with
  | ok result rest =>
      rw [isNext] at gives
      obtain ⟨isNil, _, _, isSame, stands⟩ := gives
      cases isRun.symm.trans isSame
      exact ⟨rest, rfl, stands, isNil⟩
  | error error rest =>
      rw [isNext] at gives
      cases isRun.symm.trans gives.2

theorem next_of_gap (isGap : Gap after) (stands : lexer.At before after)
    (noneReturned : lexer.returned = []) :
    ∃ rest, lexer.next = .ok (.plain .endOfInput (endPlace (before ++ after))) rest ∧
      rest.At (before ++ after) [] ∧ rest.returned = [] := by
  apply next_of_run stands noneReturned
  rw [← List.append_nil after, Scan.run_gap isGap]
  simp [Scan.run, Scan.result]

theorem tokens_at_end (stands : lexer.At before []) (noneReturned : lexer.returned = [])
    (count : Nat) :
    ∃ rest, tokens count lexer =
      .ok (List.replicate count (.plain .endOfInput (endPlace before))) rest := by
  induction count generalizing lexer with
  | zero => exact ⟨lexer, rfl⟩
  | succ count ih =>
      obtain ⟨rest, isNext, stands, noneReturned⟩ := next_of_gap .nil stands noneReturned
      rw [List.append_nil] at isNext stands
      obtain ⟨last, isTokens⟩ := ih stands noneReturned
      refine ⟨last, ?_⟩
      simp [tokens, bind_run, map_run, isNext, isTokens, List.replicate_succ]

/-- What a token that comes up says about the text in front of the lexer. -/
theorem next_cut {token : Token} {rest : Lexer} (stands : lexer.At before after)
    (noneReturned : lexer.returned = []) (ok : lexer.next = .ok token rest) :
    ∃ gap, Gap gap ∧ rest.returned = [] ∧
      ((∃ lexeme spelled left, after = gap ++ lexeme ++ left ∧
        rest.At (before ++ gap ++ lexeme) left ∧ token = spelled (place (before ++ gap)) ∧
        Lexeme lexeme spelled ∧ Longest lexeme left ∧ Short lexeme) ∨
      after = gap ∧ rest.At (before ++ gap) [] ∧
        token = .plain .endOfInput (endPlace (before ++ gap))) := by
  have gives := next_eq stands noneReturned
  rw [ok] at gives
  obtain ⟨isNil, _, left, isRun, stands⟩ := gives
  obtain ⟨gap, isGap, ⟨lexeme, spelled, isAfter, rfl, found⟩ | ⟨rfl, rfl, rfl, isEnd⟩⟩ :=
    Scan.run_blank isRun
  · exact ⟨gap, isGap, isNil, .inl ⟨lexeme, spelled, left, isAfter, stands, found⟩⟩
  · exact ⟨after, isGap, isNil, .inr ⟨rfl, stands, isEnd⟩⟩

theorem next_endOfInput_iff (stands : lexer.At before after) (noneReturned : lexer.returned = []) :
    (∃ token rest, lexer.next = .ok token rest ∧ token.kind = .endOfInput) ↔ Gap after := by
  constructor
  · rintro ⟨token, rest, isNext, isEnd⟩
    obtain ⟨gap, isGap, -, found⟩ := next_cut stands noneReturned isNext
    rcases found with ⟨lexeme, spelled, left, -, -, rfl, isLexeme, -⟩ | ⟨rfl, -⟩
    · exact absurd isEnd (isLexeme.kind_ne_endOfInput _)
    · exact isGap
  · intro isGap
    obtain ⟨rest, isNext, -⟩ := next_of_gap isGap stands noneReturned
    exact ⟨_, rest, isNext, rfl⟩

theorem cut_of_tokens {count : Nat} {found : List Token} {rest : Lexer}
    (stands : lexer.At before after) (noneReturned : lexer.returned = [])
    (ok : tokens count lexer = .ok found rest) :
    ∃ taken left, after = taken ++ left ∧ Cut left before taken found ∧
      rest.At (before ++ taken) left ∧ rest.returned = [] := by
  induction count generalizing lexer before after found with
  | zero =>
      cases ok
      exact ⟨[], after, rfl, .nil, by simpa using stands, noneReturned⟩
  | succ count ih =>
      obtain ⟨token, middle, isNext, ok⟩ := bind_eq_ok.1 ok
      obtain ⟨others, last, isOthers, isFound⟩ := bind_eq_ok.1 ok
      obtain ⟨rfl, rfl⟩ := pure_eq_ok.1 isFound
      obtain ⟨gap, isGap, noneReturned, step⟩ := next_cut stands noneReturned isNext
      rcases step with ⟨lexeme, spelled, left, rfl, stands, rfl, isLexeme, longest, short⟩ |
          ⟨rfl, stands, rfl⟩
      · obtain ⟨taken, left, rfl, cut, stands, noneReturned⟩ := ih stands noneReturned isOthers
        refine ⟨gap ++ lexeme ++ taken, left, by simp, ?_, by simpa using stands, noneReturned⟩
        exact .lexeme isGap isLexeme short longest cut
      · obtain ⟨taken, left, isEnd, cut, stands, noneReturned⟩ := ih stands noneReturned isOthers
        obtain ⟨rfl, rfl⟩ := List.append_eq_nil_iff.1 isEnd.symm
        refine ⟨after, [], by simp, .endOfInput isGap rfl cut, by simpa using stands, noneReturned⟩

/-- A lexer neither loses nor repeats a character.  If its first tokens come up, then they cut what
is in front of the lexer's place in the source, and the symbol carried and what the reader still hands
out are the rest.  The end of the input comes up exactly if that is a gap, and then again and again. -/
theorem cut_ofText (source : String) (count : Nat) {found : List Token} {lexer : Lexer}
    (ok : tokens count (ofText source) = .ok found lexer) :
    ∃ taken left, source.toList = taken ++ left ∧ Cut left [] taken found ∧
      lexer.carry.toList.map .ok ++ lexer.reader.readAll =
        (Symbol.placed taken left).map .ok ∧
      ((∃ token rest, lexer.next = .ok token rest ∧ token.kind = .endOfInput) ↔ Gap left) ∧
      ∀ token rest, lexer.next = .ok token rest → token.kind = .endOfInput →
        ∀ later, ∃ last, tokens later rest = .ok (List.replicate later token) last := by
  obtain ⟨taken, left, isSource, cut, stands, noneReturned⟩ :=
    cut_of_tokens (at_ofText source) rfl ok
  rw [List.nil_append] at stands
  refine ⟨taken, left, isSource, cut, stands.2, next_endOfInput_iff stands noneReturned, ?_⟩
  intro token rest isNext isEnd later
  obtain ⟨gap, isGap, noneReturned, step⟩ := next_cut stands noneReturned isNext
  rcases step with ⟨lexeme, spelled, left, -, -, rfl, isLexeme, -⟩ | ⟨rfl, stands, rfl⟩
  · exact absurd isEnd (isLexeme.kind_ne_endOfInput _)
  · exact tokens_at_end stands noneReturned later

theorem cut_ofText_assignment :
    ∃ found lexer, tokens 3 (ofText "{a}x1:=<") = .ok found lexer ∧
      found = [.ident "x1" ⟨1, 4⟩, .plain .assign ⟨1, 6⟩, .plain .less ⟨1, 8⟩] ∧
      ∃ taken left, "{a}x1:=<".toList = taken ++ left ∧ Cut left [] taken found ∧
        lexer.carry.toList.map .ok ++ lexer.reader.readAll =
          (Symbol.placed taken left).map .ok ∧
        ((∃ token rest, lexer.next = .ok token rest ∧ token.kind = .endOfInput) ↔ Gap left) ∧
        ∀ token rest, lexer.next = .ok token rest → token.kind = .endOfInput →
          ∀ later, ∃ last, tokens later rest = .ok (List.replicate later token) last := by
  obtain ⟨first, isFirst, stands, noneReturned⟩ := next_of_run (at_ofText "{a}x1:=<") rfl
    (show Scan.run .blank [] "{a}x1:=<".toList =
      .ok (.ident "x1" ⟨1, 4⟩, "{a}x1".toList, ":=<".toList) by rfl)
  obtain ⟨second, isSecond, stands, noneReturned⟩ := next_of_run stands noneReturned
    (show Scan.run .blank "{a}x1".toList ":=<".toList =
      .ok (.plain .assign ⟨1, 6⟩, "{a}x1:=".toList, "<".toList) by rfl)
  obtain ⟨third, isThird, -, -⟩ := next_of_run stands noneReturned
    (show Scan.run .blank "{a}x1:=".toList "<".toList =
      .ok (.plain .less ⟨1, 8⟩, "{a}x1:=<".toList, []) by rfl)
  have isTokens : tokens 3 (ofText "{a}x1:=<") = .ok
      [.ident "x1" ⟨1, 4⟩, .plain .assign ⟨1, 6⟩, .plain .less ⟨1, 8⟩] third := by
    simp [tokens, bind_run, map_run, isFirst, isSecond, isThird]
  exact ⟨_, third, isTokens, rfl, cut_ofText "{a}x1:=<" 3 isTokens⟩

end Lexer

end MiniPascal
