import MiniPascal.Proofs.Lexical.Cutting

/-!
# Where tokens and lexical errors are found

A lexer counts lines and columns while it reads.  Every position that it gives, with a token or with
an error, is that of a character of the text or that of the end of the text.
-/

namespace MiniPascal

/-- A position is the place of a character of a text, or that of its end. -/
def PointsInto (text : List Char) (position : Position) : Prop :=
  (∃ before char after, text = before ++ char :: after ∧ position = place before) ∨
    position = endPlace text

variable {text before after : List Char} {good : Position → Prop}

theorem pointsInto_place {char : Char} (isText : text = before ++ char :: after) :
    PointsInto text (place before) := .inl ⟨before, char, after, isText, rfl⟩

theorem pointsInto_endPlace (isText : text = before) : PointsInto text (endPlace before) :=
  .inr (isText ▸ rfl)

theorem pointsInto_nil {position : Position} : PointsInto [] position ↔ position = ⟨1, 1⟩ := by
  constructor
  · rintro (⟨before, char, after, isNil, -⟩ | rfl)
    · exact absurd (congrArg List.length isNil) (by simp)
    · rfl
  · rintro rfl
    exact pointsInto_endPlace rfl

namespace Scan

def Begins (good : Position → Prop) : Scan → Prop
  | blank => True
  | comment origin | word origin _ | decimal origin _ | zero origin | octal origin _ _
  | hex origin _ _ | less origin | greater origin | colon origin => good origin

def Step.Begins (good : Position → Prop) : Step → Prop
  | more scan => scan.Begins good
  | last token => good token.position
  | .before => True
  | fail error => good error.position

theorem begins_start {position : Position} (isGood : good position) (char : Char) :
    (start char position).Begins good := by
  unfold start
  split
  · exact isGood
  · split
    case h_8 => split <;> first | exact isGood | exact trivial
    all_goals exact isGood

/-- Tokens begin where their first character stands, and errors are reported there or at the character
that is wrong. -/
theorem begins_step {scan : Scan} {position : Position} (begins : scan.Begins good)
    (isGood : good position) (char : Char) : (scan.step char position).Begins good := by
  cases scan with
  | blank => exact begins_start isGood char
  | _ =>
      simp only [step]
      repeat' split
      all_goals first | exact begins | exact trivial

theorem begins_result {scan : Scan} {position : Position} (begins : scan.Begins good)
    (isGood : good position) :
    match scan.result position with
    | .ok token => good token.position
    | .error error => good error.position := by
  cases scan with
  | blank => exact isGood
  | word origin text =>
      change good (Token.word text origin).position
      unfold Token.word
      split <;> exact begins
  | octal origin value digits | hex origin value digits => cases digits <;> exact begins
  | _ => exact begins

/-- What the automaton makes of a text stands in the text, and no character gets lost. -/
theorem points_run {scan : Scan} (isText : text = before ++ after)
    (begins : scan.Begins (PointsInto text)) :
    match scan.run before after with
    | .ok (token, before', after') => PointsInto text token.position ∧ text = before' ++ after'
    | .error error => PointsInto text error.position := by
  induction after generalizing scan before with
  | nil =>
      have result := begins_result begins (pointsInto_endPlace (isText.trans (List.append_nil _)))
      rw [run]
      cases isResult : scan.result (endPlace before) with
      | ok token =>
          rw [isResult] at result
          exact ⟨result, isText⟩
      | error error =>
          rw [isResult] at result
          exact result
  | cons char after ih =>
      have isPlace : PointsInto text (place before) := pointsInto_place isText
      have step := begins_step begins isPlace char
      have isText' : text = before ++ [char] ++ after := by simpa using isText
      rw [run]
      cases isStep : scan.step char (place before) with
      | more scan =>
          rw [isStep] at step
          exact ih isText' step
      | last token =>
          rw [isStep] at step
          exact ⟨step, isText'⟩
      | before =>
          have result := begins_result begins isPlace
          cases isResult : scan.result (place before) with
          | ok token =>
              rw [isResult] at result
              exact ⟨result, isText⟩
          | error error =>
              rw [isResult] at result
              exact result
      | fail error =>
          rw [isStep] at step
          exact step

end Scan

namespace Lexer

/-- A lexer stands somewhere in a text, and the tokens handed back to it are from there. -/
def Within (text : List Char) (lexer : Lexer) : Prop :=
  (∃ before after, text = before ++ after ∧ lexer.At before after) ∧
    ∀ token ∈ lexer.returned, PointsInto text token.position

def Points {α : Type} (text : List Char) (placed : α → Prop) :
    EStateM.Result LexError Lexer α → Prop
  | .ok a rest => placed a ∧ rest.Within text
  | .error error _ => PointsInto text error.position

theorem within_ofText (text : String) : (ofText text).Within text.toList :=
  ⟨⟨[], text.toList, rfl, at_ofText text⟩, fun _ isIn => absurd isIn List.not_mem_nil⟩

theorem within_giveBack {lexer : Lexer} {token : Token} (within : lexer.Within text)
    (points : PointsInto text token.position) : (lexer.giveBack token).Within text := by
  refine ⟨within.1, fun other isIn => ?_⟩
  rcases List.mem_cons.1 isIn with rfl | isIn
  · exact points
  · exact within.2 other isIn

theorem points_next {lexer : Lexer} (within : lexer.Within text) :
    Points text (fun token => PointsInto text token.position) lexer.next := by
  obtain ⟨⟨before, after, isText, stands⟩, returned⟩ := within
  cases isReturned : lexer.returned with
  | cons token others =>
      rw [isReturned] at returned
      have isNext : lexer.next = .ok token { lexer with returned := others } := by
        unfold next
        rw [isReturned]
      rw [isNext]
      exact ⟨returned token List.mem_cons_self, ⟨before, after, isText, stands⟩,
        fun other isIn => returned other (List.mem_cons_of_mem _ isIn)⟩
  | nil =>
      have gives := next_eq stands isReturned
      have blank : Scan.blank.Begins (PointsInto text) := trivial
      have ran := Scan.points_run isText blank
      cases isNext : lexer.next with
      | ok token rest =>
          rw [isNext] at gives
          obtain ⟨isNil, before', after', isRun, stands⟩ := gives
          rw [isRun] at ran
          exact ⟨ran.1, ⟨before', after', ran.2, stands⟩, fun other isIn => by
            rw [isNil] at isIn
            exact absurd isIn List.not_mem_nil⟩
      | error error rest =>
          rw [isNext] at gives
          rw [gives.2] at ran
          exact ran

/-- Literal text that does not end is reported where it begins. -/
theorem quoted_cases {start : Position} {found : String} (isText : text = before ++ after) :
    match quoted start found before after with
    | .ok (_, before', after') => text = before' ++ after'
    | .error error => error.position = start := by
  induction after generalizing before found with
  | nil => rfl
  | cons char after ih =>
      rw [quoted]
      split
      · rename_i isOk
        split at isOk
        · cases isOk
          exact isText
        · have rest := @ih (before ++ [char]) (found.push char) (by simpa using isText)
          rw [isOk] at rest
          exact rest
      · rename_i isError
        split at isError
        · cases isError
        · have rest := @ih (before ++ [char]) (found.push char) (by simpa using isText)
          rw [isError] at rest
          exact rest

theorem points_rawText {lexer : Lexer} (within : lexer.Within text) :
    Points text (fun _ => True) lexer.rawText := by
  obtain ⟨⟨before, after, isText, stands⟩, returned⟩ := within
  obtain ⟨symbol, reader, success, ahead⟩ := symbol_eq stands
  have isStart : PointsInto text symbol.position := by
    cases ahead with
    | char stands => exact pointsInto_place isText
    | endOfText stands => exact pointsInto_endPlace (isText.trans (List.append_nil _))
  have gives := @collect_eq before after symbol.position "" symbol reader ahead
  have cases_ := @quoted_cases text before after symbol.position "" isText
  unfold rawText
  rw [success]
  dsimp only
  cases isCollected : collect symbol.position "" symbol reader with
  | ok found rest =>
      rw [isCollected] at gives
      obtain ⟨-, before', after', isQuoted, stands⟩ := gives
      rw [isQuoted] at cases_
      exact ⟨trivial, ⟨before', after', cases_, stands⟩, returned⟩
  | error error rest =>
      rw [isCollected] at gives
      rw [gives.2] at cases_
      change PointsInto text error.position
      rw [cases_]
      exact isStart

end Lexer

end MiniPascal
