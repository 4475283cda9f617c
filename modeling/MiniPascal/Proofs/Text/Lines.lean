import Mathlib.Data.List.Induction
import MiniPascal.Proofs.Lexical.Places
import MiniPascal.Text.Lines

/-!
# Places on the lines of a text

The lines that diagnostics show are cut out of a text apart from its characters' positions.  A
position that counts the characters in front of it is nevertheless found on the line of its number.
-/

namespace MiniPascal

namespace Text

/-- A physical line of a text, with what stands in front of it and behind it.  It ends with a line
feed, to which a carriage return directly before it belongs, or else with the text. -/
structure LineOf (text : List Char) where
  front : List Char
  content : List Char
  ending : List Char
  back : List Char
  isText : text = front ++ (content ++ ending ++ back)
  begins : front = [] ∨ front.getLast? = some '\n'
  oneLine : '\n' ∉ content
  ends : ending = ['\r', '\n'] ∨ ending = ['\n'] ∧ content.getLast? ≠ some '\r' ∨
    ending = [] ∧ back = []
  notEmpty : content ++ ending ≠ []

namespace LineOf

variable {text : List Char}

def number (line : LineOf text) : Nat := line.front.count '\n' + 1

def length (line : LineOf text) : Nat := (line.content ++ line.ending).length

/-- A position on a line is that of one of its characters, or of the end of the text behind them. -/
def Has (line : LineOf text) (position : Position) : Prop :=
  position.line = line.number ∧ 1 ≤ position.column ∧
    (position.column ≤ line.length ∨ line.back = [] ∧ position.column = line.length + 1)

end LineOf

/-! ### Lines by number -/

theorem linesFrom_append {chars : List Char} (oneLine : '\n' ∉ chars) (passed rest : List Char) :
    linesFrom passed (chars ++ rest) = linesFrom (chars.reverse ++ passed) rest := by
  induction chars generalizing passed with
  | nil => rfl
  | cons char others ih =>
      rw [List.mem_cons, not_or] at oneLine
      rw [List.cons_append, linesFrom, ih oneLine.2, List.reverse_cons, List.append_assoc,
        List.singleton_append]
      exact fun isEnd => oneLine.1 isEnd.symm

theorem linesFrom_line {chars : List Char} (oneLine : '\n' ∉ chars) (rest : List Char) :
    linesFrom [] (chars ++ '\n' :: rest) = trimReturn chars :: linesFrom [] rest := by
  rw [linesFrom_append oneLine, List.append_nil, linesFrom, List.reverse_reverse]

theorem linesFrom_last {chars : List Char} (oneLine : '\n' ∉ chars) (notEmpty : chars ≠ []) :
    linesFrom [] chars = [chars] := by
  have whole := linesFrom_append oneLine [] []
  rw [List.append_nil, List.append_nil] at whole
  rw [whole, linesFrom, List.reverse_reverse]
  simpa using notEmpty

theorem linesFrom_front {front : List Char} (ends : front.getLast? = some '\n')
    (passed rest : List Char) :
    ∃ lines, linesFrom passed (front ++ rest) = lines ++ linesFrom [] rest ∧
      lines.length = front.count '\n' := by
  induction front generalizing passed with
  | nil => cases ends
  | cons char others ih =>
      by_cases isLast : others = []
      · subst isLast
        obtain rfl := Option.some.inj ends
        exact ⟨[trimReturn passed.reverse], by rw [List.singleton_append, linesFrom]; rfl, rfl⟩
      rw [List.getLast?_cons_of_ne_nil isLast] at ends
      by_cases isEnd : char = '\n'
      · subst isEnd
        obtain ⟨lines, areLines, length⟩ := ih ends []
        refine ⟨trimReturn passed.reverse :: lines, ?_, ?_⟩
        · rw [List.cons_append, linesFrom, areLines, List.cons_append]
        · rw [List.length_cons, length, List.count_cons_self]
      · obtain ⟨lines, areLines, length⟩ := ih ends (char :: passed)
        refine ⟨lines, ?_, ?_⟩
        · rw [List.cons_append, linesFrom, areLines]
          exact isEnd
        · rw [length, List.count_cons_of_ne isEnd]

theorem LineOf.linesFrom_back {text : List Char} (line : LineOf text) :
    ∃ others, linesFrom [] (line.content ++ line.ending ++ line.back) = line.content :: others := by
  obtain ⟨-, content, ending, back, -, -, oneLine, ends, notEmpty⟩ := line
  dsimp only
  rcases ends with rfl | ⟨rfl, notReturn⟩ | ⟨rfl, rfl⟩
  · refine ⟨linesFrom [] back, ?_⟩
    have isLine : '\n' ∉ content ++ ['\r'] := by simpa using oneLine
    have whole := linesFrom_line isLine back
    rw [trimReturn, if_pos List.getLast?_concat, List.dropLast_concat] at whole
    simpa using whole
  · refine ⟨linesFrom [] back, ?_⟩
    rw [List.append_assoc, List.singleton_append, linesFrom_line oneLine, trimReturn,
      if_neg notReturn]
  · refine ⟨[], ?_⟩
    rw [List.append_nil] at notEmpty
    rw [List.append_nil, List.append_nil, linesFrom_last oneLine notEmpty]

theorem LineOf.line?_number {text : String} (line : LineOf text.toList) :
    line? text line.number = some (String.ofList line.content) := by
  have found : ∃ lines others, linesFrom [] text.toList = lines ++ line.content :: others ∧
      lines.length = line.front.count '\n' := by
    obtain ⟨others, areOthers⟩ := line.linesFrom_back
    have isText := congrArg (linesFrom []) line.isText
    rcases line.begins with isEmpty | ends
    · rw [isEmpty, List.nil_append, areOthers] at isText
      exact ⟨[], others, isText, by rw [isEmpty]; rfl⟩
    · obtain ⟨lines, areLines, length⟩ :=
        linesFrom_front ends [] (line.content ++ line.ending ++ line.back)
      rw [areLines, areOthers] at isText
      exact ⟨lines, others, isText, length⟩
  obtain ⟨before, others, areLines, length⟩ := found
  rw [number, line?, lines, areLines, ← length, List.getElem?_map]
  simp

end Text

/-! ### Positions by line -/

theorem place_append_of_not_mem {chars : List Char} (before : List Char) (oneLine : '\n' ∉ chars) :
    place (before ++ chars) = ⟨(place before).line, (place before).column + chars.length⟩ := by
  induction chars generalizing before with
  | nil => rw [List.append_nil]; rfl
  | cons char others ih =>
      rw [List.mem_cons, not_or] at oneLine
      have rest := ih (before ++ [char]) oneLine.2
      rw [place_append_singleton, Position.past, if_neg (Ne.symm oneLine.1), List.append_assoc] at rest
      rw [List.length_cons, Nat.add_comm _ 1, ← Nat.add_assoc]
      exact rest

theorem line_place (before : List Char) : (place before).line = before.count '\n' + 1 := by
  induction before using List.reverseRecOn with
  | nil => rfl
  | append_singleton before char ih =>
      rw [place_append_singleton, Position.past, List.count_append, List.count_singleton]
      split
      · rename_i isEnd
        simp [isEnd, ih]
      · rename_i notEnd
        simp [notEnd, ih]

theorem place_of_begins {front : List Char} (begins : front = [] ∨ front.getLast? = some '\n') :
    place front = ⟨front.count '\n' + 1, 1⟩ := by
  rcases begins with rfl | ends
  · rfl
  · rw [← line_place]
    obtain ⟨before, rfl⟩ := List.getLast?_eq_some_iff.1 ends
    rw [place_append_singleton]
    rfl

namespace Text.LineOf

theorem exists_begins (before : List Char) :
    ∃ front chars, before = front ++ chars ∧ (front = [] ∨ front.getLast? = some '\n') ∧
      '\n' ∉ chars := by
  induction before using List.reverseRecOn with
  | nil => exact ⟨[], [], rfl, .inl rfl, List.not_mem_nil⟩
  | append_singleton before char ih =>
      by_cases isEnd : char = '\n'
      · exact ⟨before ++ [char], [], by simp, .inr (by simp [isEnd]), List.not_mem_nil⟩
      · obtain ⟨front, chars, rfl, begins, oneLine⟩ := ih
        exact ⟨front, chars ++ [char], by simp, begins, by simp [oneLine, Ne.symm isEnd]⟩

theorem exists_ends (chars : List Char) (char : Char) (after : List Char) (oneLine : '\n' ∉ chars) :
    ∃ content ending back, chars ++ char :: after = content ++ ending ++ back ∧
      '\n' ∉ content ∧
      (ending = ['\r', '\n'] ∨ ending = ['\n'] ∧ content.getLast? ≠ some '\r' ∨
        ending = [] ∧ back = []) ∧
      chars.length + 1 ≤ (content ++ ending).length ∧
      (after = [] → back = [] ∧ chars.length + 1 = (content ++ ending).length) := by
  -- by how far the line goes on behind the character
  induction after generalizing chars char with
  | nil =>
      by_cases isEnd : char = '\n'
      · subst isEnd
        by_cases isReturn : chars.getLast? = some '\r'
        · obtain ⟨content, rfl⟩ := List.getLast?_eq_some_iff.1 isReturn
          exact ⟨content, ['\r', '\n'], [], by simp, by simpa using oneLine, .inl rfl, by simp,
            by simp⟩
        · exact ⟨chars, ['\n'], [], by simp, oneLine, .inr (.inl ⟨rfl, isReturn⟩), by simp, by simp⟩
      · exact ⟨chars ++ [char], [], [], by simp, by simp [oneLine, Ne.symm isEnd],
          .inr (.inr ⟨rfl, rfl⟩), by simp, by simp⟩
  | cons second rest ih =>
      by_cases isEnd : char = '\n'
      · subst isEnd
        by_cases isReturn : chars.getLast? = some '\r'
        · obtain ⟨content, rfl⟩ := List.getLast?_eq_some_iff.1 isReturn
          exact ⟨content, ['\r', '\n'], second :: rest, by simp, by simpa using oneLine, .inl rfl,
            by simp, by simp⟩
        · exact ⟨chars, ['\n'], second :: rest, by simp, oneLine, .inr (.inl ⟨rfl, isReturn⟩),
            by simp, by simp⟩
      · obtain ⟨content, ending, back, isText, noEnd, ends, length, -⟩ :=
          ih (chars ++ [char]) second (by simp [oneLine, Ne.symm isEnd])
        rw [List.length_append, List.length_singleton] at length
        exact ⟨content, ending, back, by simpa using isText, noEnd, ends, by omega, by simp⟩

theorem exists_of_char (before : List Char) (char : Char) (after : List Char) :
    ∃ line : LineOf (before ++ char :: after), (place before).line = line.number ∧
      1 ≤ (place before).column ∧ (place before).column ≤ line.length ∧
      (after = [] → line.back = [] ∧ (place before).column = line.length) := by
  obtain ⟨front, chars, rfl, begins, oneLine⟩ := exists_begins before
  obtain ⟨content, ending, back, isText, noEnd, ends, length, atEnd⟩ :=
    exists_ends chars char after oneLine
  have notEmpty : content ++ ending ≠ [] := fun isEmpty => by
    rw [isEmpty] at length
    exact Nat.not_succ_le_zero _ length
  refine ⟨⟨front, content, ending, back, by rw [List.append_assoc, isText], begins, noEnd, ends,
    notEmpty⟩, ?_⟩
  rw [place_append_of_not_mem front oneLine, place_of_begins begins, Nat.add_comm 1]
  exact ⟨rfl, Nat.le_add_left 1 _, length, atEnd⟩

theorem has_place (before : List Char) (char : Char) (after : List Char) :
    ∃ line : LineOf (before ++ char :: after), line.Has (place before) := by
  obtain ⟨line, isLine, first, last, -⟩ := exists_of_char before char after
  exact ⟨line, isLine, first, .inl last⟩

theorem has_endPlace {text : List Char} (notEmpty : text ≠ []) :
    ∃ line : LineOf text, line.Has (endPlace text) ∧ line.back = [] := by
  induction text using List.reverseRecOn with
  | nil => exact absurd rfl notEmpty
  | append_singleton before char =>
      obtain ⟨line, isLine, -, -, atEnd⟩ := exists_of_char before char []
      obtain ⟨isLast, column⟩ := atEnd rfl
      rw [endPlace_append_singleton]
      exact ⟨line, ⟨isLine, Nat.le_add_left 1 _, .inr ⟨isLast, congrArg (· + 1) column⟩⟩, isLast⟩

end Text.LineOf

end MiniPascal
