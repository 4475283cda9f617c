import MiniPascal.Proofs.Lexical.Reading

/-!
# Characters in their places

The place of a character follows from the text in front of it.  A reader that stands in a text hands
out the rest of it, every character in its place, and then the end of the text.
-/

namespace MiniPascal

def Position.past (position : Position) (char : Char) : Position :=
  if char = '\n' then ⟨position.line + 1, 1⟩ else ⟨position.line, position.column + 1⟩

def place (before : List Char) : Position := before.foldl Position.past ⟨1, 1⟩

/-- The place of the end of a text: behind its last character, also behind a line feed. -/
def endPlace (before : List Char) : Position :=
  if before = [] then ⟨1, 1⟩
  else ⟨(place before.dropLast).line, (place before.dropLast).column + 1⟩

@[simp] theorem place_append_singleton (before : List Char) (char : Char) :
    place (before ++ [char]) = (place before).past char := by
  simp [place]

@[simp] theorem endPlace_append_singleton (before : List Char) (char : Char) :
    endPlace (before ++ [char]) = ⟨(place before).line, (place before).column + 1⟩ := by
  simp [endPlace]

def Symbol.placed (before : List Char) : List Char → List Symbol
  | [] => [⟨none, endPlace before⟩]
  | char :: after => ⟨some char, place before⟩ :: Symbol.placed (before ++ [char]) after

theorem Symbol.placed_append {before chars : List Char} (after : List Char)
    (sameLine : '\n' ∉ chars.dropLast) :
    Symbol.placed before (chars ++ after) =
      Symbol.row (place before).line (place before).column chars ++
        Symbol.placed (before ++ chars) after := by
  induction chars generalizing before with
  | nil => simp [row]
  | cons char others ih =>
      rw [List.cons_append, placed, row, List.cons_append]
      cases others with
      | nil => simp [row]
      | cons second rest =>
          rw [List.dropLast_cons_cons, List.mem_cons, not_or] at sameLine
          have next : place (before ++ [char]) =
              ⟨(place before).line, (place before).column + 1⟩ := by
            simp [Position.past, Ne.symm sameLine.1]
          rw [ih sameLine.2, next]
          simp

/-! ### Lines of a text -/

namespace PhysicalLine

theorem exists_of_split {input : List Char} (notEmpty : input ≠ []) :
    ∃ line rest, input = line ++ rest ∧
      split (· == '\n') input = line :: split (· == '\n') rest ∧ line ≠ [] ∧
      '\n' ∉ line.dropLast ∧ (rest ≠ [] → line.getLast? = some '\n') := by
  induction input with
  | nil => exact absurd rfl notEmpty
  | cons first others ih =>
      by_cases isEnd : first = '\n'
      · exact ⟨[first], others, rfl, by simp [split, isEnd], by simp, by simp, by simp [isEnd]⟩
      by_cases isLast : others = []
      · exact ⟨[first], [], by simp [isLast], by simp [split, isEnd, isLast], by simp, by simp,
          by simp⟩
      obtain ⟨line, rest, isInput, isSplit, isLine, sameLine, ends⟩ := ih isLast
      refine ⟨first :: line, rest, by simp [isInput], ?_, by simp, ?_, fun more => ?_⟩
      · rw [split, isSplit]
        simp [isEnd]
      · rw [List.dropLast_cons_of_ne_nil isLine, List.mem_cons, not_or]
        exact ⟨Ne.symm isEnd, sameLine⟩
      · simp [List.getLast?_cons, ends more]

theorem place_of_getLast? {before line : List Char} (ends : line.getLast? = some '\n') :
    place (before ++ line) = ⟨(endPlace (before ++ line)).line + 1, 1⟩ := by
  obtain ⟨front, rfl⟩ := List.getLast?_eq_some_iff.1 ends
  rw [← List.append_assoc, place_append_singleton, endPlace_append_singleton]
  rfl

theorem endPlace_append {before chars : List Char} (notEmpty : chars ≠ [])
    (sameLine : '\n' ∉ chars.dropLast) :
    endPlace (before ++ chars) =
      ⟨(place before).line, (place before).column + chars.length⟩ := by
  induction chars generalizing before with
  | nil => exact absurd rfl notEmpty
  | cons char others ih =>
      cases others with
      | nil => simp
      | cons second rest =>
          rw [List.dropLast_cons_cons, List.mem_cons, not_or] at sameLine
          have next : place (before ++ [char]) =
              ⟨(place before).line, (place before).column + 1⟩ := by
            simp [Position.past, Ne.symm sameLine.1]
          have rest := @ih (before ++ [char]) (by simp) sameLine.2
          rw [next, List.append_assoc] at rest
          rw [List.length_cons, Nat.add_comm _ 1, ← Nat.add_assoc]
          exact rest

/-- The lines of a text hand out its characters in their places. -/
theorem outcomes_split (before after : List Char) (line column : Nat) (chunk : List Char)
    (atEnd : endPlace before = ⟨max line 1, column + 1⟩)
    (atLine : after ≠ [] → place before = ⟨line + 1, 1⟩) :
    outcomes line column chunk ((split (· == '\n') after).map .text) =
      (Symbol.placed before after).map .ok := by
  by_cases isEmpty : after = []
  · subst isEmpty
    simp [split, outcomes, Symbol.placed, atEnd]
  obtain ⟨first, rest, isInput, isSplit, isLine, sameLine, ends⟩ := exists_of_split isEmpty
  have fewer : rest.length < after.length := by
    have := List.length_pos_iff.2 isLine
    rw [isInput, List.length_append]
    omega
  have firstEnd : endPlace (before ++ first) = ⟨line + 1, first.length + 1⟩ := by
    rw [endPlace_append isLine sameLine, atLine isEmpty, Nat.add_comm first.length]
  have others := outcomes_split (before ++ first) rest (line + 1) first.length (lastChunk first)
    (by rw [firstEnd, Nat.max_eq_left (Nat.le_add_left 1 line)])
    (fun more => by rw [place_of_getLast? (ends more), firstEnd])
  rw [isSplit, List.map_cons, outcomes, others]
  rw [isInput, Symbol.placed_append rest sameLine, atLine isEmpty, List.map_append]
termination_by after.length

theorem proper_ofText (text : String) : .text [] ∉ ofText text := by
  simp only [ofText, List.mem_map, PhysicalLine.text.injEq, not_exists, not_and]
  rintro piece isPiece rfl
  exact nil_not_mem_split _ _ isPiece

end PhysicalLine

/-! ### Readers in a text -/

namespace Reader

def At (before after : List Char) (reader : Reader) : Prop :=
  reader.Proper ∧ reader.readAll = (Symbol.placed before after).map .ok

theorem at_ofText (text : String) : (ofText text).At [] text.toList := by
  refine ⟨PhysicalLine.proper_ofText text, ?_⟩
  rw [ofText, readAll_ofLines (PhysicalLine.proper_ofText text)]
  exact PhysicalLine.outcomes_split [] text.toList 0 0 [] rfl fun _ => rfl

variable {before after : List Char} {reader : Reader}

theorem At.read {char : Char} (stands : reader.At before (char :: after)) :
    ∃ rest, reader.read = .ok ⟨some char, place before⟩ rest ∧ rest.At (before ++ [char]) after := by
  obtain ⟨proper, all⟩ := stands
  rw [readAll, Symbol.placed, List.map_cons] at all
  split at all
  · simp at all
  · rename_i success
    simp only [List.cons.injEq, Except.ok.injEq, Symbol.mk.injEq, Option.some.injEq] at all
    obtain ⟨⟨rfl, rfl⟩, others⟩ := all
    exact ⟨_, success, (prospects_read proper success).1, others⟩
  · simp at all

theorem At.read_end (stands : reader.At before []) :
    ∃ rest, reader.read = .ok ⟨none, endPlace before⟩ rest ∧ rest.At before [] := by
  obtain ⟨proper, all⟩ := stands
  rw [readAll] at all
  split at all
  · rename_i position rest success
    obtain ⟨restProper, -, again⟩ := prospects_read_end proper success
    simp only [Symbol.placed, List.map_cons, List.map_nil, List.cons.injEq, Except.ok.injEq,
      Symbol.mk.injEq, true_and, and_true] at all
    subst all
    exact ⟨rest, success, restProper, (readAll_eq restProper).trans again⟩
  · simp [Symbol.placed] at all
  · simp [Symbol.placed] at all

end Reader

end MiniPascal
