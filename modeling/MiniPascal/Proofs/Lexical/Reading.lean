import MiniPascal.Lexical.Reader

/-!
# What a reader hands out

`Reader.readAll` are the outcomes of all reads up to the end of the text, errors included.  They
depend on the physical lines alone, not on how these are cut into chunks: every character comes with
its place in its line.  Lines that cannot be decoded are the exception.  Each gives one error, the
last chunk in front of it comes a second time, and it is not counted.
-/

namespace MiniPascal

def Symbol.row (line column : Nat) : List Char → List Symbol
  | [] => []
  | char :: chars => ⟨some char, ⟨line, column⟩⟩ :: Symbol.row line (column + 1) chars

namespace PhysicalLine

def faults (lines : List PhysicalLine) : Nat := lines.count .undecodable

def lastChunk (chars : List Char) : List Char :=
  chars.drop ((chars.length - 1) / maxChunkLength * maxChunkLength)

theorem lastChunk_of_le {chars : List Char} (short : chars.length ≤ maxChunkLength) :
    lastChunk chars = chars := by
  have first : (chars.length - 1) / maxChunkLength = 0 := by
    simp only [maxChunkLength] at *
    omega
  rw [lastChunk, first, Nat.zero_mul, List.drop_zero]

theorem lastChunk_drop {chars : List Char} (long : maxChunkLength < chars.length) :
    lastChunk (chars.drop maxChunkLength) = lastChunk chars := by
  rw [lastChunk, lastChunk, List.drop_drop, List.length_drop]
  congr 1
  simp only [maxChunkLength] at *
  omega

/-- What reading on past all errors gives, behind a line with its number, the characters of it that
have been handed out and its last chunk. -/
def outcomes (line column : Nat) (chunk : List Char) :
    List PhysicalLine → List (Except LexError Symbol)
  | [] => [.ok ⟨none, ⟨max line 1, column + 1⟩⟩]
  | .text chars :: lines =>
      (Symbol.row (line + 1) 1 chars).map .ok ++
        outcomes (line + 1) chars.length (lastChunk chars) lines
  | .undecodable :: lines =>
      .error (.unreadable ⟨max line 1, column + 1⟩) ::
        ((Symbol.row (max line 1) (column + 1) chunk).map .ok ++
          outcomes line (column + chunk.length) chunk lines)

/-- The characters of the lines in their places, all lines counted from a number on, with a gap for
each that cannot be decoded. -/
def inPlace (number : Nat) : List PhysicalLine → List (Option Symbol)
  | [] => []
  | .text chars :: lines => (Symbol.row number 1 chars).map some ++ inPlace (number + 1) lines
  | .undecodable :: lines => none :: inPlace (number + 1) lines

theorem outcomes_ne_nil (line column : Nat) (chunk : List Char) (lines : List PhysicalLine) :
    outcomes line column chunk lines ≠ [] := by
  induction lines generalizing line column chunk with
  | nil => simp [outcomes]
  | cons first others ih => cases first <;> simp [outcomes, ih]

/-- Where all lines can be decoded, every character comes once and in its place. -/
theorem outcomes_inPlace {lines : List PhysicalLine} (decodable : .undecodable ∉ lines)
    (line column : Nat) (chunk : List Char) :
    (outcomes line column chunk lines).dropLast.map Except.toOption = inPlace (line + 1) lines := by
  induction lines generalizing line column chunk with
  | nil => rfl
  | cons first others ih =>
      cases first with
      | undecodable => simp at decodable
      | text chars =>
          rw [outcomes, inPlace, List.dropLast_append_of_ne_nil (outcomes_ne_nil _ _ _ _),
            List.map_append, ih (by simp_all), List.map_map]
          rfl

end PhysicalLine

namespace Reader

open PhysicalLine

theorem pending_pop (reader : Reader) : reader.pop.2.pending = reader.pending := by
  unfold pop
  split <;> rfl

theorem faults_read {reader rest : Reader} {symbol : Symbol}
    (success : reader.read = .ok symbol rest) : faults rest.pending = faults reader.pending := by
  unfold read at success
  split at success
  · split at success <;> cases success
    rename_i filled
    unfold fill at filled
    split at filled <;> cases filled
    all_goals simp_all [pending_pop, faults, load]
  · cases success
    rw [pending_pop]

theorem faults_read_error {reader rest : Reader} {error : LexError}
    (failure : reader.read = .error error rest) : faults rest.pending < faults reader.pending := by
  unfold read at failure
  split at failure
  · split at failure <;> cases failure
    rename_i filled
    unfold fill at filled
    split at filled <;> cases filled
    simp_all [faults]
  · cases failure

def readAll (reader : Reader) : List (Except LexError Symbol) :=
  match success : reader.read with
  | .ok ⟨none, position⟩ _ => [.ok ⟨none, position⟩]
  | .ok ⟨some char, position⟩ rest =>
      have := faults_read success
      have := remaining_read success
      .ok ⟨some char, position⟩ :: readAll rest
  | .error error rest =>
      have := faults_read_error success
      .error error :: readAll rest
termination_by (faults reader.pending, reader.remaining)
decreasing_by
  · simp only [Symbol.size] at *
    grind
  · grind

theorem readAll_ne_nil (reader : Reader) : reader.readAll ≠ [] := by
  unfold readAll
  split <;> simp

def finalChunk (reader : Reader) : List Char :=
  if reader.overflow.isEmpty then reader.chunk else lastChunk reader.overflow

/-- What `readAll` gives, told from the parts of a reader. -/
def prospects (reader : Reader) : List (Except LexError Symbol) :=
  (Symbol.row (max reader.line 1) (reader.column + 1) (reader.unread ++ reader.overflow)).map .ok ++
    outcomes reader.line (reader.column + (reader.unread ++ reader.overflow).length)
      reader.finalChunk reader.pending

def Proper (reader : Reader) : Prop := .text [] ∉ reader.pending

theorem prospects_pop {reader : Reader} {char : Char} {unread : List Char}
    (ready : reader.unread = char :: unread) :
    reader.prospects = .ok reader.pop.1 :: reader.pop.2.prospects := by
  simp [pop, ready, prospects, finalChunk, Symbol.row, position, Nat.add_comm, Nat.add_left_comm]

theorem finalChunk_load (reader : Reader) (chars : List Char) :
    (reader.load chars).finalChunk = lastChunk chars := by
  rcases Nat.lt_or_ge maxChunkLength chars.length with long | short
  · simp [finalChunk, load, Nat.not_le.2 long, lastChunk_drop long]
  · simp [finalChunk, load, short, lastChunk_of_le short, List.take_of_length_le short]

/-- Cutting a line into chunks changes nothing. -/
theorem prospects_load (reader : Reader) (chars : List Char) :
    (reader.load chars).prospects =
      (Symbol.row (max reader.line 1) (reader.column + 1) chars).map .ok ++
        outcomes reader.line (reader.column + chars.length) (lastChunk chars) reader.pending := by
  rw [prospects, finalChunk_load]
  simp [load]

theorem prospects_fill {reader loaded : Reader} (empty : reader.unread = [])
    (filled : reader.fill = .ok () loaded) : loaded.prospects = reader.prospects := by
  unfold fill at filled
  split at filled
  · rename_i char chars isOverflow
    cases filled
    rw [prospects_load, prospects, finalChunk, empty, isOverflow]
    simp
  · rename_i chars pending isOverflow isPending
    cases filled
    have loaded := prospects_load { reader with pending, line := reader.line + 1, column := 0 } chars
    have atEnd : reader.prospects = outcomes reader.line reader.column reader.chunk reader.pending := by
      simp [prospects, finalChunk, empty, isOverflow, Symbol.row]
    rw [atEnd, isPending, outcomes]
    simpa [load] using loaded
  · cases filled
  · rename_i isOverflow isPending
    cases filled
    simp [prospects, empty, isOverflow, isPending, outcomes]

theorem unread_fill {reader loaded : Reader} (proper : reader.Proper)
    (filled : reader.fill = .ok () loaded) :
    loaded.Proper ∧ (loaded.unread = [] → loaded.overflow = [] ∧ loaded.pending = []) := by
  unfold fill at filled
  split at filled <;> cases filled
  · exact ⟨proper, by simp [load, maxChunkLength]⟩
  · rename_i chars pending isOverflow isPending
    simp only [Proper, isPending, List.mem_cons, not_or] at proper
    refine ⟨proper.2, fun isEmpty => absurd ?_ proper.1⟩
    simpa [load, maxChunkLength] using isEmpty.symm
  · rename_i isOverflow isPending
    exact ⟨proper, fun _ => ⟨isOverflow, isPending⟩⟩

/-- A read hands out the next symbol of a reader that has the same to come, and has loaded a chunk
unless it is at the end. -/
theorem exists_of_read {reader rest : Reader} {symbol : Symbol} (proper : reader.Proper)
    (success : reader.read = .ok symbol rest) :
    ∃ ready : Reader, ready.prospects = reader.prospects ∧ ready.Proper ∧
      (symbol, rest) = ready.pop ∧
      (ready.unread = [] → ready.overflow = [] ∧ ready.pending = []) := by
  unfold read at success
  split at success
  · rename_i isEmpty
    split at success <;> cases success
    rename_i loaded filled
    have more := unread_fill proper filled
    exact ⟨loaded, prospects_fill (List.isEmpty_iff.1 isEmpty) filled, more.1, rfl, more.2⟩
  · rename_i notEmpty
    cases success
    exact ⟨reader, rfl, proper, rfl, fun isEmpty => absurd (List.isEmpty_iff.2 isEmpty) notEmpty⟩

theorem prospects_read {reader rest : Reader} {char : Char} {position : Position}
    (proper : reader.Proper) (success : reader.read = .ok ⟨some char, position⟩ rest) :
    rest.Proper ∧ reader.prospects = .ok ⟨some char, position⟩ :: rest.prospects := by
  obtain ⟨ready, same, proper, popped, -⟩ := exists_of_read proper success
  cases isUnread : ready.unread with
  | nil => simp [pop, isUnread] at popped
  | cons first others =>
      have next := prospects_pop isUnread
      rw [← popped, same] at next
      refine ⟨?_, next⟩
      have isRest : rest = ready.pop.2 := congrArg Prod.snd popped
      rw [Proper, isRest, pending_pop]
      exact proper

theorem prospects_read_end {reader rest : Reader} {position : Position}
    (proper : reader.Proper) (success : reader.read = .ok ⟨none, position⟩ rest) :
    rest.Proper ∧ reader.prospects = [.ok ⟨none, position⟩] ∧
      rest.prospects = [.ok ⟨none, position⟩] := by
  obtain ⟨ready, same, proper, popped, atEnd⟩ := exists_of_read proper success
  cases isUnread : ready.unread with
  | nil =>
      simp only [pop, isUnread, Prod.mk.injEq, Symbol.mk.injEq, true_and] at popped
      obtain ⟨rfl, rfl⟩ := popped
      obtain ⟨isOverflow, isPending⟩ := atEnd isUnread
      have isEnd : rest.prospects = [.ok ⟨none, rest.position⟩] := by
        simp [prospects, isUnread, isOverflow, isPending, outcomes, Symbol.row, Reader.position]
      exact ⟨proper, same ▸ isEnd, isEnd⟩
  | cons first others => simp [pop, isUnread] at popped

/-- An error passes a line, and the chunk in front of it comes again. -/
theorem prospects_read_error {reader rest : Reader} {error : LexError} (proper : reader.Proper)
    (failure : reader.read = .error error rest) :
    rest.Proper ∧ reader.prospects = .error error :: rest.prospects := by
  unfold read at failure
  split at failure
  · rename_i isEmpty
    split at failure <;> cases failure
    rename_i filled
    unfold fill at filled
    split at filled <;> cases filled
    rename_i pending isOverflow isPending
    simp only [Proper, isPending, List.mem_cons, not_or] at proper
    refine ⟨proper.2, ?_⟩
    simp [prospects, finalChunk, List.isEmpty_iff.1 isEmpty, isOverflow, isPending, outcomes,
      Symbol.row, Reader.position]
  · cases failure

theorem readAll_eq {reader : Reader} (proper : reader.Proper) :
    reader.readAll = reader.prospects := by
  fun_induction readAll reader with
  | case1 reader position rest success => exact (prospects_read_end proper success).2.1.symm
  | case2 reader char position rest success _ _ ih =>
      have next := prospects_read proper success
      rw [ih next.1, next.2]
  | case3 reader error rest failure _ ih =>
      have next := prospects_read_error proper failure
      rw [ih next.1, next.2]

theorem readAll_ofLines {lines : List PhysicalLine} (proper : .text [] ∉ lines) :
    (ofLines lines).readAll = outcomes 0 0 [] lines := by
  rw [@readAll_eq (ofLines lines) proper]
  rfl

end Reader

/-! ### Input of bytes -/

namespace PhysicalLine

theorem nil_not_mem_split {α : Type} (ends : α → Bool) (input : List α) : [] ∉ split ends input := by
  induction input with
  | nil => simp [split]
  | cons first others ih =>
      unfold split
      split
      · simpa using ih
      · split <;> simp_all

theorem decode_ne_nil {bytes : List UInt8} (notEmpty : bytes ≠ []) : decode bytes ≠ .text [] := by
  unfold decode
  split
  · rename_i line isLine
    intro isEmpty
    rw [PhysicalLine.text.injEq, String.toList_eq_nil_iff] at isEmpty
    subst isEmpty
    unfold String.fromUTF8? at isLine
    split at isLine
    · have same : (⟨bytes.toArray⟩ : ByteArray) = ByteArray.empty :=
        congrArg String.toByteArray (Option.some.inj isLine)
      have noBytes : bytes.toArray = #[] := congrArg ByteArray.data same
      exact notEmpty (congrArg Array.toList noBytes)
    · cases isLine
  · simp

theorem proper_ofBytes (bytes : List UInt8) : .text [] ∉ ofBytes bytes := by
  simp only [ofBytes, List.mem_map, not_exists, not_and]
  intro piece isPiece
  exact decode_ne_nil fun isNil => nil_not_mem_split _ bytes (isNil ▸ isPiece)

end PhysicalLine

namespace Reader

/-- Reading on past errors gives one error for every line that cannot be decoded and the characters
of all other lines, in order and in their columns.  Behind an error the last chunk in front of it
comes once more, and lines are counted without those that gave errors.  An input that can be decoded
is read once, and with its own line numbers. -/
theorem readAll_ofBytes (bytes : List UInt8) :
    (ofBytes bytes).readAll = PhysicalLine.outcomes 0 0 [] (PhysicalLine.ofBytes bytes) ∧
      (.undecodable ∉ PhysicalLine.ofBytes bytes →
        (ofBytes bytes).readAll.dropLast.map Except.toOption =
          PhysicalLine.inPlace 1 (PhysicalLine.ofBytes bytes)) := by
  have all := readAll_ofLines (PhysicalLine.proper_ofBytes bytes)
  refine ⟨all, fun decodable => ?_⟩
  rw [ofBytes, all, PhysicalLine.outcomes_inPlace decodable]

/-- The lines `a` and `é`. -/
theorem readAll_two_lines :
    .undecodable ∉ PhysicalLine.ofBytes [0x61, 0x0A, 0xC3, 0xA9] ∧
      (ofBytes [0x61, 0x0A, 0xC3, 0xA9]).readAll.dropLast.map Except.toOption =
        [some ⟨some 'a', ⟨1, 1⟩⟩, some ⟨some '\n', ⟨1, 2⟩⟩, some ⟨some 'é', ⟨2, 1⟩⟩] := by
  have decodable : .undecodable ∉ PhysicalLine.ofBytes [0x61, 0x0A, 0xC3, 0xA9] := by
    decide +kernel
  refine ⟨decodable, ((readAll_ofBytes _).2 decodable).trans ?_⟩
  decide +kernel

/-- Not so behind a line that cannot be decoded: of the lines `begin`, a single byte `FF` and `end.`,
the first comes twice and the last has number two. -/
theorem readAll_repeats_chunk :
    ¬ ∀ bytes : List UInt8, (ofBytes bytes).readAll.dropLast.map Except.toOption =
      PhysicalLine.inPlace 1 (PhysicalLine.ofBytes bytes) := by
  intro faithful
  have read := faithful
    [0x62, 0x65, 0x67, 0x69, 0x6E, 0x0A, 0xFF, 0x0A, 0x65, 0x6E, 0x64, 0x2E]
  rw [ofBytes, readAll_ofLines (PhysicalLine.proper_ofBytes _)] at read
  revert read
  decide +kernel

end Reader

end MiniPascal
