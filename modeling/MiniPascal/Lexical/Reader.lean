import MiniPascal.Lexical.Error
import MiniPascal.Lexical.Symbol

/-!
# Reading a text symbol by symbol

A reader holds the physical lines not yet reached and one chunk of the line it is in.  A physical
line ends with its line feed; one that is longer than `maxChunkLength` is handed out in several
chunks, which changes neither the characters nor their positions.

A line that cannot be decoded is skipped with an error.  The chunk before it is then handed out a
second time, in the columns that follow it.

Every symbol read takes its size off `Reader.remaining`: this is why all loops over a reader end.
-/

namespace MiniPascal

def maxChunkLength : Nat := 256

inductive PhysicalLine where
  | text (chars : List Char)
  /-- Its bytes are not well-formed UTF-8. -/
  | undecodable
  deriving Repr, DecidableEq, Inhabited

namespace PhysicalLine

def size : PhysicalLine → Nat
  | text chars => chars.length
  | undecodable => 0

def totalSize : List PhysicalLine → Nat
  | [] => 0
  | line :: lines => line.size + totalSize lines

/-- Cuts a list behind every element that ends a line.  No piece is empty. -/
def split {α : Type} (ends : α → Bool) : List α → List (List α)
  | [] => []
  | a :: rest =>
      if ends a then [a] :: split ends rest
      else
        match split ends rest with
        | [] => [[a]]
        | line :: lines => (a :: line) :: lines

def ofText (text : String) : List PhysicalLine :=
  (split (· == '\n') text.toList).map .text

def decode (bytes : List UInt8) : PhysicalLine :=
  match String.fromUTF8? ⟨bytes.toArray⟩ with
  | some line => .text line.toList
  | none => .undecodable

def ofBytes (bytes : List UInt8) : List PhysicalLine :=
  (split (· == 10) bytes).map decode

end PhysicalLine

structure Reader where
  /-- Physical lines that have not been loaded. -/
  pending : List PhysicalLine
  /-- The chunk loaded last, from its start. -/
  chunk : List Char
  /-- What is left to hand out of the chunk. -/
  unread : List Char
  /-- What is left of the physical line behind the chunk. -/
  overflow : List Char
  /-- Number of the physical line, `0` before the first. -/
  line : Nat
  /-- Characters handed out since the line was loaded. -/
  column : Nat
  deriving Repr, DecidableEq, Inhabited

namespace Reader

def ofLines (lines : List PhysicalLine) : Reader := ⟨lines, [], [], [], 0, 0⟩

def ofText (text : String) : Reader := ofLines (PhysicalLine.ofText text)

def ofBytes (bytes : List UInt8) : Reader := ofLines (PhysicalLine.ofBytes bytes)

/-- Characters still to come, as long as no line fails to decode. -/
def remaining (reader : Reader) : Nat :=
  reader.unread.length + reader.overflow.length + PhysicalLine.totalSize reader.pending

def position (reader : Reader) : Position := ⟨max reader.line 1, reader.column + 1⟩

def load (chars : List Char) (reader : Reader) : Reader :=
  { reader with
    chunk := chars.take maxChunkLength
    unread := chars.take maxChunkLength
    overflow := chars.drop maxChunkLength }

/-- Loads the next chunk: more of the current physical line if there is any, else the next line. -/
def fill : EStateM LexError Reader Unit := fun reader =>
  match reader.overflow, reader.pending with
  | char :: chars, _ => .ok () (reader.load (char :: chars))
  | [], .text chars :: pending =>
      .ok () { reader.load chars with pending := pending, line := reader.line + 1, column := 0 }
  | [], .undecodable :: pending =>
      .error (.unreadable reader.position)
        { reader with pending := pending, unread := reader.chunk }
  | [], [] => .ok () { reader with chunk := [], unread := [] }

def pop (reader : Reader) : Symbol × Reader :=
  match reader.unread with
  | char :: unread =>
      (⟨some char, reader.position⟩,
        { reader with unread := unread, column := reader.column + 1 })
  | [] => (⟨none, reader.position⟩, reader)

/-- The next symbol; behind the last character the end of the text comes again and again. -/
def read : EStateM LexError Reader Symbol := fun reader =>
  if reader.unread.isEmpty then
    match reader.fill with
    | .ok _ loaded => .ok loaded.pop.1 loaded.pop.2
    | .error e skipped => .error e skipped
  else .ok reader.pop.1 reader.pop.2

theorem remaining_pop (reader : Reader) :
    reader.pop.2.remaining + reader.pop.1.size = reader.remaining := by
  unfold pop
  split <;> simp_all [remaining, Symbol.size]
  omega

theorem remaining_fill {reader loaded : Reader} (empty : reader.unread = [])
    (filled : reader.fill = .ok () loaded) : loaded.remaining = reader.remaining := by
  unfold fill at filled
  split at filled <;> simp_all
  all_goals subst filled
  all_goals simp_all [remaining, load, PhysicalLine.totalSize, PhysicalLine.size]
  all_goals omega

theorem remaining_read {reader rest : Reader} {symbol : Symbol}
    (success : reader.read = .ok symbol rest) :
    rest.remaining + symbol.size = reader.remaining := by
  unfold read at success
  split at success
  · rename_i empty
    split at success <;> simp_all
    rename_i filled
    obtain ⟨rfl, rfl⟩ := success
    rw [remaining_pop, remaining_fill empty filled]
  · simp at success
    obtain ⟨rfl, rfl⟩ := success
    exact remaining_pop reader

end Reader

end MiniPascal
