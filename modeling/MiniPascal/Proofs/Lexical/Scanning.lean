import MiniPascal.Lexical.Lexer
import MiniPascal.Proofs.Lexical.Places

/-!
# Scanning a text

`Scan.run` feeds the automaton the characters of a text one by one.  A lexer that stands in the text
does the same symbol by symbol, whatever the chunks of its reader and whether it carries the next
symbol: `next_eq` and `rawText_eq` say what it gives and where it stands behind it.
-/

namespace MiniPascal

/-- The token that the automaton makes of a text behind the text in front of it, with the text in
front and the text behind once it has been read. -/
def Scan.run (state : Scan) (before : List Char) :
    List Char → Except LexError (Token × List Char × List Char)
  | [] => do return (← state.result (endPlace before), before, [])
  | char :: after =>
      match state.step char (place before) with
      | .more state => state.run (before ++ [char]) after
      | .last token => .ok (token, before ++ [char], after)
      | .before => do return (← state.result (place before), before, char :: after)
      | .fail error => .error error

theorem Scan.start_ne_before (char : Char) (position : Position) :
    start char position ≠ .before := by
  unfold start
  split
  · simp
  · split <;> try simp
    split <;> simp

inductive Reader.Ahead (before : List Char) : List Char → Symbol → Reader → Prop where
  | char {char : Char} {after : List Char} {reader : Reader}
      (stands : reader.At (before ++ [char]) after) :
      Ahead before (char :: after) ⟨some char, place before⟩ reader
  | endOfText {reader : Reader} (stands : reader.At before []) :
      Ahead before [] ⟨none, endPlace before⟩ reader

theorem Reader.At.ahead {before after : List Char} {reader : Reader}
    (stands : reader.At before after) :
    ∃ symbol rest, reader.read = .ok symbol rest ∧ Ahead before after symbol rest := by
  cases after with
  | nil =>
      obtain ⟨rest, success, stands⟩ := stands.read_end
      exact ⟨_, rest, success, .endOfText stands⟩
  | cons char after =>
      obtain ⟨rest, success, stands⟩ := stands.read
      exact ⟨_, rest, success, .char stands⟩

namespace Lexer

def At (before after : List Char) (lexer : Lexer) : Prop :=
  lexer.reader.Proper ∧
    lexer.carry.toList.map .ok ++ lexer.reader.readAll = (Symbol.placed before after).map .ok

theorem at_ofText (text : String) : (ofText text).At [] text.toList := Reader.at_ofText text

/-- A step of a lexer that gives something for a text gives it, and leaves the lexer where the text
goes on; otherwise it fails with the error. -/
def Gives {α : Type} (returned : List Token)
    (outcome : Except LexError (α × List Char × List Char)) : EStateM.Result LexError Lexer α → Prop
  | .ok a lexer => lexer.returned = returned ∧
      ∃ before after, outcome = .ok (a, before, after) ∧ lexer.At before after
  | .error error lexer => lexer.returned = returned ∧ outcome = .error error

variable {before after : List Char}

theorem at_carry {reader : Reader} {char : Char} (returned : List Token)
    (stands : reader.At (before ++ [char]) after) :
    (⟨reader, some ⟨some char, place before⟩, returned⟩ : Lexer).At before (char :: after) := by
  refine ⟨stands.1, ?_⟩
  simp [Symbol.placed, stands.2]

theorem scan_eq {state : Scan} {symbol : Symbol} {reader : Reader}
    (ahead : Reader.Ahead before after symbol reader) :
    Gives [] (state.run before after) (scan state symbol reader) := by
  induction after generalizing state before symbol reader with
  | nil =>
      cases ahead with | endOfText stands => ?_
      rw [scan, Scan.run]
      cases state.result (endPlace before) with
      | ok token => exact ⟨rfl, before, [], rfl, stands⟩
      | error error => exact ⟨rfl, rfl⟩
  | cons char after ih =>
      cases ahead with | char stands => ?_
      rw [scan, Scan.run]
      cases state.step char (place before) with
      | more state =>
          obtain ⟨next, rest, success, ahead⟩ := stands.ahead
          simp only
          split
          · rename_i success'
            cases success.symm.trans success'
            exact ih ahead
          · rename_i failure
            cases success.symm.trans failure
      | last token => exact ⟨rfl, before ++ [char], after, rfl, stands⟩
      | before =>
          simp only
          cases state.result (place before) with
          | ok token => exact ⟨rfl, before, char :: after, rfl, at_carry [] stands⟩
          | error error => exact ⟨rfl, rfl⟩
      | fail error => exact ⟨rfl, rfl⟩

def quoted (start : Position) (text : String) (before : List Char) :
    List Char → Except LexError (String × List Char × List Char)
  | [] => .error (.unterminatedString start)
  | char :: after =>
      if char == '\'' then .ok (text, before, char :: after)
      else quoted start (text.push char) (before ++ [char]) after

theorem collect_eq {start : Position} {text : String} {symbol : Symbol} {reader : Reader}
    (ahead : Reader.Ahead before after symbol reader) :
    Gives [] (quoted start text before after) (collect start text symbol reader) := by
  induction after generalizing text before symbol reader with
  | nil =>
      cases ahead with | endOfText stands => ?_
      rw [collect, quoted]
      exact ⟨rfl, rfl⟩
  | cons char after ih =>
      cases ahead with | char stands => ?_
      rw [collect, quoted]
      split
      · exact ⟨rfl, before, char :: after, rfl, at_carry [] stands⟩
      · obtain ⟨next, rest, success, ahead⟩ := stands.ahead
        split
        · rename_i success'
          cases success.symm.trans success'
          exact ih ahead
        · rename_i failure
          cases success.symm.trans failure

theorem symbol_eq {lexer : Lexer} (stands : lexer.At before after) :
    ∃ symbol reader, lexer.symbol = .ok symbol ⟨reader, none, lexer.returned⟩ ∧
      Reader.Ahead before after symbol reader := by
  obtain ⟨reader, carry, returned⟩ := lexer
  cases carry with
  | none =>
      obtain ⟨symbol, rest, success, ahead⟩ := @Reader.At.ahead before after reader stands
      refine ⟨symbol, rest, ?_, ahead⟩
      simp only [Lexer.symbol, success]
  | some carried =>
      refine ⟨carried, reader, rfl, ?_⟩
      obtain ⟨proper, all⟩ := stands
      cases after with
      | nil =>
          simp only [Option.toList_some, List.map_cons, List.map_nil, List.singleton_append,
            Symbol.placed, List.cons.injEq] at all
          exact absurd all.2 reader.readAll_ne_nil
      | cons char after =>
          simp only [Option.toList_some, List.map_cons, List.map_nil, List.singleton_append,
            Symbol.placed, List.cons.injEq, Except.ok.injEq] at all
          obtain ⟨rfl, others⟩ := all
          exact .char ⟨proper, others⟩

theorem next_eq {lexer : Lexer} (stands : lexer.At before after) (none_ : lexer.returned = []) :
    Gives [] (Scan.run .blank before after) lexer.next := by
  obtain ⟨symbol, reader, success, ahead⟩ := symbol_eq stands
  simp only [next, none_, success]
  exact scan_eq ahead

theorem rawText_eq {lexer : Lexer} (stands : lexer.At before after) :
    ∃ start, Gives lexer.returned (quoted start "" before after) lexer.rawText := by
  obtain ⟨symbol, reader, success, ahead⟩ := symbol_eq stands
  refine ⟨symbol.position, ?_⟩
  have collected := @collect_eq before after symbol.position "" symbol reader ahead
  simp only [rawText, success]
  cases isCollected : collect symbol.position "" symbol reader with
  | ok text lexer =>
      rw [isCollected] at collected
      obtain ⟨-, before, after, isQuoted, stands⟩ := collected
      exact ⟨rfl, before, after, isQuoted, stands⟩
  | error error lexer =>
      rw [isCollected] at collected
      exact ⟨rfl, collected.2⟩

end Lexer

end MiniPascal
