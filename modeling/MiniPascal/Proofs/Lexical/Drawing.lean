import MiniPascal.Proofs.Lexical.Reading
import MiniPascal.Proofs.Lexical.Stream

/-!
# What a token takes to draw

A lexer may be asked for tokens and for raw text in any order, get tokens handed back, and be asked
again after a fault.  As long as there is something left of its input, a token drawn takes something off
it: the token was handed back, or the symbol carried over or a character is gone.  This holds of any
input of bytes, because no physical line of it is empty.
-/

namespace MiniPascal

namespace Reader

def AtEnd (reader : Reader) : Prop :=
  reader.unread = [] ∧ reader.overflow = [] ∧ reader.pending = []

variable {reader rest : Reader}

theorem proper_of_read {symbol : Symbol} (proper : reader.Proper)
    (success : reader.read = .ok symbol rest) : rest.Proper := by
  obtain ⟨char?, position⟩ := symbol
  cases char? with
  | none => exact (prospects_read_end proper success).1
  | some char => exact (prospects_read proper success).1

theorem atEnd_of_read {position : Position} (proper : reader.Proper)
    (success : reader.read = .ok ⟨none, position⟩ rest) : reader.AtEnd := by
  have isLast := (prospects_read_end proper success).2.1
  rw [prospects] at isLast
  have noMore : reader.unread ++ reader.overflow = [] := by
    cases isRow : reader.unread ++ reader.overflow with
    | nil => rfl
    | cons char chars => simp [isRow, Symbol.row] at isLast
  obtain ⟨noUnread, noOverflow⟩ := List.append_eq_nil_iff.1 noMore
  refine ⟨noUnread, noOverflow, ?_⟩
  rw [noMore, Symbol.row, List.map_nil, List.nil_append] at isLast
  cases isPending : reader.pending with
  | nil => rfl
  | cons line lines =>
      rw [isPending] at isLast
      cases line with
      | undecodable => simp [PhysicalLine.outcomes] at isLast
      | text chars =>
          cases chars with
          | nil => simp [Proper, isPending] at proper
          | cons char chars => simp [PhysicalLine.outcomes, Symbol.row] at isLast

end Reader

namespace Lexer

/-- Nothing is left of the input: no token has been handed back, no symbol is carried over, and the
reader is at its end. -/
def AtEnd (lexer : Lexer) : Prop :=
  lexer.returned = [] ∧ lexer.carry = none ∧ lexer.reader.AtEnd

/-- What a lexer may come to, whatever it is asked for and whether or not it succeeds. -/
inductive Reached (start : Lexer) : Lexer → Prop where
  | here : Reached start start
  | next {lexer rest : Lexer} {token : Token} (reached : Reached start lexer)
      (ok : lexer.next = .ok token rest) : Reached start rest
  | nextFails {lexer rest : Lexer} {error : LexError} (reached : Reached start lexer)
      (failed : lexer.next = .error error rest) : Reached start rest
  | rawText {lexer rest : Lexer} {text : String} (reached : Reached start lexer)
      (ok : lexer.rawText = .ok text rest) : Reached start rest
  | rawTextFails {lexer rest : Lexer} {error : LexError} (reached : Reached start lexer)
      (failed : lexer.rawText = .error error rest) : Reached start rest
  | giveBack {lexer : Lexer} (token : Token) (reached : Reached start lexer) :
      Reached start (lexer.giveBack token)

/-! ### No line is empty -/

def LeavesProper {α : Type} : EStateM.Result LexError Lexer α → Prop
  | .ok _ rest | .error _ rest => rest.reader.Proper

variable {lexer rest : Lexer} {reader : Reader}

theorem leavesProper_scan {state : Scan} {symbol : Symbol} (proper : reader.Proper) :
    LeavesProper (scan state symbol reader) := by
  fun_induction scan state symbol reader with
  | case3 state reader char position next step symbol rest isRead smaller ih =>
      exact ih (Reader.proper_of_read proper isRead)
  | case4 state reader char position next step error rest isError =>
      exact (Reader.prospects_read_error proper isError).1
  | _ => exact proper

theorem leavesProper_collect {start : Position} {text : String} {symbol : Symbol}
    (proper : reader.Proper) : LeavesProper (collect start text symbol reader) := by
  fun_induction collect start text symbol reader with
  | case3 text reader char position notQuote symbol rest isRead smaller ih =>
      exact ih (Reader.proper_of_read proper isRead)
  | case4 text reader char position notQuote error rest isError =>
      exact (Reader.prospects_read_error proper isError).1
  | _ => exact proper

theorem leavesProper_symbol (proper : lexer.reader.Proper) : LeavesProper lexer.symbol := by
  unfold symbol
  split
  · exact proper
  · split
    · rename_i isRead
      exact Reader.proper_of_read proper isRead
    · rename_i isError
      exact (Reader.prospects_read_error proper isError).1

theorem leavesProper_next (proper : lexer.reader.Proper) : LeavesProper lexer.next := by
  unfold next
  split
  · exact proper
  · have first := leavesProper_symbol proper
    cases isSymbol : lexer.symbol with
    | ok symbol behind =>
        rw [isSymbol] at first
        exact leavesProper_scan first
    | error error behind =>
        rw [isSymbol] at first
        exact first

theorem leavesProper_rawText (proper : lexer.reader.Proper) : LeavesProper lexer.rawText := by
  unfold rawText
  have first := leavesProper_symbol proper
  cases isSymbol : lexer.symbol with
  | error error behind =>
      rw [isSymbol] at first
      exact first
  | ok symbol behind =>
      rw [isSymbol] at first
      have collected : LeavesProper (collect symbol.position "" symbol behind.reader) :=
        leavesProper_collect first
      dsimp only
      cases isText : collect symbol.position "" symbol behind.reader with
      | ok text inner =>
          rw [isText] at collected
          exact collected
      | error error inner =>
          rw [isText] at collected
          exact collected

theorem Reached.proper {start : Lexer} (reached : Reached start lexer) (proper : start.reader.Proper) :
    lexer.reader.Proper := by
  induction reached with
  | here => exact proper
  | next _ ok ih => simpa [ok, LeavesProper] using leavesProper_next ih
  | nextFails _ failed ih => simpa [failed, LeavesProper] using leavesProper_next ih
  | rawText _ ok ih => simpa [ok, LeavesProper] using leavesProper_rawText ih
  | rawTextFails _ failed ih => simpa [failed, LeavesProper] using leavesProper_rawText ih
  | giveBack token _ ih => exact ih

/-! ### Something is taken -/

theorem remaining_scan_blank {symbol : Symbol} {token : Token}
    (ok : scan .blank symbol reader = .ok token rest) : rest.remaining ≤ reader.remaining := by
  obtain ⟨char?, position⟩ := symbol
  rw [scan.eq_def] at ok
  cases char? with
  | none =>
      cases ok
      exact Nat.le_of_eq (by simp [remaining, ofReader])
  | some char =>
      dsimp only at ok
      split at ok
      · split at ok
        · rename_i next behind isRead
          have fewer := Reader.remaining_read isRead
          have le := (remaining_scan ok).1
          omega
        · cases ok
      · cases ok
        exact Nat.le_of_eq (by simp [remaining, ofReader])
      · rename_i isBefore
        exact absurd isBefore (Scan.start_ne_before char position)
      · cases ok

theorem remaining_next_lt {token : Token} (proper : lexer.reader.Proper) (notEnd : ¬ lexer.AtEnd)
    (ok : lexer.next = .ok token rest) : rest.remaining < lexer.remaining := by
  cases isReturned : lexer.returned with
  | cons first others =>
      simp only [next, isReturned] at ok
      cases ok
      simp only [remaining, isReturned, List.length_cons]
      omega
  | nil =>
      simp only [next, isReturned] at ok
      cases isCarry : lexer.carry with
      | some carried =>
          simp only [symbol, isCarry] at ok
          have le := remaining_scan_blank ok
          simp only [remaining, isReturned, isCarry] at le ⊢
          simp only [Option.isSome_some, if_true, List.length_nil]
          omega
      | none =>
          simp only [symbol, isCarry] at ok
          cases isRead : lexer.reader.read with
          | error error behind => simp only [isRead, reduceCtorEq] at ok
          | ok symbol behind =>
              simp only [isRead] at ok
              have le := remaining_scan_blank ok
              have fewer := Reader.remaining_read isRead
              have isChar : symbol.size = 1 := by
                obtain ⟨char?, position⟩ := symbol
                cases char? with
                | some char => rfl
                | none =>
                    have atEnd := Reader.atEnd_of_read proper isRead
                    exact absurd ⟨isReturned, isCarry, atEnd⟩ notEnd
              have inReader : lexer.reader.remaining ≤ lexer.remaining := Nat.le_add_left _ _
              omega

end Lexer

end MiniPascal
