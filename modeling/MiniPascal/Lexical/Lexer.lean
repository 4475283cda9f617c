import MiniPascal.Lexical.Reader
import MiniPascal.Lexical.Scan

/-!
# Tokens on demand

A lexer gives one token at a time.  Tokens can be handed back, and come again before anything new
is read.  Between the two quotes of a literal, raw text is read instead of tokens.

After an error the lexer goes on behind the symbols it has read so far.
-/

namespace MiniPascal

structure Lexer where
  reader : Reader
  /-- The symbol that ended the last token without belonging to it. -/
  carry : Option Symbol
  /-- Tokens handed back, the one to come first in front. -/
  returned : List Token
  deriving Repr, DecidableEq, Inhabited

namespace Lexer

def ofReader (reader : Reader) : Lexer := ⟨reader, none, []⟩

def ofText (text : String) : Lexer := ofReader (Reader.ofText text)

def scan (state : Scan) (symbol : Symbol) (reader : Reader) :
    EStateM.Result LexError Lexer Token :=
  match symbol with
  | ⟨none, position⟩ =>
      match state.result position with
      | .ok token => .ok token (ofReader reader)
      | .error error => .error error (ofReader reader)
  | ⟨some char, position⟩ =>
      match state.step char position with
      | .more state =>
          match success : reader.read with
          | .ok next rest =>
              have := Reader.remaining_read success
              scan state next rest
          | .error error rest => .error error (ofReader rest)
      | .last token => .ok token (ofReader reader)
      | .before =>
          match state.result position with
          | .ok token => .ok token ⟨reader, some ⟨some char, position⟩, []⟩
          | .error error => .error error (ofReader reader)
      | .fail error => .error error (ofReader reader)
termination_by reader.remaining + symbol.size
decreasing_by simp only [Symbol.size] at *; omega

def collect (start : Position) (text : String) (symbol : Symbol) (reader : Reader) :
    EStateM.Result LexError Lexer String :=
  match symbol with
  | ⟨none, _⟩ => .error (.unterminatedString start) (ofReader reader)
  | ⟨some char, position⟩ =>
      if char == '\'' then .ok text ⟨reader, some ⟨some char, position⟩, []⟩
      else
        match success : reader.read with
        | .ok next rest =>
            have := Reader.remaining_read success
            collect start (text.push char) next rest
        | .error error rest => .error error (ofReader rest)
termination_by reader.remaining + symbol.size
decreasing_by simp only [Symbol.size] at *; omega

def symbol : EStateM LexError Lexer Symbol := fun lexer =>
  match lexer.carry with
  | some symbol => .ok symbol { lexer with carry := none }
  | none =>
      match lexer.reader.read with
      | .ok symbol rest => .ok symbol { lexer with reader := rest }
      | .error error rest => .error error { lexer with reader := rest }

def next : EStateM LexError Lexer Token := fun lexer =>
  match lexer.returned with
  | token :: returned => .ok token { lexer with returned := returned }
  | [] =>
      match lexer.symbol with
      | .ok symbol lexer => scan .blank symbol lexer.reader
      | .error error lexer => .error error lexer

def giveBack (token : Token) (lexer : Lexer) : Lexer :=
  { lexer with returned := token :: lexer.returned }

/-- The raw text up to the next quote, past any tokens handed back. -/
def rawText : EStateM LexError Lexer String := fun lexer =>
  match lexer.symbol with
  | .error error lexer => .error error lexer
  | .ok symbol ⟨reader, _, returned⟩ =>
      match collect symbol.position "" symbol reader with
      | .ok text lexer => .ok text { lexer with returned := returned }
      | .error error lexer => .error error { lexer with returned := returned }

end Lexer

end MiniPascal
