import MiniPascal.Lexical.Error
import MiniPascal.Lexical.Symbol
import MiniPascal.Lexical.Token

/-!
# The scanning automaton

`Scan` is what is known about the token being read, `Scan.step` what one more character makes of
it, and `Scan.result` the token if nothing more belongs to it.

A number is decimal if it starts with a digit from `1` to `9`; octal behind `&` or a leading `0`;
hexadecimal behind `$`, `0x` or `0X`; and a `0` alone is zero.  Values wrap around at 32 bits.
-/

namespace MiniPascal

def digitValue? (base : Nat) (char : Char) : Option Int32 :=
  let value :=
    if char.isDigit then char.toNat - '0'.toNat
    else if 'a' ≤ char && char ≤ 'f' then char.toNat - 'a'.toNat + 10
    else if 'A' ≤ char && char ≤ 'F' then char.toNat - 'A'.toNat + 10
    else base
  if value < base then some (Int32.ofNat value) else none

inductive Scan where
  /-- Between tokens. -/
  | blank
  | comment (origin : Position)
  | word (origin : Position) (text : String)
  | decimal (origin : Position) (value : Int32)
  /-- Behind a leading `0`, which may turn out to open an octal or hexadecimal number. -/
  | zero (origin : Position)
  /-- `digits` tells whether there is a digit yet. -/
  | octal (origin : Position) (value : Int32) (digits : Bool)
  | hex (origin : Position) (value : Int32) (digits : Bool)
  | less (origin : Position)
  | greater (origin : Position)
  | colon (origin : Position)
  deriving Repr, DecidableEq, Inhabited

namespace Scan

inductive Step where
  /-- The character belongs to the token, or to the gap before it. -/
  | more (scan : Scan)
  /-- The character ends the token and belongs to it. -/
  | last (token : Token)
  /-- The token was complete before the character. -/
  | before
  | fail (error : LexError)
  deriving Repr, DecidableEq, Inhabited

def start (char : Char) (position : Position) : Step :=
  match TokenKind.ofChar? char with
  | some kind => .last (.plain kind position)
  | none =>
      match char with
      | '{' => .more (.comment position)
      | '<' => .more (.less position)
      | '>' => .more (.greater position)
      | ':' => .more (.colon position)
      | '$' => .more (.hex position 0 false)
      | '&' => .more (.octal position 0 false)
      | '0' => .more (.zero position)
      | _ =>
          match SymbolClass.ofChar char with
          | .whitespace => .more .blank
          | .letter => .more (.word position char.toString)
          | .digit => .more (.decimal position ((digitValue? 10 char).getD 0))
          | _ => .fail (.invalidSymbol char position)

def step (scan : Scan) (char : Char) (position : Position) : Step :=
  let kind := SymbolClass.ofChar char
  match scan with
  | blank => start char position
  | comment origin => .more (if char == '}' then .blank else .comment origin)
  | word origin text =>
      if kind == .letter || kind == .digit then
        if text.length < maxIdentifierLength then .more (.word origin (text.push char))
        else .fail (.identifierTooLong origin)
      else .before
  | decimal origin value =>
      match digitValue? 10 char with
      | some digit => .more (.decimal origin (value * 10 + digit))
      | none => .before
  | zero origin =>
      if kind == .digit then
        match digitValue? 8 char with
        | some digit => .more (.octal origin digit true)
        | none => .fail (.invalidOctal origin)
      else if kind == .letter then
        if char == 'x' || char == 'X' then .more (.hex origin 0 false)
        else .fail (.invalidHex origin)
      else .before
  | octal origin value _ =>
      match digitValue? 8 char with
      | some digit => .more (.octal origin (value * 8 + digit) true)
      | none =>
          if kind == .digit || kind == .letter then .fail (.invalidOctal origin) else .before
  | hex origin value _ =>
      match digitValue? 16 char with
      | some digit => .more (.hex origin (value * 16 + digit) true)
      | none => if kind == .letter then .fail (.invalidHex origin) else .before
  | less origin =>
      match char with
      | '=' => .last (.plain .lessEqual origin)
      | '>' => .last (.plain .notEqual origin)
      | _ => .before
  | greater origin => if char == '=' then .last (.plain .greaterEqual origin) else .before
  | colon origin => if char == '=' then .last (.plain .assign origin) else .before

/-- What the characters so far amount to if the token ends at `position`. -/
def result (scan : Scan) (position : Position) : Except LexError Token :=
  match scan with
  | blank => .ok (.plain .endOfInput position)
  | comment origin => .error (.unterminatedComment origin)
  | word origin text => .ok (.word text origin)
  | decimal origin value => .ok (.number value origin)
  | zero origin => .ok (.number 0 origin)
  | octal origin value digits =>
      if digits then .ok (.number value origin) else .error (.invalidOctal origin)
  | hex origin value digits =>
      if digits then .ok (.number value origin) else .error (.invalidHex origin)
  | less origin => .ok (.plain .less origin)
  | greater origin => .ok (.plain .greater origin)
  | colon origin => .ok (.plain .colon origin)

end Scan

end MiniPascal
