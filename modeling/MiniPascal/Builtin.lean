/-!
# Built-in callables

The callables that come with the language.  `write` takes literal text, `readln` and `dec` take
something a value can be stored in, and `writeln` takes any expression.
-/

namespace MiniPascal

inductive Builtin where
  | writeln
  | readln
  | write
  | dec
  | exit
  deriving Repr, DecidableEq, Inhabited

namespace Builtin

def all : List Builtin := [writeln, readln, write, dec, exit]

def name : Builtin → String
  | writeln => "writeln"
  | readln => "readln"
  | write => "write"
  | dec => "dec"
  | exit => "exit"

def ofName? (text : String) : Option Builtin := all.find? fun builtin => builtin.name == text

def parameterCount : Builtin → Nat
  | exit => 0
  | _ => 1

def returnsValue : Builtin → Bool
  | writeln | readln => true
  | write | dec | exit => false

end Builtin

end MiniPascal
