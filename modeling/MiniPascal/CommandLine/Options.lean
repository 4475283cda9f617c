/-!
# Options of the command

The command takes one source file, or `-` for standard input.  `-p`, `-d` and `-r` print, dump and
run the program, `-o` writes the dump to a file, and `--input` gives the integers that a run reads.
Short options can be joined, and behind `--` everything is a file name.
-/

namespace MiniPascal.CommandLine

structure Options where
  source : String
  print : Bool
  dump : Bool
  run : Bool
  output : Option String
  input : List Int32
  deriving Repr, DecidableEq, Inhabited

namespace Options

def initial : Options := ⟨"", false, false, false, none, []⟩

def digits? (chars : List Char) : Option Nat :=
  if !chars.isEmpty && chars.all (·.isDigit) then
    some (chars.foldl (fun value digit => value * 10 + (digit.toNat - '0'.toNat)) 0)
  else none

def integer? (text : String) : Option Int32 :=
  match text.toList with
  | '-' :: chars => (digits? chars).map fun value => Int32.ofInt (-value)
  | '+' :: chars => (digits? chars).map Int32.ofNat
  | chars => (digits? chars).map Int32.ofNat

def takeIntegers (options : Options) : List String → Options × List String
  | [] => (options, [])
  | argument :: arguments =>
      match integer? argument with
      | some value =>
          takeIntegers { options with input := options.input ++ [value] } arguments
      | none => (options, argument :: arguments)

def attached (chars : List Char) : String :=
  match chars with
  | '=' :: value => String.ofList value
  | value => String.ofList value

def shorts (options : Options) (arguments : List String) : List Char → Options × List String
  | [] => (options, arguments)
  | ['o'] =>
      match arguments with
      | value :: rest => ({ options with output := some value }, rest)
      | [] => (options, [])
  | 'o' :: value => ({ options with output := some (attached value) }, arguments)
  | 'p' :: others => shorts { options with print := true } arguments others
  | 'd' :: others => shorts { options with dump := true } arguments others
  | 'r' :: others => shorts { options with run := true } arguments others
  | _ :: others => shorts options arguments others

def first (options : Options) (argument : String) (arguments : List String) :
    Options × List String :=
  match argument.toList with
  | ['-', '-'] =>
      match arguments with
      | source :: rest => ({ options with source := source }, rest)
      | [] => (options, [])
  | '-' :: '-' :: name =>
      if name = "print".toList then ({ options with print := true }, arguments)
      else if name = "dump".toList then ({ options with dump := true }, arguments)
      else if name = "run".toList then ({ options with run := true }, arguments)
      else if name = "verbose".toList then (options, arguments)
      else if name = "input".toList then options.takeIntegers arguments
      else if name = "output".toList then options.shorts arguments ['o']
      else if "input=".toList.isPrefixOf name then
        ((options.takeIntegers [String.ofList (name.drop 6)]).1, arguments)
      else if "output=".toList.isPrefixOf name then
        ({ options with output := some (String.ofList (name.drop 7)) }, arguments)
      else (options, arguments)
  | '-' :: letter :: letters => options.shorts arguments (letter :: letters)
  | _ => ({ options with source := argument }, arguments)

def parseFrom (options : Options) : Nat → List String → Options
  | _, [] => options
  | 0, _ => options
  | count + 1, argument :: arguments =>
      let (options, rest) := options.first argument arguments
      options.parseFrom count rest

def parse (arguments : List String) : Options := initial.parseFrom arguments.length arguments

end Options

end MiniPascal.CommandLine
