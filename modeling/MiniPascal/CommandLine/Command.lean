import MiniPascal.CommandLine.Options
import MiniPascal.CommandLine.Path
import MiniPascal.Compile
import MiniPascal.IR.Dump
import MiniPascal.Machine.Run

/-!
# The command

`command` does what the options say, in the surroundings of a `Host`.  It prints the program,
compiles it, dumps the module, writes the dump to a file and runs the program, in this order.  The
first failure ends it with the exit code one; otherwise the value of a program that has been run is
the exit code.
-/

namespace MiniPascal.CommandLine

/-- How the command reaches its surroundings.  A failure says why. -/
structure Host (m : Type → Type) where
  readInput : m (Except String String)
  read : String → m (Except String String)
  write : String → String → m (Except String Unit)
  print : String → m Unit
  complain : String → m Unit

def decodeText (bytes : ByteArray) : Except String String :=
  match String.fromUTF8? bytes with
  | some text => .ok text
  | none => .error "stream did not contain valid UTF-8"

/-! ### Messages -/

def brightRed : String := "\x1b[38;5;9m"

def bold : String := "\x1b[1m"

def faint : String := "\x1b[2m"

def plain : String := "\x1b[0m"

def showCompileError (error : CompileError) (source : String) : String :=
  match Text.lines (error.render source) with
  | [] => ""
  | headline :: others =>
      brightRed ++ bold ++ headline ++ plain ++ "\n"
        ++ String.join (others.map fun line => faint ++ line ++ plain ++ "\n")

def showFailure (doing reason : String) : String :=
  brightRed ++ bold ++ "error:" ++ plain ++ " " ++ doing ++ ": " ++ reason ++ "\n"

/-! ### Stages -/

def moduleName (source : String) : String :=
  match fileStem? source with
  | some name => if name = "-" then defaultModuleName else name
  | none => defaultModuleName

section

variable {m : Type → Type} [Monad m]

abbrev Work (m : Type → Type) := ExceptT String m

def doing {α : Type} (what : String) (action : m (Except String α)) : Work m α :=
  ExceptT.adapt (showFailure what) (ExceptT.mk action)

def compiling {α : Type} (source : String) (result : Except CompileError α) : Work m α :=
  ExceptT.mk (pure (result.mapError fun error => showCompileError error source))

def readSource (host : Host m) (path : String) : Work m String :=
  if path = "-" then doing "reading stdin" host.readInput
  else doing ("reading " ++ path) (host.read path)

/-- Runs a program, which has printed what it has printed even if it fails.  What the compiler makes of
a source has all that it names, so there is never a panic to report. -/
def runModule (host : Host m) (input : List Int32) (ir : IR.Module) : Work m UInt8 := do
  let start := Machine.State.start ir (Console.withInput input)
  let (result, state) := start.runFunction ir .standard mainName
  host.print state.console.output
  let value ← doing "running program" (pure (result.mapError (·.message)))
  return value.toUInt32.toUInt8

def stages (host : Host m) (options : Options) : Work m UInt8 := do
  let source ← readSource host options.source
  if options.print then
    let program ← compiling source ((Program.parse source).mapError .parse)
    host.print program.render
  let ir ← compiling source (compile source (moduleName options.source))
  if options.dump then host.print ir.dump
  match options.output with
  | some path => doing ("writing " ++ path) (host.write path ir.dump)
  | none => pure ()
  if options.run then runModule host options.input ir else return 0

def command (host : Host m) (arguments : List String) : m UInt8 := do
  match ← (stages host (Options.parse arguments)).run with
  | .ok exit => return exit
  | .error message =>
      host.complain message
      return 1

end

end MiniPascal.CommandLine
