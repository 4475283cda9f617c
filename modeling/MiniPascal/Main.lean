import MiniPascal.CommandLine.Command

/-!
# The program

Runs the command on the arguments, files and streams of the process.
-/

namespace MiniPascal.CommandLine

def describe (error : IO.Error) : String :=
  match error with
  | .noFileOrDirectory _ code details
  | .permissionDenied _ code details
  | .inappropriateType _ code details => details ++ " (os error " ++ toString code ++ ")"
  | other => toString other

/-- Everything that a stream has to give. -/
partial def readAll (stream : IO.FS.Stream) (bytes : ByteArray) : IO ByteArray := do
  let more ← stream.read 65536
  if more.isEmpty then return bytes else readAll stream (bytes ++ more)

def attempt {α : Type} (action : IO (Except String α)) : IO (Except String α) := do
  try action
  catch error => return .error (describe error)

def putText (stream : IO.FS.Stream) (text : String) : IO Unit := do
  stream.putStr text
  stream.flush

def processHost : Host IO where
  readInput := attempt do return decodeText (← readAll (← IO.getStdin) .empty)
  read path := attempt do
    let handle ← IO.FS.Handle.mk path .read
    return decodeText (← handle.readBinToEnd)
  write path text := attempt do
    IO.FS.writeFile path text
    return .ok ()
  print text := do putText (← IO.getStdout) text
  complain text := do putText (← IO.getStderr) text

end MiniPascal.CommandLine

def main (arguments : List String) : IO UInt32 := do
  return (← MiniPascal.CommandLine.command MiniPascal.CommandLine.processHost arguments).toUInt32
