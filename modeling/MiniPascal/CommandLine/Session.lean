import MiniPascal.CommandLine.Command
import MiniPascal.CommandLine.FileSystem

/-!
# Sessions

A session is all that the command can reach, held in memory: the command can be run in it without a
process or a disk.
-/

namespace MiniPascal.CommandLine

structure Session where
  /-- What standard input holds. -/
  input : List UInt8
  output : String
  errors : String
  files : FileSystem
  deriving Repr, DecidableEq, Inhabited

namespace Session

def start (input : List UInt8) (files : List (String × String)) : Session :=
  ⟨input, "", "", .ofFiles files⟩

def print (session : Session) (text : String) : Session :=
  { session with output := session.output ++ text }

def complain (session : Session) (text : String) : Session :=
  { session with errors := session.errors ++ text }

def readInput (session : Session) : Except String String := decodeText ⟨session.input.toArray⟩

def read (session : Session) (path : String) : Except String String :=
  match session.files.fileAt path with
  | .error error => .error error.message
  | .ok (.text text) => .ok text
  | .ok (.device .standardInput) => session.readInput
  | .ok (.device _) => .ok ""

def write (session : Session) (path text : String) : Except String Session :=
  match session.files.targetOf path with
  | .error error => .error error.message
  | .ok names =>
      match session.files.placeAt names with
      | .file (.device .standardOutput) => .ok (session.print text)
      | .file (.device .standardError) => .ok (session.complain text)
      | .file (.device _) => .ok session
      | _ => .ok { session with files := session.files.put names text }

def host : Host (StateM Session) where
  readInput := return (← get).readInput
  read path := return (← get).read path
  write path text := do
    match (← get).write path text with
    | .ok session =>
        set session
        return .ok ()
    | .error reason => return .error reason
  print text := modify (·.print text)
  complain text := modify (·.complain text)

def runCommand (session : Session) (arguments : List String) : UInt8 × Session :=
  (command host arguments).run session

end Session

end MiniPascal.CommandLine
