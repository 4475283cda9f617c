import MiniPascal.Machine.State

/-!
# Functions outside of the module

`printf` prints a format with its conversions replaced, and gives the number of bytes printed.
`scanf` reads an integer for each `%d` of its format, and gives how many it read, or `-1` if there
was not even one.  All others have no body to run.
-/

namespace MiniPascal.Machine

namespace Run

def convert (conversion : Conversion) (argument : Word) : Run String :=
  match conversion, argument with
  | .integer, .int value => return toString value
  | .text, .pointer pointer => text (.pointer pointer)
  | _, _ => throw (.failed (.invalidFormat (.mismatch conversion argument)))

/-- The text of a format.  `%d` takes an integer, `%s` a text, and `%%` is a percent sign. -/
def format : List Char → List Word → Run (List Char)
  | [], _ => return []
  | char :: rest, arguments =>
      if char ≠ '%' then return char :: (← format rest arguments)
      else
        match rest with
        | [] => throw (.failed (.invalidFormat (.unsupported none)))
        | '%' :: rest => return '%' :: (← format rest arguments)
        | letter :: rest =>
            match Conversion.ofChar? letter, arguments with
            | none, _ => throw (.failed (.invalidFormat (.unsupported (some letter))))
            | some _, [] => throw (.failed (.invalidFormat .missingArgument))
            | some conversion, argument :: arguments => do
                let first ← convert conversion argument
                return first.toList ++ (← format rest arguments)

def conversions : List Char → Nat
  | '%' :: 'd' :: rest => conversions rest + 1
  | _ :: rest => conversions rest
  | [] => 0

/-- Reads an integer to each pointer, after so many that have been read. -/
def scan (ir : IR.Module) (function : IR.FunctionId) : Int32 → List Word → Run Word
  | done, [] => return .int done
  | _, .int _ :: _ => throw (.failed (.invalidPointer (ir.functionName function)))
  | done, .pointer pointer :: arguments => do
      match ← readInt with
      | none => return .int (if done = 0 then -1 else done)
      | some value =>
          store ir function pointer value
          scan ir function (done + 1) arguments

def callExternal (ir : IR.Module) (function : IR.FunctionId) (arguments : List Word) : Run Word := do
  let name := ir.functionName function
  match arguments with
  | [] => throw (.failed (.invalidFormat (.missingFormat name)))
  | first :: others =>
      let format := (← text first).toList
      if name = "printf" then
        let output := String.ofList (← Run.format format others)
        print output
        return .int (Int32.ofNat output.utf8ByteSize)
      else if name = "scanf" then scan ir function 0 (others.take (conversions format))
      else throw (.failed (.missingBody name))

end Run

end MiniPascal.Machine
