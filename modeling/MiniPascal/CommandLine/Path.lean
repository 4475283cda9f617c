/-!
# File names

A path is read as its components, of which empty ones and `.` say nothing.
-/

namespace MiniPascal.CommandLine

def splitAt {α : Type} (separates : α → Bool) : List α → List (List α)
  | [] => [[]]
  | a :: rest =>
      if separates a then [] :: splitAt separates rest
      else
        match splitAt separates rest with
        | [] => [[a]]
        | piece :: pieces => (a :: piece) :: pieces

def pieces (path : String) : List String := (splitAt (· == '/') path.toList).map String.ofList

def stays (piece : String) : Bool := piece == "" || piece == "."

def components (path : String) : List String := (pieces path).filter fun piece => !stays piece

def withoutSlashes (path : String) : String :=
  String.ofList (path.toList.reverse.dropWhile (· == '/')).reverse

def stem (name : List Char) : List Char :=
  let reversed := name.reverse
  match reversed.dropWhile (· != '.') with
  | _ :: front => if front.isEmpty then name else front.reverse
  | [] => name

def fileStem? (path : String) : Option String :=
  match (components path).getLast? with
  | some name => if name = ".." then none else some (String.ofList (stem name.toList))
  | none => none

end MiniPascal.CommandLine
