import MiniPascal.IR.Basic

/-!
# Modules as text

`Module.dump` writes a module in the manner of a compiler's assembly listing: its name, its globals
one to a line, and its functions, each behind an empty line.
-/

namespace MiniPascal.IR

def ArithOp.mnemonic : ArithOp → String
  | add => "add"
  | sub => "sub"
  | mul => "mul"
  | div => "sdiv"
  | rem => "srem"
  | and => "and"
  | or => "or"
  | xor => "xor"

def Predicate.mnemonic : Predicate → String
  | equal => "eq"
  | notEqual => "ne"
  | less => "slt"
  | greater => "sgt"
  | lessEqual => "sle"
  | greaterEqual => "sge"

def Linkage.name : Linkage → String
  | external => "external"
  | common => "common"
  | internal => "private"

def upperHexDigit (value : Nat) : Char :=
  if value < 10 then Char.ofNat ('0'.toNat + value) else Char.ofNat ('A'.toNat + (value - 10))

/-- A byte of a string: itself if it is a blank or visible and has no other meaning, else its two
hexadecimal digits. -/
def dumpByte (byte : UInt8) : String :=
  let code := byte.toNat
  if 0x20 ≤ code && code ≤ 0x7e && code != 0x22 && code != 0x5c then (Char.ofNat code).toString
  else "\\" ++ (upperHexDigit (code / 16)).toString ++ (upperHexDigit (code % 16)).toString

def Content.dump : Content → String
  | int value => "i32 " ++ toString value
  | array length => "[" ++ toString length ++ " x i32] zeroinitializer"
  | bytes text =>
      "[" ++ toString (text.utf8ByteSize + 1) ++ " x i8] c\""
        ++ String.join (text.toUTF8.toList.map dumpByte) ++ "\\00\""

def Global.dump (global : Global) : String :=
  let linkage := if global.linkage = .external then "" else global.linkage.name ++ " "
  let kind := if global.constant then "constant " else "global "
  "@" ++ global.name ++ " = " ++ linkage ++ kind ++ global.content.dump

/-- The label of each block: its name, with a number behind it if an earlier block has the name. -/
def labelsAfter (seen : List String) : List String → List String
  | [] => []
  | name :: names =>
      let count := seen.count name
      let label := if count = 0 then name else name ++ toString count
      label :: labelsAfter (name :: seen) names

def Function.labels (function : Function) : Array String :=
  (labelsAfter [] (function.blocks.toList.map (·.name))).toArray

def Function.resultType (function : Function) : String :=
  if function.returnsValue then "i32" else "void"

namespace Module

def dumpOperand (ir : Module) : Operand → String
  | .int value => toString value
  | .bool value => if value then "true" else "false"
  | .register register => "%" ++ toString register
  | .argument index => "%arg" ++ toString index
  | .global id => "@" ++ ir.globalName id

def dumpLabel (labels : Array String) (block : BlockId) : String :=
  "label %" ++ labels[block.index]?.getD ""

def dumpCall (ir : Module) (callee : FunctionId) (arguments : List Operand) : String :=
  let type := (ir.functions[callee]?.map (·.resultType)).getD ""
  "call " ++ type ++ " @" ++ ir.functionName callee
    ++ "(" ++ ", ".intercalate (arguments.map ir.dumpOperand) ++ ")"

def dumpInstruction (ir : Module) (labels : Array String) : Instruction → String
  | .arith result op left right =>
      "%" ++ toString result ++ " = " ++ op.mnemonic ++ " " ++ ir.dumpOperand left ++ ", "
        ++ ir.dumpOperand right
  | .compare result predicate left right =>
      "%" ++ toString result ++ " = icmp " ++ predicate.mnemonic ++ " " ++ ir.dumpOperand left
        ++ ", " ++ ir.dumpOperand right
  | .alloca result name => "%" ++ toString result ++ " = alloca i32 ; " ++ name
  | .load result pointer =>
      "%" ++ toString result ++ " = load i32, ptr " ++ ir.dumpOperand pointer
  | .store value pointer =>
      "store " ++ ir.dumpOperand value ++ ", ptr " ++ ir.dumpOperand pointer
  | .element result base index =>
      "%" ++ toString result ++ " = getelementptr i32, ptr " ++ ir.dumpOperand base ++ ", i32 "
        ++ ir.dumpOperand index
  | .call (some result) callee arguments =>
      "%" ++ toString result ++ " = " ++ ir.dumpCall callee arguments
  | .call none callee arguments => ir.dumpCall callee arguments
  | .jump target => "br " ++ dumpLabel labels target
  | .branch condition holds fails =>
      "br " ++ ir.dumpOperand condition ++ ", " ++ dumpLabel labels holds ++ ", "
        ++ dumpLabel labels fails
  | .ret (some value) => "ret i32 " ++ ir.dumpOperand value
  | .ret none => "ret void"

def dumpBlock (ir : Module) (labels : Array String) (label : String) (block : Block) : String :=
  label ++ ":\n"
    ++ String.join (block.instructions.toList.map fun instruction =>
      "  " ++ ir.dumpInstruction labels instruction ++ "\n")

def dumpDeclaration (function : Function) : String :=
  let types :=
    List.replicate function.parameters "ptr" ++ if function.variadic then ["..."] else []
  "declare " ++ function.resultType ++ " @" ++ function.name ++ "(" ++ ", ".intercalate types
    ++ ")\n"

def dumpDefinition (ir : Module) (function : Function) : String :=
  let parameters :=
    (List.range function.parameters).map (fun index => "i32 %arg" ++ toString index)
      ++ if function.variadic then ["..."] else []
  let labels := function.labels
  let blocks :=
    (labels.toList.zip function.blocks.toList).map fun (label, block) =>
      ir.dumpBlock labels label block
  "define " ++ function.resultType ++ " @" ++ function.name ++ "(" ++ ", ".intercalate parameters
    ++ ") \x7b\n" ++ "\n".intercalate blocks ++ "\x7d\n"

def dumpFunction (ir : Module) (function : Function) : String :=
  if function.isDeclaration then dumpDeclaration function else ir.dumpDefinition function

def dump (ir : Module) : String :=
  let globals := ir.globals.toList.map fun global => global.dump ++ "\n"
  let functions := ir.functions.toList.map fun function => "\n" ++ ir.dumpFunction function
  "; ModuleID = '" ++ ir.name ++ "'\n" ++ (if ir.globals.isEmpty then "" else "\n")
    ++ String.join globals ++ String.join functions

end Module

end MiniPascal.IR
