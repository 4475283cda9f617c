import MiniPascal.Diagnostic
import MiniPascal.Lowering.Statement
import MiniPascal.Parser.Declaration

/-!
# Compiling source texts

A source text is parsed and translated.  The first error found ends both.
-/

namespace MiniPascal

def defaultModuleName : String := "mila"

def compile (source moduleName : String) : Except CompileError IR.Module :=
  match Program.parse source with
  | .error error => .error (.parse error)
  | .ok program =>
      match program.lower moduleName with
      | .error error => .error (.semantic error)
      | .ok ir => .ok ir

end MiniPascal
