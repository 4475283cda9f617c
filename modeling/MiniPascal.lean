import MiniPascal.CommandLine.Session
import MiniPascal.Main
import MiniPascal.Proofs.Acceptance.Else
import MiniPascal.Proofs.Acceptance.Phrases
import MiniPascal.Proofs.Diagnostics.Translation
import MiniPascal.Proofs.Execution.Counting
import MiniPascal.Proofs.Execution.Elements
import MiniPascal.Proofs.Execution.Writing
import MiniPascal.Proofs.IR.Labels
import MiniPascal.Proofs.IR.Naming
import MiniPascal.Proofs.Layout.Programs
import MiniPascal.Proofs.Lexical.Numerals
import MiniPascal.Proofs.Lexical.Symbols
import MiniPascal.Proofs.Parser.Declarations
import MiniPascal.Proofs.Parser.RawText
import MiniPascal.Proofs.Parser.Termination
import MiniPascal.Proofs.Lowering.ConstantValues
import MiniPascal.Proofs.Lowering.DefinedNames
import MiniPascal.Proofs.Lowering.Forwards
import MiniPascal.Proofs.Lowering.Scoped
import MiniPascal.Proofs.Machine.Limits
import MiniPascal.Proofs.Machine.Texts
import MiniPascal.Proofs.Printing.Stability
import MiniPascal.Proofs.Printing.Translation
import MiniPascal.Proofs.Scope.Histories
import MiniPascal.Proofs.Simulation.Folding
import MiniPascal.Proofs.Simulation.Results
