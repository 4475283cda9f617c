import MiniPascal.Builtin
import MiniPascal.IR.Builder
import MiniPascal.Scope.Error

/-!
# Symbol tables

Names are kept in three tables: globals, the locals of the callable being translated, and forward
declarations.  A name is looked up among the locals, then among the forward declarations, then among
the globals.  It can be declared if the table it goes to does not have it, so that a local name may
hide a global one.
-/

namespace MiniPascal

inductive Shape where
  | integer
  /-- Both bounds are indices. -/
  | array (low high : Int32)
  | callable (parameters : Nat) (returnsValue : Bool)
  deriving Repr, DecidableEq, Inhabited

inductive Storage where
  | address (pointer : IR.Operand)
  | function (id : IR.FunctionId)
  | builtin (builtin : Builtin)
  deriving Repr, DecidableEq, Inhabited

structure Entry where
  shape : Shape
  storage : Storage
  /-- The value of a constant; variables and callables have none. -/
  constant : Option Int32
  position : Position
  deriving Repr, DecidableEq, Inhabited

def Entry.address? (entry : Entry) : Option IR.Operand :=
  match entry.storage with
  | .address pointer => some pointer
  | _ => none

/-- Names with what they stand for, the last declared in front. -/
abbrev Table := List (String × Entry)

def Table.has (table : Table) (name : String) : Bool := (table.lookup name).isSome

structure Enclosing where
  function : IR.FunctionId
  name : String
  deriving Repr, DecidableEq, Inhabited

structure SymbolTable where
  globals : Table
  locals : Table
  forwards : Table
  /-- Present in local scope. -/
  enclosing : Option Enclosing
  deriving Repr, DecidableEq, Inhabited

namespace SymbolTable

def empty : SymbolTable := ⟨[], [], [], none⟩

/-! ### Scopes -/

def enter (table : SymbolTable) (function : IR.FunctionId) (name : String) : SymbolTable :=
  { table with enclosing := some ⟨function, name⟩ }

def leave (table : SymbolTable) : SymbolTable := { table with enclosing := none, locals := [] }

def current (table : SymbolTable) : Table :=
  if table.enclosing.isSome then table.locals else table.globals

/-! ### Look-up -/

/-- What a callable's name stands for, whatever locals hide it. -/
def getOuter? (table : SymbolTable) (name : String) : Option Entry :=
  (table.forwards.lookup name).or (table.globals.lookup name)

def get? (table : SymbolTable) (name : String) : Option Entry :=
  if table.enclosing.isSome then (table.locals.lookup name).or (table.getOuter? name)
  else table.getOuter? name

def enclosingCallable? (table : SymbolTable) : Option Entry := do
  table.getOuter? (← table.enclosing).name

def has (table : SymbolTable) (name : String) : Bool :=
  table.globals.has name || table.current.has name || table.forwards.has name

def undefinedForwards (table : SymbolTable) : Table :=
  table.forwards.filter fun (name, _) => !table.globals.has name

/-! ### Checks -/

def declared (table : SymbolTable) (name : String) (position : Position) :
    Except SemanticError Entry :=
  match table.get? name with
  | some entry => .ok entry
  | none => .error (.undeclared name position)

def notDeclared (table : SymbolTable) (name : String) (position : Position) :
    Except SemanticError Unit :=
  if table.current.has name then .error (.redeclared name position) else .ok ()

def notDeclaredForward (table : SymbolTable) (name : String) (position : Position) :
    Except SemanticError Unit :=
  if table.forwards.has name then .error (.redeclared name position) else .ok ()

def constant (table : SymbolTable) (name : String) (position : Position) :
    Except SemanticError Entry := do
  let entry ← table.declared name position
  if entry.constant.isSome then return entry else throw (.notConstant (.ident name) position)

def notConstant (table : SymbolTable) (name : String) (position : Position) :
    Except SemanticError Entry := do
  let entry ← table.declared name position
  if entry.constant.isSome then throw (.assignToConst name position) else return entry

/-! ### Entries -/

def add (table : SymbolTable) (name : String) (entry : Entry) : SymbolTable :=
  if table.enclosing.isSome then { table with locals := (name, entry) :: table.locals }
  else { table with globals := (name, entry) :: table.globals }

def addForward (table : SymbolTable) (name : String) (entry : Entry) : SymbolTable :=
  { table with forwards := (name, entry) :: table.forwards }

def arrayLength (low high : Int32) : Nat := (high.toInt - low.toInt + 1).toNat

end SymbolTable

end MiniPascal
