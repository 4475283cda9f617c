import Mathlib.Control.Monad.Basic
import MiniPascal.Lowering.Basic

/-!
# Evaluation of trees

What a program means, said on its tree and without any code.  Integers have 32 bits and wrap
around.  Operands, arguments and indices are evaluated from left to right, the index of an element
that is assigned before its value, and both sides of `and` and `or` always.

A name means the nearest declaration: a local one, or else a global one.  Variables of a callable
live as long as a call; arrays live as long as the program, also those that a callable declares.
A callable's name stands for its result where it is assigned, and where it is read and takes
arguments; read without arguments it is a call.  In its own body the result has a name besides.

Evaluation counts down a fuel, by one for each call and each round of a loop around another.
-/

namespace MiniPascal

def truth (holds : Bool) : Int32 := if holds then 1 else 0

def BinaryOp.compute? (op : BinaryOp) (left right : Int32) : Option Int32 :=
  match op with
  | add => some (left + right)
  | sub => some (left - right)
  | mul => some (left * right)
  | div => if right = 0 then none else some (left / right)
  | mod => if right = 0 then none else some (left % right)
  | equal => some (truth (left = right))
  | notEqual => some (truth (left ≠ right))
  | less => some (truth (left < right))
  | greater => some (truth (left > right))
  | lessEqual => some (truth (left ≤ right))
  | greaterEqual => some (truth (left ≥ right))
  | and => some (left &&& right)
  | or => some (left ||| right)

def Expr.constant? (constants : String → Option Int32) : Expr → Option Int32
  | ident name _ => constants name
  | number value _ => some value
  | binary op left right _ => do
      let left ← left.constant? constants
      let right ← right.constant? constants
      op.compute? left right
  | negate operand _ => return -(← operand.constant? constants)
  | not operand _ => return (← operand.constant? constants) ^^^ 1
  | literal _ _ | element _ _ _ | call _ _ _ => none

namespace Evaluation

/-! ### Memory -/

/-- Why an evaluation ends early. -/
inductive Stop where
  | divisionByZero
  | outOfBounds
  /-- The tree does not say what to do: a name is not declared, or not as what it is used for. -/
  | meaningless
  | outOfFuel
  deriving Repr, DecidableEq, Inhabited

structure ArrayName where
  owner : Option String
  name : String
  deriving Repr, DecidableEq, Inhabited

structure Memory where
  /-- Global variables. -/
  globals : String → Int32
  /-- Elements, counted from the lower bound. -/
  arrays : ArrayName → Nat → Int32
  /-- Parameters and variables of the call being evaluated. -/
  locals : String → Int32
  /-- The result so far of the call being evaluated. -/
  result : Int32
  /-- All that has been printed. -/
  output : String
  /-- The integers that have not been read. -/
  input : List Int32

inductive Place where
  | global (name : String)
  | local (name : String)
  | result
  /-- An element by its offset, which may lie outside of the array. -/
  | element (array : ArrayName) (length : Nat) (offset : Int)
  deriving Repr, DecidableEq, Inhabited

abbrev Eval := EStateM Stop Memory

def change {α β : Type} [DecidableEq α] (f : α → β) (place : α) (value : β) : α → β :=
  fun other => if other = place then value else f other

def checkOffset (length : Nat) (offset : Int) : Eval Nat :=
  if 0 ≤ offset ∧ offset < length then return offset.toNat else throw .outOfBounds

def read : Place → Eval Int32
  | .global name => return (← get).globals name
  | .local name => return (← get).locals name
  | .result => return (← get).result
  | .element array length offset => do
      let index ← checkOffset length offset
      return (← get).arrays array index

def write (place : Place) (value : Int32) : Eval Unit :=
  match place with
  | .global name => modify fun memory =>
      { memory with globals := change memory.globals name value }
  | .local name => modify fun memory => { memory with locals := change memory.locals name value }
  | .result => modify fun memory => { memory with result := value }
  | .element array length offset => do
      let index ← checkOffset length offset
      modify fun memory =>
        { memory with arrays := change memory.arrays array (change (memory.arrays array) index value) }

def print (text : String) : Eval Int32 := do
  modify fun memory => { memory with output := memory.output ++ text }
  return Int32.ofNat text.utf8ByteSize

def readTo (place : Place) : Eval Int32 := do
  match (← get).input with
  | [] => return -1
  | value :: rest =>
      modify fun memory => { memory with input := rest }
      write place value
      return 1

/-! ### Names -/

inductive Meaning where
  | constant (value : Int32)
  /-- An integer variable. -/
  | scalar (place : Place)
  | array (array : ArrayName) (low high : Int32)
  | callable (heading : Heading) (body : List Statement)
  | builtin (builtin : Builtin)

abbrev Names := List (String × Meaning)

structure Scope where
  /-- The nearest declaration in front. -/
  names : Names
  /-- The callable whose body this is. -/
  callable : Option Heading

def elements (low high : Int32) : Nat := (high.toInt - low.toInt + 1).toNat

namespace Scope

def find? (scope : Scope) (name : String) : Option Meaning := scope.names.lookup name

def constant? (scope : Scope) (name : String) : Option Int32 :=
  match scope.find? name with
  | some (.constant value) => some value
  | _ => none

def add (scope : Scope) (name : String) (meaning : Meaning) : Scope :=
  { scope with names := (name, meaning) :: scope.names }

def place (scope : Scope) (name : String) : Place :=
  if scope.callable.isSome then .local name else .global name

def declare? (scope : Scope) : Statement → Option Scope
  | .vars ⟨names, .integer, _⟩ =>
      return names.foldl (fun scope name => scope.add name (.scalar (scope.place name))) scope
  | .vars ⟨names, .array low high, _⟩ => do
      let low ← low.constant? scope.constant?
      let high ← high.constant? scope.constant?
      return names.foldl (fun scope name =>
        scope.add name (.array ⟨scope.callable.map (·.name), name⟩ low high)) scope
  | .constant name value _ => do
      let value ← value.constant? scope.constant?
      return scope.add name (.constant value)
  | _ => none

def atEntry (globals : Names) (heading : Heading) : Scope :=
  let scope : Scope := ⟨globals, some heading⟩
  let scope :=
    if heading.returns.isSome then scope.add (resultName heading.name) (.scalar .result) else scope
  heading.parameterNames.foldl (fun scope name => scope.add name (.scalar (.local name))) scope

def ofBody? (globals : Names) (heading : Heading) (declarations : List Statement) :
    Option Scope :=
  declarations.foldlM declare? (atEntry globals heading)

def returnsFrom (scope : Scope) (heading : Heading) : Bool :=
  scope.callable.any fun own => own.name == heading.name && own.returns.isSome

end Scope

/-! ### Expressions -/

section

-- `invoke` evaluates a call of a callable that is not built in.
variable (invoke : Heading → List Statement → List Int32 → Eval (Option Int32)) (scope : Scope)

def namePlace (name : String) : Eval Place :=
  match scope.find? name with
  | some (.scalar place) => return place
  | some (.callable heading _) =>
      if scope.returnsFrom heading then return .result else throw .meaningless
  | _ => throw .meaningless

/-- The place of an element, counted from the lower bound with 32 bits. -/
def elementPlace (array : String) (index : Eval Int32) : Eval Place :=
  match scope.find? array with
  | some (.array array low high) => do
      let index ← index
      return .element array (elements low high) (index - low).toInt
  | _ => throw .meaningless

def asValue : Option Int32 → Eval Int32
  | some value => return value
  | none => throw .meaningless

def nameValue (name : String) : Eval Int32 :=
  match scope.find? name with
  | some (.constant value) => return value
  | some (.scalar place) => read place
  | some (.callable heading body) =>
      if heading.parameterCount = 0 then do asValue (← invoke heading body [])
      else if scope.returnsFrom heading then read .result
      else throw .meaningless
  | _ => throw .meaningless

def decrement (place : Place) : Eval Unit := do
  let value ← read place
  write place (value - 1)

/-- What `write` prints of a text: the part in front of the first NUL character. -/
def printed (text : String) : String := String.ofList (text.toList.takeWhile (· ≠ '\x00'))

def call (name : String) (arguments : List Expr) (values : Eval (List Int32)) (place : Eval Place) :
    Eval (Option Int32) :=
  match scope.find? name with
  | some (.callable heading body) =>
      if arguments.length = heading.parameterCount then do invoke heading body (← values)
      else throw .meaningless
  | some (.builtin builtin) =>
      match builtin, arguments with
      | .writeln, [_] => do
          match ← values with
          | [value] => return some (← print (toString value ++ "\n"))
          | _ => throw .meaningless
      | .readln, [_] => do return some (← readTo (← place))
      | .write, [.literal text _] => do
          let _ ← print (printed text)
          return none
      | .dec, [.ident _ _] => do
          decrement (← place)
          return none
      | _, _ => throw .meaningless
  | _ => throw .meaningless

mutual

def value : Expr → Eval Int32
  | .ident name _ => nameValue invoke scope name
  | .number value _ => return value
  | .literal _ _ => throw .meaningless
  | .binary op left right _ => do
      let left ← value left
      let right ← value right
      match op.compute? left right with
      | some value => return value
      | none => throw .divisionByZero
  | .negate operand _ => return -(← value operand)
  | .not operand _ => return (← value operand) ^^^ 1
  | .element array index _ => do read (← elementPlace scope array (value index))
  | .call name arguments _ => do
      asValue (← call invoke scope name arguments (values arguments) (firstPlace arguments))

def place : Expr → Eval Place
  | .ident name _ => namePlace scope name
  | .element array index _ => elementPlace scope array (value index)
  | _ => throw .meaningless

def values : List Expr → Eval (List Int32)
  | [] => return []
  | first :: others => do
      let first ← value first
      return first :: (← values others)

def firstPlace : List Expr → Eval Place
  | [] => throw .meaningless
  | first :: _ => place first

end

/-! ### Statements -/

inductive Progress where
  | next
  /-- Behind the loop. -/
  | left (loop : LoopId)
  /-- The end of the callable. -/
  | exited
  deriving Repr, DecidableEq, Inhabited

def assign (assignment : Assignment) : Eval Unit := do
  let place ← place invoke scope assignment.target
  let value ← value invoke scope assignment.value
  write place value

def holds (condition : Expr) : Eval Bool := return (← value invoke scope condition) ≠ 0

def withinLimit (counter : Expr) (direction : Direction) (limit : Expr) : Eval Bool := do
  let limit ← value invoke scope limit
  let current ← value invoke scope counter
  match direction with
  | .upward => return current ≤ limit
  | .downward => return current ≥ limit

def advance (counter : Expr) (direction : Direction) : Eval Unit := do
  let place ← place invoke scope counter
  let current ← value invoke scope counter
  match direction with
  | .upward => write place (current + 1)
  | .downward => write place (current - 1)

def rounds (id : LoopId) (test : Eval Bool) (body : Eval Progress) : Nat → Eval Progress
  | 0 => throw .outOfFuel
  | fuel + 1 => do
      if ← test then
        match ← body with
        | .next => rounds id test body fuel
        | .left loop => return if loop = id then .next else .left loop
        | .exited => return .exited
      else return .next

mutual

def statement (fuel : Nat) : Statement → Eval Progress
  | .call name arguments _ =>
      match scope.find? name, arguments with
      | some (.builtin .exit), [] => return .exited
      | _, _ => do
          let _ ← call invoke scope name arguments (values invoke scope arguments)
            (firstPlace invoke scope arguments)
          return .next
  | .assign assignment => do
      assign invoke scope assignment
      return .next
  | .block body => statements fuel body
  | .ifThen condition body _ => do
      if ← holds invoke scope condition then statement fuel body else return .next
  | .ifThenElse condition body other _ => do
      if ← holds invoke scope condition then statement fuel body else statement fuel other
  | .whileLoop id condition body _ =>
      rounds id (holds invoke scope condition) (statement fuel body) fuel
  | .forLoop id initial direction limit body _ => do
      assign invoke scope initial
      rounds id (withinLimit invoke scope initial.target direction limit)
        (do
          let progress ← statement fuel body
          if progress = .next then advance invoke scope initial.target direction
          return progress) fuel
  | .leave loop _ => return .left loop
  | .program _ | .vars _ | .constant _ _ _ | .forward _ | .callable _ _ => throw .meaningless

def statements (fuel : Nat) : List Statement → Eval Progress
  | [] => return .next
  | first :: others => do
      match ← statement fuel first with
      | .next => statements fuel others
      | progress => return progress

end

end

/-! ### Callables and programs -/

/-- A call: the body is evaluated with variables of its own, which are zero at first but for the
parameters. -/
def invoke (globals : Names) : Nat → Heading → List Statement → List Int32 → Eval (Option Int32)
  | 0, _, _, _ => throw .outOfFuel
  | fuel + 1, heading, body, arguments =>
      match Scope.ofBody? globals heading (body.takeWhile (·.isDeclaration)) with
      | none => throw .meaningless
      | some scope => do
          let caller ← get
          let locals := fun name => ((heading.parameterNames.zip arguments).lookup name).getD 0
          set { caller with locals := locals, result := 0 }
          let _ ← statements (invoke globals fuel) scope fuel (body.dropWhile (·.isDeclaration))
          let callee ← get
          set { callee with locals := caller.locals, result := caller.result }
          return if heading.returns.isSome then some callee.result else none

def builtins : Names := Builtin.all.map fun builtin => (builtin.name, .builtin builtin)

def topLevel? (scope : Scope) : Statement → Option Scope
  | .program _ | .forward _ => some scope
  | .callable heading body => some (scope.add heading.name (.callable heading body))
  | statement => scope.declare? statement

/-- How an evaluation ends: its value or why there is none, what it has printed and what it has not
read. -/
structure Outcome where
  result : Except Stop Int32
  output : String
  unread : List Int32
  deriving DecidableEq

def Memory.start (input : List Int32) : Memory :=
  ⟨fun _ => 0, fun _ _ => 0, fun _ => 0, 0, "", input⟩

end Evaluation

open Evaluation

def Program.globals? (program : Program) : Option Names :=
  (program.statements.foldlM topLevel? ⟨builtins, none⟩).map (·.names)

/-- A program is a call of its own body. -/
def Program.evaluate (program : Program) (fuel : Nat) (input : List Int32) : Outcome :=
  match program.globals? with
  | none => ⟨.error .meaningless, "", input⟩
  | some globals =>
      match globals.lookup mainName with
      | some (.callable heading body) =>
          match (do asValue (← invoke globals fuel heading body [])) (Memory.start input) with
          | .ok value memory => ⟨.ok value, memory.output, memory.input⟩
          | .error stop memory => ⟨.error stop, memory.output, memory.input⟩
      | _ => ⟨.error .meaningless, "", input⟩

end MiniPascal
