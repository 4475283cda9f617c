import MiniPascal.Parser.Declaration
import MiniPascal.Proofs.Grammar.Expressions

/-!
# The grammar of programs

    program  = ("program" ident ";")? (callable | vars | consts)* body "." end-of-input
    vars     = "var" (group ";")+                group = ident ("," ident)* ":" type
    consts   = "const" (ident "=" expression ";")+
    type     = "integer" | "array" "[" expression "." "." expression "]" "of" "integer"
    callable = ("function" ident parameters? ":" "integer" | "procedure" ident parameters?) ";"
               ("forward" ";" | (vars | consts)* body ";")
    body     = "begin" action* "end"
    action   = "if" condition "then" action ("else" action)?
             | "while" condition "do" action
             | "for" ident ":=" expression ("to" | "downto") expression "do" action
             | "begin" action* "end" separator
             | (assignment | call | "break") separator

The separator is `;`, and nothing in front of `end` and `else`.  A `break` needs a loop around it, in
the same body.

Where an `if` may do without an `else` is left open: `Stops` says in front of which lexemes.  If it
may in front of all, one text can have several trees; if it may not in front of an `else`, then every
`else` belongs to the nearest `if`.
-/

namespace MiniPascal

namespace Rule

/-! ### Statements -/

def separator : Rule Unit :=
  ahead (fun kind => kind = .endWord ∨ kind = .elseWord) <|> do
    let _ ← token .semicolon
    return ()

def assignTo (target : Expr) : Rule Assignment := do
  let _ ← token .assign
  let value ← expression
  return ⟨target, value, .nowhere⟩

def assignment : Rule Statement := do
  let name ← ident
  let target ← element nested name <|> return .ident name .nowhere
  let assignment ← assignTo target
  return .assign assignment

def call : Rule Statement := do
  let name ← ident
  let arguments ← arguments nested name <|> return []
  return .call name arguments .nowhere

def breakLoop : Option LoopId → Rule Statement
  | some loop => do
      let _ ← token .breakWord
      return .leave loop .nowhere
  | none => fail

def simple (loop : Option LoopId) : Rule Statement := do
  let statement ← assignment <|> call <|> breakLoop loop
  separator
  return statement

def direction : Rule Direction :=
  (do
    let _ ← token .toWord
    return .upward) <|> do
  let _ ← token .downtoWord
  return .downward

section

variable (Stops : TokenKind → Prop) (inner : Option LoopId → Rule Statement) (loop : Option LoopId)

def ifAction : Rule Statement := do
  let _ ← token .ifWord
  let condition ← condition
  let _ ← token .thenWord
  let holds ← inner loop
  (do
    let _ ← token .elseWord
    let fails ← inner loop
    return .ifThenElse condition holds fails .nowhere) <|> do
  ahead Stops
  return .ifThen condition holds .nowhere

def whileAction : Rule Statement := do
  let _ ← token .whileWord
  let condition ← condition
  let _ ← token .doWord
  let id ← freshLoop
  let body ← inner (some id)
  return .whileLoop id condition body .nowhere

def forAction : Rule Statement := do
  let _ ← token .forWord
  let counter ← ident
  let initial ← assignTo (.ident counter .nowhere)
  let direction ← direction
  let limit ← expression
  let _ ← token .doWord
  let id ← freshLoop
  let body ← inner (some id)
  return .forLoop id initial direction limit body .nowhere

def blockAction : Rule Statement := do
  let _ ← token .beginWord
  let statements ← star (inner loop)
  let _ ← token .endWord
  separator
  return .block statements

def action : Rule Statement :=
  ifAction Stops inner loop <|> whileAction inner <|> forAction inner <|> blockAction inner loop
    <|> simple loop

end

section

variable (Stops : TokenKind → Prop)

def statement : Option LoopId → Rule Statement := Fix (action Stops)

def body : Rule (List Statement) := do
  let _ ← token .beginWord
  let statements ← star (statement Stops none)
  let _ ← token .endWord
  return statements

end

/-! ### Declarations -/

def ordinaryType : Rule DataType := do
  word "integer"
  return .integer

def arrayType : Rule DataType := do
  word "array"
  let _ ← token .leftBracket
  let low ← expression
  let _ ← token .dot
  let _ ← token .dot
  let high ← expression
  let _ ← token .rightBracket
  let _ ← token .ofWord
  let _ ← ordinaryType
  return .array low high

def dataType : Rule DataType := arrayType <|> ordinaryType

def groupBehind (type : Rule DataType) (first : String) : Rule VarGroup := do
  let others ← star do
    let _ ← token .comma
    ident
  let _ ← token .colon
  let type ← type
  return ⟨first :: others, type, .nowhere⟩

def group (type : Rule DataType) : Rule VarGroup := do
  let first ← ident
  groupBehind type first

def vars : Rule (List Statement) := do
  let _ ← token .varWord
  let groups ← plus do
    let group ← group dataType
    let _ ← token .semicolon
    return group
  return groups.map .vars

def constantBehind (name : String) : Rule Statement := do
  let _ ← token .equal
  let value ← expression
  let _ ← token .semicolon
  return .constant name value .nowhere

def constant : Rule Statement := do
  let name ← ident
  constantBehind name

def consts : Rule (List Statement) := do
  let _ ← token .constWord
  plus constant

def parameters : Rule (List VarGroup) := do
  let _ ← token .leftParen
  let groups ←
    (do
      let first ← group ordinaryType
      let others ← star do
        let _ ← token .semicolon
        group ordinaryType
      return first :: others) <|> return []
  let _ ← token .rightParen
  return groups

def heading : Rule Heading :=
  (do
    let _ ← token .functionWord
    let name ← ident
    let parameters ← parameters <|> return []
    let _ ← token .colon
    let type ← ordinaryType
    return ⟨name, parameters, some type, .nowhere⟩) <|> do
  let _ ← token .procedureWord
  let name ← ident
  let parameters ← parameters <|> return []
  return ⟨name, parameters, none, .nowhere⟩

section

variable (Stops : TokenKind → Prop)

def callable : Rule Statement := do
  let heading ← heading
  let _ ← token .semicolon
  (do
    let _ ← token .forwardWord
    let _ ← token .semicolon
    return .forward heading) <|> do
  let declarations ← star (vars <|> consts)
  let statements ← body Stops
  let _ ← token .semicolon
  return .callable heading (declarations.flatten ++ statements)

def topLevel : Rule (List Statement) :=
  (do
    let callable ← callable Stops
    return [callable]) <|> vars <|> consts

def header : Rule (List Statement) :=
  (do
    let _ ← token .programWord
    let name ← ident
    let _ ← token .semicolon
    return [.program name]) <|> return []

def program : Rule Program := do
  let header ← header
  let declarations ← star (topLevel Stops)
  let statements ← body Stops
  let _ ← token .dot
  endOfInput
  return ⟨header ++ declarations.flatten ++ [Parse.mainCallable .nowhere statements]⟩

end

/-! ### What statements begin with -/

def BeginsStatement (kind : TokenKind) : Prop :=
  kind = .ifWord ∨ kind = .whileWord ∨ kind = .forWord ∨ kind = .beginWord ∨ kind = .ident ∨
    kind = .breakWord

theorem begins_breakLoop (loop : Option LoopId) : Begins (· = .breakWord) (breakLoop loop) := by
  cases loop with
  | some id => exact (begins_token _).bind _
  | none => exact fun _ _ _ reads => reads.elim

theorem begins_simple (loop : Option LoopId) :
    Begins (fun kind => kind = .ident ∨ kind = .breakWord) (simple loop) :=
  Begins.bind
    (((begins_ident.bind _).mono fun _ => .inl).orElse <|
      ((begins_ident.bind _)).union (begins_breakLoop loop)) _

section

variable (Stops : TokenKind → Prop)

theorem begins_action (inner : Option LoopId → Rule Statement) (loop : Option LoopId) :
    Begins BeginsStatement (action Stops inner loop) := by
  refine Begins.union ((begins_token .ifWord).bind _) (Begins.union ((begins_token .whileWord).bind _) ?_)
  refine Begins.union ((begins_token .forWord).bind _) (Begins.union ((begins_token .beginWord).bind _) ?_)
  exact begins_simple loop

theorem Le.action {smaller larger : Option LoopId → Rule Statement}
    (le : ∀ loop, Le (smaller loop) (larger loop)) (loop : Option LoopId) :
    Le (action Stops smaller loop) (action Stops larger loop) := by
  refine Le.orElse ?_ (Le.orElse ?_ (Le.orElse ?_ (Le.orElse ?_ (.refl _))))
  · refine (Le.refl _).bind fun _ => (Le.refl _).bind fun _ => (Le.refl _).bind fun _ =>
      (le loop).bind fun _ => Le.orElse ?_ (.refl _)
    exact (Le.refl _).bind fun _ => (le loop).bind fun _ => .refl _
  · exact (Le.refl _).bind fun _ => (Le.refl _).bind fun _ => (Le.refl _).bind fun _ =>
      (Le.refl _).bind fun id => (le (some id)).bind fun _ => .refl _
  · exact (Le.refl _).bind fun _ => (Le.refl _).bind fun _ => (Le.refl _).bind fun _ =>
      (Le.refl _).bind fun _ => (Le.refl _).bind fun _ => (Le.refl _).bind fun _ =>
        (Le.refl _).bind fun id => (le (some id)).bind fun _ => .refl _
  · exact (Le.refl _).bind fun _ => (Le.star (le loop)).bind fun _ => .refl _

theorem statement_eq (loop : Option LoopId) :
    statement Stops loop = action Stops (statement Stops) loop :=
  ext fun _ _ _ => Fix.iff (fun le => Le.action Stops le)

theorem begins_statement (loop : Option LoopId) :
    Begins BeginsStatement (statement Stops loop) := by
  rw [statement_eq]
  exact begins_action Stops _ loop

theorem begins_body : Begins (· = .beginWord) (body Stops) := (begins_token _).bind _

end

def namedBehind (name : String) : Rule Statement :=
  ((do
    let target ← element nested name
    let assignment ← assignTo target
    separator
    return .assign assignment) <|> do
  let assignment ← assignTo (.ident name .nowhere)
  separator
  return .assign assignment) <|> (do
    let arguments ← arguments nested name
    separator
    return .call name arguments .nowhere) <|> do
  separator
  return .call name [] .nowhere

theorem simple_eq (loop : Option LoopId) : simple loop =
    ((do
      let name ← ident
      namedBehind name) <|> do
    let statement ← breakLoop loop
    separator
    return statement) := by
  simp only [simple, assignment, call, namedBehind, orElse_bind, bind_orElse, bind_assoc, pure_bind,
    orElse_assoc]

/-! ### What declarations begin with -/

def BeginsStorage (kind : TokenKind) : Prop := kind = .varWord ∨ kind = .constWord

def BeginsTopLevel (kind : TokenKind) : Prop :=
  (kind = .functionWord ∨ kind = .procedureWord) ∨ BeginsStorage kind

theorem begins_vars : Begins (· = .varWord) vars := (begins_token _).bind _

theorem begins_consts : Begins (· = .constWord) consts := (begins_token _).bind _

theorem begins_storage : Begins BeginsStorage (vars <|> consts) :=
  begins_vars.union begins_consts

theorem begins_heading :
    Begins (fun kind => kind = .functionWord ∨ kind = .procedureWord) heading :=
  ((begins_token _).bind _).union ((begins_token _).bind _)

theorem begins_callable (Stops : TokenKind → Prop) :
    Begins (fun kind => kind = .functionWord ∨ kind = .procedureWord) (callable Stops) :=
  begins_heading.bind _

theorem begins_topLevel (Stops : TokenKind → Prop) : Begins BeginsTopLevel (topLevel Stops) :=
  ((begins_callable Stops).bind _).union begins_storage

end Rule

end MiniPascal
