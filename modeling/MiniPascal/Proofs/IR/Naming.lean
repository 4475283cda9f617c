import MiniPascal.Proofs.IR.Histories
import MiniPascal.Proofs.IR.UniqueNames
import MiniPascal.Proofs.Lowering.Composed
import MiniPascal.Proofs.Lowering.DefinedNames

/-!
# Names behind any operations of a builder

Functions have distinct names at any time, and so have globals.  A declaration is given the name that
it asks for, or the first free one of those with a number behind it, and what it makes is found under
that name from then on.
-/

namespace MiniPascal.IR

/-! ### What is named -/

theorem findIdx?_of_nodup {α : Type} {items : Array α} {nameOf : α → String} {name : String}
    {place : Nat} (nodup : (items.toList.map nameOf).Nodup)
    (hasName : (items.toList.map nameOf)[place]? = some name) :
    items.findIdx? (nameOf · == name) = some place := by
  obtain ⟨inside, isName⟩ := List.getElem?_eq_some_iff.1 hasName
  rw [List.length_map, Array.length_toList] at inside
  refine Array.findIdx?_eq_some_iff_getElem.2 ⟨inside, by simpa using isName, fun other before => ?_⟩
  rw [Bool.not_eq_true, beq_eq_false_iff_ne]
  intro isOther
  have hasOther : (items.toList.map nameOf)[other]? = some name := by
    simp [Nat.lt_trans before inside, isOther]
  have bound : place < (items.toList.map nameOf).length := by simpa using inside
  exact Nat.ne_of_gt before ((List.getElem?_inj bound nodup).1 (hasName.trans hasOther.symm))

inductive Entity where
  | function (id : FunctionId)
  | global (id : GlobalId)
  deriving Repr, DecidableEq

namespace Entity

def names (ir : Module) : Entity → List String
  | function _ => ir.functionNames
  | global _ => ir.globalNames

def place : Entity → Nat
  | function id => id
  | global id => id

def named? (ir : Module) (name : String) : Entity → Option Entity
  | function _ => (ir.functionNamed? name).map .function
  | global _ => (ir.globalNamed? name).map .global

theorem named?_of_nodup {ir : Module} {entity : Entity} {name : String}
    (nodup : (entity.names ir).Nodup) (hasName : (entity.names ir)[entity.place]? = some name) :
    entity.named? ir name = some entity := by
  cases entity with
  | function id =>
      have isFound : ir.functionNamed? name = some id := findIdx?_of_nodup nodup hasName
      rw [named?, isFound, Option.map_some]
  | global id =>
      have isFound : ir.globalNamed? name = some id := findIdx?_of_nodup nodup hasName
      rw [named?, isFound, Option.map_some]

end Entity

/-! ### Operations -/

namespace Builder

/-- What an operation may do to the names. -/
inductive Naming (old new : Builder) : Prop where
  | same (functions : new.ir.functionNames = old.ir.functionNames)
      (globals : new.ir.globalNames = old.ir.globalNames)
  | function (requested : String) (globals : new.ir.globalNames = old.ir.globalNames)
      (functions : new.ir.functionNames =
        old.ir.functionNames ++ [uniqueName old.ir.functionNames requested])
  | global (requested : String) (functions : new.ir.functionNames = old.ir.functionNames)
      (globals : new.ir.globalNames =
        old.ir.globalNames ++ [uniqueName old.ir.globalNames requested])

structure NamesApart (builder : Builder) : Prop where
  functions : builder.ir.functionNames.Nodup
  globals : builder.ir.globalNames.Nodup

theorem NamesApart.names {builder : Builder} (apart : builder.NamesApart) (entity : Entity) :
    (entity.names builder.ir).Nodup := by
  cases entity with
  | function => exact apart.functions
  | global => exact apart.globals

theorem nodup_uniqueName {names : List String} (nodup : names.Nodup) (requested : String) :
    (names ++ [uniqueName names requested]).Nodup :=
  ((NamedAfter.self nodup).add requested).nodup

namespace Naming

variable {old new : Builder}

theorem namesApart (naming : old.Naming new) (apart : old.NamesApart) : new.NamesApart := by
  cases naming with
  | same functions globals => exact ⟨functions ▸ apart.functions, globals ▸ apart.globals⟩
  | function requested globals functions =>
      exact ⟨functions ▸ nodup_uniqueName apart.functions requested, globals ▸ apart.globals⟩
  | global requested functions globals =>
      exact ⟨functions ▸ apart.functions, globals ▸ nodup_uniqueName apart.globals requested⟩

theorem isPrefix (naming : old.Naming new) (entity : Entity) :
    entity.names old.ir <+: entity.names new.ir := by
  cases naming with
  | same functions globals => cases entity <;> simp [Entity.names, functions, globals]
  | function requested globals functions => cases entity <;> simp [Entity.names, functions, globals]
  | global requested functions globals => cases entity <;> simp [Entity.names, functions, globals]

end Naming

theorem functionNames_addFunction (builder : Builder) (name : String) (parameters : Nat)
    (returnsValue variadic : Bool) :
    (Build.addFunction name parameters returnsValue variadic builder).2.ir.functionNames =
      builder.ir.functionNames ++ [uniqueName builder.ir.functionNames name] := by
  change (builder.ir.functions.push _).toList.map (·.name) = _
  rw [Array.toList_push, List.map_append]
  rfl

theorem globalNames_addGlobal (builder : Builder) (name : String) (content : Content)
    (constant : Bool) (linkage : Linkage) :
    (Build.addGlobal name content constant linkage builder).2.ir.globalNames =
      builder.ir.globalNames ++ [uniqueName builder.ir.globalNames name] := by
  change (builder.ir.globals.push _).toList.map (·.name) = _
  rw [Array.toList_push, List.map_append]
  rfl

end Builder

/-- A step that writes nothing but code leaves the names as they are. -/
theorem Build.IsCode.naming {α : Type} {action : Build α} (isCode : action.IsCode)
    (builder : Builder) : builder.Naming (action builder).2 := by
  refine .same (isCode builder).names ?_
  rw [Module.globalNames, (isCode builder).globals]
  rfl

namespace Builder

namespace Operation

theorem naming_after (operation : Operation) (builder : Builder) :
    builder.Naming (operation.after builder) := by
  cases operation with
  | declareFunction name parameters returnsValue | declareExternal name parameters returnsValue =>
      exact .function name rfl (builder.functionNames_addFunction name _ _ _)
  | addGlobal name content constant linkage =>
      exact .global name rfl (builder.globalNames_addGlobal name _ _ _)
  | appendBlock function name => exact (Build.isCode_appendBlock function name).naming builder
  | setInsertPoint block => exact (Build.isCode_setInsertPoint block).naming builder
  | isTerminated => exact Build.isCode_isTerminated.naming builder
  | arith op left right => exact (Build.isCode_arith op left right).naming builder
  | compare predicate left right => exact (Build.isCode_compare predicate left right).naming builder
  | alloca name => exact (Build.isCode_alloca name).naming builder
  | load pointer => exact (Build.isCode_emitValue _).naming builder
  | store value pointer => exact (Build.isCode_emit _).naming builder
  | element base index => exact (Build.isCode_emitValue _).naming builder
  | call callee arguments => exact (Build.isCode_call callee arguments).naming builder
  | jump target => exact (Build.isCode_emit _).naming builder
  | branch condition holds fails => exact (Build.isCode_emit _).naming builder
  | ret value => exact (Build.isCode_emit _).naming builder

inductive Makes (builder : Builder) (requested : String) : Operation → Entity → Prop where
  | function (parameters : Nat) (returnsValue : Bool) :
      Makes builder requested (.declareFunction requested parameters returnsValue)
        (.function (Build.declareFunction requested parameters returnsValue builder).1)
  | external (parameters : Nat) (returnsValue variadic : Bool) :
      Makes builder requested (.declareExternal requested parameters returnsValue variadic)
        (.function (Build.declareExternal requested parameters returnsValue variadic builder).1)
  | global (content : Content) (constant : Bool) (linkage : Linkage) {id : GlobalId}
      (isAddress : (Build.addGlobal requested content constant linkage builder).1 = .global id) :
      Makes builder requested (.addGlobal requested content constant linkage) (.global id)

def requested? : Operation → Option String
  | declareFunction name _ _ | declareExternal name _ _ _ | addGlobal name _ _ _ => some name
  | _ => none

theorem exists_makes {operation : Operation} {requested : String}
    (asks : operation.requested? = some requested) (builder : Builder) :
    ∃ entity, operation.Makes builder requested entity := by
  cases operation <;> cases asks
  · exact ⟨_, .function _ _⟩
  · exact ⟨_, .external _ _ _⟩
  · exact ⟨_, .global _ _ _ rfl⟩

theorem Makes.names {builder : Builder} {requested : String} {operation : Operation} {entity : Entity}
    (makes : operation.Makes builder requested entity) :
    entity.names (operation.after builder).ir =
        entity.names builder.ir ++ [uniqueName (entity.names builder.ir) requested] ∧
      entity.place = (entity.names builder.ir).length := by
  cases makes with
  | function | external =>
      refine ⟨builder.functionNames_addFunction requested _ _ _, ?_⟩
      simp only [Entity.names, Module.functionNames, List.length_map, Array.length_toList]
      rfl
  | global content constant linkage isAddress =>
      refine ⟨builder.globalNames_addGlobal requested _ _ _, ?_⟩
      obtain rfl := Operand.global.inj isAddress
      simp only [Entity.names, Module.globalNames, List.length_map, Array.length_toList]
      rfl

end Operation

/-! ### Histories -/

theorem namesApart_new (name : String) : (Builder.new name).NamesApart := ⟨.nil, .nil⟩

theorem NamesApart.afterAll {builder : Builder} (apart : builder.NamesApart)
    (history : List Operation) : (builder.afterAll history).NamesApart := by
  induction history generalizing builder with
  | nil => exact apart
  | cons first others ih => exact ih ((first.naming_after builder).namesApart apart)

theorem isPrefix_afterAll (entity : Entity) (history : List Operation) (builder : Builder) :
    entity.names builder.ir <+: entity.names (builder.afterAll history).ir := by
  induction history generalizing builder with
  | nil => exact List.prefix_rfl
  | cons first others ih =>
      exact ((first.naming_after builder).isPrefix entity).trans (ih (first.after builder))

/-- Behind any operations the names of functions are distinct, and so are those of globals.  Whatever
was declared on the way got the name that it asked for, or the first free one with a number, and it is
what is found under this name ever since. -/
theorem names_afterAll (name : String) (earlier : List Operation) (operation : Operation)
    (later : List Operation) :
    let before := afterAll earlier (.new name)
    let last := afterAll later (operation.after before)
    last.NamesApart ∧ ∀ requested, operation.requested? = some requested →
      ∃ entity given, operation.Makes before requested entity ∧
        FirstFree (entity.names before.ir) requested given ∧
        (entity.names last.ir)[entity.place]? = some given ∧
        entity.named? last.ir given = some entity := by
  intro before last
  have apart : last.NamesApart :=
    (((namesApart_new name).afterAll earlier).afterAll (operation :: later))
  refine ⟨apart, fun requested asks => ?_⟩
  obtain ⟨entity, makes⟩ := operation.exists_makes asks before
  obtain ⟨isAfter, isLast⟩ := makes.names
  have hasName : (entity.names last.ir)[entity.place]? =
      some (uniqueName (entity.names before.ir) requested) := by
    obtain ⟨more, isMore⟩ := isPrefix_afterAll entity later (operation.after before)
    rw [← isMore, isAfter, isLast]
    simp
  exact ⟨entity, _, makes, firstFree_uniqueName _ _, hasName,
    Entity.named?_of_nodup (apart.names entity) hasName⟩

/-- The theorem at a name that is taken, as is the first one with a number, and where the second one is
asked for later. -/
theorem names_afterAll_numbered :
    let before := afterAll [.declareFunction "x.1" 0 true, .declareExternal "x" 1 true true] (.new "m")
    let last := afterAll [.declareFunction "x.2" 0 true] ((Operation.declareFunction "x" 0 true).after before)
    before.ir.functionNames = ["x.1", "x"] ∧ last.ir.functionNames = ["x.1", "x", "x.2", "x.2.1"] ∧
      FirstFree before.ir.functionNames "x" "x.2" ∧ last.ir.functionNamed? "x.2" = some 2 := by
  intro before last
  have areNames : last.ir.functionNames = ["x.1", "x", "x.2", "x.2.1"] := by decide +kernel
  obtain ⟨-, made⟩ := names_afterAll "m"
    [.declareFunction "x.1" 0 true, .declareExternal "x" 1 true true] (.declareFunction "x" 0 true)
    [.declareFunction "x.2" 0 true]
  obtain ⟨entity, given, makes, isFirst, hasName, isFound⟩ := made "x" rfl
  cases makes with | function => ?_
  have isGiven : (["x.1", "x", "x.2", "x.2.1"] : List String)[2]? = some given := areNames ▸ hasName
  obtain rfl : "x.2" = given := Option.some.inj isGiven
  obtain ⟨id, isId, isEntity⟩ := Option.map_eq_some_iff.1 isFound
  refine ⟨by decide +kernel, areNames, isFirst, ?_⟩
  obtain rfl := Entity.function.inj isEntity
  exact isId

end Builder

end MiniPascal.IR
