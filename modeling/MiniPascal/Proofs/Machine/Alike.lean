import MiniPascal.Proofs.Machine.Steps

/-!
# Machines that are alike

Cells that have been written in a different order, or not at all instead of with zero, are not the
same but hold the same integers.  What a machine does depends on the integers only.
-/

namespace MiniPascal.Machine

namespace Cells

theorem get_set (cells : Cells) (index other : Nat) (value : Int32) :
    (cells.set index value).get other = if other = index then value else cells.get other := by
  simp only [get, set, Std.TreeMap.getD_insert]
  by_cases same : other = index
  · simp [same]
  · simp [same, Ne.symm same]

theorem size_set (cells : Cells) (index : Nat) (value : Int32) :
    (cells.set index value).size = cells.size := rfl

structure Alike (first second : Cells) : Prop where
  size : second.size = first.size
  get : ∀ index, index < first.size → second.get index = first.get index

variable {first second : Cells}

theorem Alike.refl (cells : Cells) : cells.Alike cells := ⟨rfl, fun _ _ => rfl⟩

theorem Alike.set (alike : first.Alike second) (index : Nat) (value : Int32) :
    (first.set index value).Alike (second.set index value) := by
  refine ⟨alike.size, fun other inside => ?_⟩
  rw [get_set, get_set, alike.get other inside]

theorem Alike.bytesFrom (alike : first.Alike second) (index : Nat) :
    second.bytesFrom index = first.bytesFrom index := by
  fun_induction Cells.bytesFrom first index with
  | case1 index inside value isZero =>
      rw [Cells.bytesFrom, alike.size, if_pos inside, alike.get index inside]
      exact if_pos isZero
  | case2 index inside value notZero ih =>
      rw [Cells.bytesFrom, alike.size, if_pos inside, alike.get index inside, ih]
      exact if_neg notZero
  | case3 index outside => rw [Cells.bytesFrom, alike.size, if_neg outside]

theorem Alike.text (alike : first.Alike second) (offset : Int) :
    second.text offset = first.text offset := by
  rw [Cells.text, Cells.text, alike.bytesFrom]

end Cells

instance (first second : Cells) : Decidable (first.Alike second) :=
  decidable_of_iff
    (second.size = first.size ∧ ∀ index, index < first.size → second.get index = first.get index)
    ⟨fun same => ⟨same.1, same.2⟩, fun alike => ⟨alike.size, alike.get⟩⟩

structure SameCells (first second : Array Cells) : Prop where
  size : second.size = first.size
  cells : ∀ (id : IR.GlobalId) (cells : Cells), first[id]? = some cells →
    ∃ others, second[id]? = some others ∧ cells.Alike others

namespace SameCells

variable {first second : Array Cells}

theorem refl (globals : Array Cells) : SameCells globals globals :=
  ⟨rfl, fun _ cells isGlobal => ⟨cells, isGlobal, .refl cells⟩⟩

theorem getElem?_eq_none (same : SameCells first second) {id : IR.GlobalId}
    (noGlobal : first[id]? = none) : second[id]? = none := by
  rw [Array.getElem?_eq_none_iff] at *
  rwa [same.size]

theorem modify (same : SameCells first second) (id : IR.GlobalId) (index : Nat) (value : Int32) :
    SameCells (first.modify id (·.set index value)) (second.modify id (·.set index value)) := by
  refine ⟨by simp [same.size], fun other cells isGlobal => ?_⟩
  rw [Array.getElem?_modify] at *
  by_cases isHere : id = other
  · rw [if_pos isHere] at *
    obtain ⟨old, isOld, rfl⟩ := Option.map_eq_some_iff.1 isGlobal
    obtain ⟨others, isOther, alike⟩ := same.cells other old isOld
    exact ⟨others.set index value, by rw [isOther]; rfl, alike.set index value⟩
  · rw [if_neg isHere] at *
    exact same.cells other cells isGlobal

theorem iff_forall_fin : SameCells first second ↔ second.size = first.size ∧
    ∀ id : Fin first.size, ∀ others ∈ second[id.val]?, first[id].Alike others := by
  constructor
  · intro same
    refine ⟨same.size, fun id others isOther => ?_⟩
    obtain ⟨_, isGlobal, alike⟩ := same.cells id first[id] (Array.getElem?_eq_getElem id.isLt)
    obtain rfl := Option.some.inj (isGlobal.symm.trans isOther)
    exact alike
  · rintro ⟨size, alike⟩
    refine ⟨size, fun id cells isGlobal => ?_⟩
    obtain ⟨inside, rfl⟩ := Array.getElem?_eq_some_iff.1 isGlobal
    have isOther : second[id]? = some second[id] := Array.getElem?_eq_getElem (size ▸ inside)
    exact ⟨second[id], isOther, alike ⟨id, inside⟩ second[id] isOther⟩

instance (first second : Array Cells) : Decidable (SameCells first second) :=
  decidable_of_iff _ iff_forall_fin.symm

end SameCells

namespace State

def under (state : State) (callers : List Frame) : State := { state with callers := callers }

theorem under_self {state : State} {callers : List Frame} (same : state.callers = callers) :
    state.under callers = state := by
  rw [← same]
  rfl

/-- All is the same but how the cells have come to hold what they hold. -/
structure Alike (first second : State) : Prop where
  globals : SameCells first.globals second.globals
  stack : second.stack = first.stack
  callers : second.callers = first.callers
  console : second.console = first.console
  steps : second.steps = first.steps

structure Shows (first second : State) : Prop where
  globals : SameCells first.globals second.globals
  stack : second.stack = first.stack
  console : second.console = first.console

theorem Shows.refl (state : State) : state.Shows state := ⟨.refl _, rfl, rfl⟩

/-- Machines that are alike show the same, and stay alike when the same is written to both. -/
structure IsCongruence (alike : State → State → Prop) : Prop where
  shows_ : ∀ {first second : State}, alike first second → first.Shows second
  setCell : ∀ {first second : State}, alike first second → ∀ id index value,
    alike { first with globals := first.globals.modify id (·.set index value) }
      { second with globals := second.globals.modify id (·.set index value) }
  setStack : ∀ {first second : State}, alike first second → ∀ stack,
    alike { first with stack := stack } { second with stack := stack }
  setConsole : ∀ {first second : State}, alike first second → ∀ console,
    alike { first with console := console } { second with console := console }

theorem isCongruence_under (callers : List Frame) :
    IsCongruence fun first second => second = first.under callers := by
  constructor <;> rintro first _ rfl
  · exact ⟨.refl _, rfl, rfl⟩
  all_goals intros; rfl

theorem isCongruence_alike : IsCongruence Alike where
  shows_ alike := ⟨alike.globals, alike.stack, alike.console⟩
  setCell alike id index value := { alike with globals := alike.globals.modify id index value }
  setStack alike _ := { alike with stack := rfl }
  setConsole alike _ := { alike with console := rfl }

end State

end MiniPascal.Machine
