import Mathlib.Data.List.Induction
import Mathlib.Data.List.Nodup
import MiniPascal.IR.Dump
import MiniPascal.Proofs.IR.Histories
import Std.Data.String.ToNat

/-!
# Labels of blocks

In the dump of a function, blocks of one name are numbered, with nothing between the name and the
number.  The labels are distinct unless a block is named as another one is numbered.  Where they are
distinct, a branch names the block that it goes to and no other; where they are not, there are blocks
that a branch to them would not tell apart.
-/

namespace MiniPascal.IR

/-! ### Numbers behind a name -/

theorem exists_of_toDigits_eq_append {number : Nat} {front back : List Char} (positive : 0 < number)
    (isCut : Nat.toDigits 10 number = front ++ back) (notEmpty : front ≠ []) :
    ∃ smaller, 0 < smaller ∧ smaller ≤ number ∧ Nat.toDigits 10 smaller = front := by
  induction back using List.reverseRecOn generalizing number with
  | nil => exact ⟨number, positive, Nat.le_refl _, by rw [isCut, List.append_nil]⟩
  | append_singleton back last ih =>
      rw [Nat.toDigits_eq_if (by decide)] at isCut
      split at isCut
      · have lengths := congrArg List.length isCut
        have isPositive := List.length_pos_iff.2 notEmpty
        simp only [List.length_append, List.length_singleton] at lengths
        omega
      · rw [← List.append_assoc] at isCut
        obtain ⟨isFront, -⟩ := List.append_inj' isCut rfl
        obtain ⟨smaller, isPositive, inside, isSmaller⟩ := ih (by omega) isFront
        exact ⟨smaller, isPositive, by omega, isSmaller⟩

/-- What is put behind the name of a block that so many of its name stand in front of. -/
def ordinal (count : Nat) : String := if count = 0 then "" else toString count

theorem append_ordinal (name : String) (count : Nat) :
    name ++ ordinal count = if count = 0 then name else name ++ toString count := by
  unfold ordinal
  split
  · exact String.append_empty
  · rfl

theorem ordinal_of_pos {count : Nat} (positive : 0 < count) : ordinal count = toString count :=
  if_neg (Nat.ne_of_gt positive)

theorem toList_ordinal {count : Nat} (positive : 0 < count) :
    (ordinal count).toList = Nat.toDigits 10 count := by
  rw [ordinal_of_pos positive]
  exact Nat.toList_repr

theorem ordinal_inj {first second : Nat} (same : ordinal first = ordinal second) : first = second := by
  have ne_empty {count : Nat} (positive : 0 < count) : ordinal count ≠ "" := by
    intro isEmpty
    have noDigits := toList_ordinal positive
    rw [isEmpty] at noDigits
    exact Nat.toDigits_ne_nil noDigits.symm
  rcases Nat.eq_zero_or_pos first with rfl | positive <;>
    rcases Nat.eq_zero_or_pos second with rfl | positive'
  · rfl
  · exact absurd same.symm (ne_empty positive')
  · exact absurd same (ne_empty positive)
  · rw [ordinal_of_pos positive, ordinal_of_pos positive'] at same
    exact Nat.repr_inj.1 same

theorem append_toString_ne (name : String) {number : Nat} (positive : 0 < number) :
    name ++ toString number ≠ name := by
  intro same
  rw [← ordinal_of_pos positive] at same
  have isZero : number = 0 := ordinal_inj ((String.append_right_inj name).1
    (same.trans (String.append_empty (s := name)).symm))
  omega

/-- If names are the same with numbers behind them, the longer one is the other with a number. -/
theorem exists_of_append_ordinal {name other : String} {first second : Nat}
    (same : name ++ ordinal first = other ++ ordinal second) (longer : other.length < name.length) :
    ∃ number, 0 < number ∧ number ≤ second ∧ name = other ++ toString number := by
  have chars := congrArg String.toList same
  rw [String.toList_append, String.toList_append] at chars
  rcases List.append_eq_append_iff.1 chars with ⟨more, isOther, -⟩ | ⟨more, isName, isOrdinal⟩
  · have lengths := congrArg List.length isOther
    rw [List.length_append, String.length_toList, String.length_toList] at lengths
    omega
  have notEmpty : more ≠ [] := by
    rintro rfl
    have lengths := congrArg List.length isName
    rw [List.append_nil, String.length_toList, String.length_toList] at lengths
    omega
  have positive : 0 < second := by
    refine Nat.pos_of_ne_zero ?_
    rintro rfl
    exact notEmpty (List.append_eq_nil_iff.1 isOrdinal.symm).1
  rw [toList_ordinal positive] at isOrdinal
  obtain ⟨number, isPositive, inside, isNumber⟩ :=
    exists_of_toDigits_eq_append positive isOrdinal notEmpty
  refine ⟨number, isPositive, inside, String.toList_injective ?_⟩
  rw [isName, ← isNumber, ← toList_ordinal isPositive, ← ordinal_of_pos isPositive,
    String.toList_append]

/-! ### Labels -/

theorem getElem?_labelsAfter (seen names : List String) (index : Nat) :
    (labelsAfter seen names)[index]? = names[index]?.map fun name =>
      name ++ ordinal (seen.count name + (names.take index).count name) := by
  induction names generalizing seen index with
  | nil => rfl
  | cons first others ih =>
      cases index with
      | zero =>
          simp [labelsAfter, append_ordinal]
      | succ index =>
          rw [labelsAfter, List.getElem?_cons_succ, List.getElem?_cons_succ, ih]
          cases isName : others[index]? with
          | none => rfl
          | some name =>
              simp only [Option.map_some, List.take_succ_cons, List.count_cons]
              rw [Nat.add_assoc, Nat.add_comm ((others.take index).count name)]

theorem length_labelsAfter (seen names : List String) :
    (labelsAfter seen names).length = names.length := by
  induction names generalizing seen with
  | nil => rfl
  | cons first others ih => rw [labelsAfter, List.length_cons, List.length_cons, ih]

theorem exists_of_lt_count {names : List String} {name : String} {number : Nat}
    (few : number < names.count name) :
    ∃ index, names[index]? = some name ∧ (names.take index).count name = number := by
  induction names generalizing number with
  | nil => simp at few
  | cons first others ih =>
      by_cases isFirst : first = name
      · subst isFirst
        rw [List.count_cons_self] at few
        cases number with
        | zero => exact ⟨0, rfl, rfl⟩
        | succ number =>
            obtain ⟨index, isName, isCount⟩ := ih (Nat.lt_of_succ_lt_succ few)
            exact ⟨index + 1, isName, by rw [List.take_succ_cons, List.count_cons_self, isCount]⟩
      · rw [List.count_cons_of_ne isFirst] at few
        obtain ⟨index, isName, isCount⟩ := ih few
        exact ⟨index + 1, isName, by rw [List.take_succ_cons, List.count_cons_of_ne isFirst, isCount]⟩

theorem count_take_lt {names : List String} {name : String} {first second : Nat}
    (isName : names[first]? = some name) (before : first < second) :
    (names.take first).count name < (names.take second).count name := by
  have next : (names.take (first + 1)).count name = (names.take first).count name + 1 := by
    rw [List.take_add_one, isName, List.count_append]
    simp
  have more := (List.take_prefix_take_left before : names.take (first + 1) <+: names.take second)
  have le := more.sublist.count_le name
  omega

theorem count_take_lt_count {names : List String} {name : String} {index : Nat}
    (isName : names[index]? = some name) : (names.take index).count name < names.count name := by
  have grows := count_take_lt isName (List.getElem?_eq_some_iff.1 isName).1
  rwa [List.take_length] at grows

/-- No name is one that stands more often than a number says, with that number behind it. -/
def NumbersApart (names : List String) : Prop :=
  ∀ name number, 0 < number → number < names.count name → name ++ toString number ∉ names

theorem NumbersApart.eq_of_append_ordinal {names : List String} (apart : NumbersApart names)
    {name other : String} {first second : Nat} (inside : first < names.count name)
    (inside' : second < names.count other) (same : name ++ ordinal first = other ++ ordinal second) :
    name = other := by
  -- The longer of two different names is the shorter one with a number of its own.
  have collides {name other : String} {first second : Nat} (inside : first < names.count name)
      (inside' : second < names.count other)
      (same : name ++ ordinal first = other ++ ordinal second) : ¬ other.length < name.length := by
    intro longer
    obtain ⟨number, positive, few, rfl⟩ := exists_of_append_ordinal same longer
    exact apart other number positive (Nat.lt_of_le_of_lt few inside')
      (List.count_pos_iff.1 (Nat.zero_lt_of_lt inside))
  have chars := congrArg String.toList same
  rw [String.toList_append, String.toList_append] at chars
  have lengths : name.toList.length = other.toList.length := by
    have := collides inside inside' same
    have := collides inside' inside same.symm
    rw [String.length_toList, String.length_toList]
    omega
  exact String.toList_injective (List.append_inj chars lengths).1

theorem nodup_labelsAfter_iff (names : List String) :
    (labelsAfter [] names).Nodup ↔ NumbersApart names := by
  have isLabel {index : Nat} {name : String} (isName : names[index]? = some name) :
      (labelsAfter [] names)[index]? = some (name ++ ordinal ((names.take index).count name)) := by
    rw [getElem?_labelsAfter, isName, Option.map_some, List.count_nil, Nat.zero_add]
  constructor
  · intro nodup name number positive few isIn
    obtain ⟨index, isName, isCount⟩ := exists_of_lt_count few
    obtain ⟨other, isOther, isFirst⟩ := exists_of_lt_count (List.count_pos_iff.2 isIn)
    have numbered := isLabel isName
    have unnumbered := isLabel isOther
    rw [isCount, ordinal_of_pos positive] at numbered
    rw [isFirst, show ordinal 0 = "" from rfl, String.append_empty] at unnumbered
    obtain ⟨bound, -⟩ := List.getElem?_eq_some_iff.1 numbered
    obtain rfl := (List.getElem?_inj bound nodup).1 (numbered.trans unnumbered.symm)
    exact append_toString_ne name positive (Option.some.inj (isOther.symm.trans isName))
  · intro apart
    rw [List.nodup_iff_getElem?_ne_getElem?]
    intro first second before bound same
    have inRange {index : Nat} (inside : index < (labelsAfter [] names).length) :
        ∃ name, names[index]? = some name := by
      have isSome : ((labelsAfter [] names)[index]?).isSome := by simp [inside]
      rw [getElem?_labelsAfter, Option.isSome_map] at isSome
      exact Option.isSome_iff_exists.1 isSome
    obtain ⟨name, isName⟩ := inRange (Nat.lt_trans before bound)
    obtain ⟨other, isOther⟩ := inRange bound
    rw [isLabel isName, isLabel isOther, Option.some.injEq] at same
    obtain rfl := apart.eq_of_append_ordinal (count_take_lt_count isName) (count_take_lt_count isOther) same
    have grows := count_take_lt isName before
    exact Nat.ne_of_lt grows (ordinal_inj ((String.append_right_inj name).1 same))

namespace Function

def blockNames (function : Function) : List String := function.blocks.toList.map (·.name)

def Names (function : Function) (target : BlockId) (index : Nat) : Prop :=
  ∃ label ∈ function.labels[index]?, Module.dumpLabel function.labels target = "label %" ++ label

theorem labels_toList (function : Function) :
    function.labels.toList = labelsAfter [] function.blockNames := rfl

theorem size_labels (function : Function) : function.labels.size = function.blocks.size := by
  rw [← Array.length_toList, labels_toList, length_labelsAfter]
  exact (List.length_map _).trans Array.length_toList

theorem names_iff {function : Function} {target : BlockId} {index : Nat}
    (inside : target.index < function.blocks.size) :
    function.Names target index ↔ function.labels[index]? = function.labels[target.index]? := by
  rw [← size_labels] at inside
  have isLabel : Module.dumpLabel function.labels target = "label %" ++ function.labels[target.index] := by
    rw [Module.dumpLabel, Array.getElem?_eq_getElem inside, Option.getD_some]
  rw [Names, isLabel, Array.getElem?_eq_getElem inside]
  constructor
  · rintro ⟨label, isThere, same⟩
    rw [isThere, (String.append_right_inj _).1 same]
  · intro isThere
    exact ⟨_, isThere, rfl⟩

/-- The blocks that instructions of the function may go on in. -/
def branchTargets (function : Function) : List BlockId :=
  function.blocks.toList.flatMap fun block => block.instructions.toList.flatMap (·.targets)

theorem names_iff_eq_of_nodup {function : Function} (nodup : function.labels.toList.Nodup)
    {target : BlockId} (inside : target.index < function.blocks.size) (index : Nat) :
    function.Names target index ↔ index = target.index := by
  have isLabel : target.index < function.labels.toList.length := by
    rwa [Array.length_toList, size_labels]
  rw [names_iff inside, eq_comm, ← Array.getElem?_toList, ← Array.getElem?_toList,
    List.getElem?_inj isLabel nodup, eq_comm]

/-- Each block would be the only one that a branch to it names exactly if no two labels are the same. -/
theorem existsUnique_names_iff_nodup (function : Function) :
    (∀ target : BlockId, target.index < function.blocks.size → ∃! index, function.Names target index) ↔
      function.labels.toList.Nodup := by
  constructor
  · intro unique
    rw [List.nodup_iff_injective_getElem]
    rintro ⟨first, inside⟩ ⟨second, inside'⟩ same
    rw [Array.length_toList] at inside inside'
    have isTarget : first < function.blocks.size := function.size_labels ▸ inside
    have only := unique ⟨0, first⟩ isTarget
    have isSame : function.labels[second]? = function.labels[first]? := by
      rw [Array.getElem?_eq_getElem inside, Array.getElem?_eq_getElem inside']
      exact congrArg some same.symm
    exact Fin.ext (only.unique ((names_iff isTarget).2 rfl) ((names_iff isTarget).2 isSame))
  · intro nodup target inside
    exact ⟨target.index, (names_iff_eq_of_nodup nodup inside _).2 rfl,
      fun index => (names_iff_eq_of_nodup nodup inside index).1⟩

/-- The labels of a function are distinct exactly if no block is named as a block of another name is
numbered, and exactly then every block is the only one that a branch to it would name.  Then each
branch of the function names its target only. -/
theorem labels_nodup_iff (function : Function) :
    (function.labels.toList.Nodup ↔ NumbersApart function.blockNames) ∧
      ((∀ target : BlockId, target.index < function.blocks.size →
        ∃! index, function.Names target index) ↔ NumbersApart function.blockNames) ∧
      (NumbersApart function.blockNames → ∀ target ∈ function.branchTargets,
        target.index < function.blocks.size →
          ∀ index, function.Names target index ↔ index = target.index) := by
  have nodup : function.labels.toList.Nodup ↔ NumbersApart function.blockNames :=
    nodup_labelsAfter_iff function.blockNames
  refine ⟨nodup, function.existsUnique_names_iff_nodup.trans nodup, ?_⟩
  intro apart target _ inside
  exact names_iff_eq_of_nodup (nodup.2 apart) inside

/-- A block can be named as the second one of another name is numbered.  The branch to the second one
then names both. -/
theorem labels_not_nodup :
    ∃ function, (Builder.afterAll [.declareFunction "f" 0 false, .appendBlock 0 "loop1",
        .appendBlock 0 "loop", .appendBlock 0 "loop", .setInsertPoint ⟨0, 0⟩, .jump ⟨0, 1⟩,
        .setInsertPoint ⟨0, 1⟩, .jump ⟨0, 2⟩, .setInsertPoint ⟨0, 2⟩, .ret none]
        (.new "m")).ir.functions[0]? = some function ∧
      ¬ function.labels.toList.Nodup ∧
      ∃ target ∈ function.branchTargets, target.index < function.blocks.size ∧
        ¬ ∃! index, function.Names target index := by
  refine ⟨⟨"f", 0, false, false, #[⟨"loop1", #[.jump ⟨0, 1⟩]⟩, ⟨"loop", #[.jump ⟨0, 2⟩]⟩,
    ⟨"loop", #[.ret none]⟩], 0⟩, by decide +kernel, by decide +kernel, ⟨0, 2⟩, by decide,
    by decide, ?_⟩
  rintro ⟨index, -, unique⟩
  have first := unique 0 ((names_iff (by decide)).2 (by decide +kernel))
  have last := unique 2 ((names_iff (by decide)).2 (by decide +kernel))
  omega

end Function

end MiniPascal.IR
