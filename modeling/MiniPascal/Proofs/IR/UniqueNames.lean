import Mathlib.Data.List.Nodup
import Mathlib.Data.List.Perm.Subperm
import Mathlib.Data.List.TakeWhile
import MiniPascal.IR.Builder
import Std.Data.String.ToNat

/-!
# Names that are made unique

A name that is taken is numbered.  A name that is given is always new, and some name is given
unchanged exactly if it is asked for.
-/

namespace MiniPascal.IR

variable {taken names requested : List String} {name : String}

theorem dot_mem_numberedName (name : String) (number : Nat) :
    '.' ∈ (numberedName name number).toList := by
  simp [numberedName]

theorem numberedName_inj {first second : Nat} :
    numberedName name first = numberedName name second ↔ first = second := by
  rw [numberedName, numberedName, String.append_right_inj]
  exact Nat.repr_inj

/-- The search stops at the first number that is free, unless it reaches its bound. -/
theorem exists_of_freeName (taken : List String) (name : String) (bound number : Nat) :
    ∃ more ≤ bound, freeName taken name bound number = numberedName name (number + more) ∧
      (more < bound → numberedName name (number + more) ∉ taken) ∧
      ∀ other < more, numberedName name (number + other) ∈ taken := by
  induction bound generalizing number with
  | zero => exact ⟨0, Nat.le_refl 0, rfl, by simp, by simp⟩
  | succ bound ih =>
      rw [freeName]
      split
      · rename_i isTaken
        obtain ⟨more, inside, isName, isFree, isFirst⟩ := ih (number + 1)
        have shift (other : Nat) : number + 1 + other = number + (other + 1) := by omega
        simp only [shift] at isName isFree isFirst
        refine ⟨more + 1, Nat.succ_le_succ inside, isName, fun less => isFree (by omega), ?_⟩
        rintro (_ | other) less
        · exact isTaken
        · exact isFirst other (by omega)
      · rename_i isFree
        exact ⟨0, Nat.zero_le _, rfl, fun _ => isFree, by simp⟩

theorem freeName_eq (taken : List String) (name : String) (bound number : Nat) :
    ∃ other, freeName taken name bound number = numberedName name other := by
  obtain ⟨more, -, isName, -⟩ := exists_of_freeName taken name bound number
  exact ⟨number + more, isName⟩

/-- Not all of so many numbered names can be taken. -/
theorem exists_free (taken : List String) (name : String) (number : Nat) :
    ∃ more ≤ taken.length, numberedName name (number + more) ∉ taken := by
  by_contra noneFree
  push Not at noneFree
  have nodup : ((List.range (taken.length + 1)).map fun other =>
      numberedName name (number + other)).Nodup :=
    List.nodup_range.map fun _ _ same => Nat.add_left_cancel (numberedName_inj.1 same)
  have subset : ((List.range (taken.length + 1)).map fun other =>
      numberedName name (number + other)) ⊆ taken := by
    intro numbered isNumbered
    obtain ⟨other, isOther, rfl⟩ := List.mem_map.1 isNumbered
    exact noneFree other (Nat.le_of_lt_succ (List.mem_range.1 isOther))
  have length := (List.subperm_of_subset nodup subset).length_le
  rw [List.length_map, List.length_range] at length
  omega

theorem freeName_not_mem (taken : List String) (name : String) (number : Nat) :
    freeName taken name taken.length number ∉ taken := by
  obtain ⟨more, inside, isName, isFree, isFirst⟩ :=
    exists_of_freeName taken name taken.length number
  obtain ⟨other, isOther, notTaken⟩ := exists_free taken name number
  rw [isName]
  by_cases isLast : more < taken.length
  · exact isFree isLast
  · have notLess : ¬ other < more := fun less => notTaken (isFirst other less)
    obtain rfl : other = more := by omega
    exact notTaken

theorem uniqueName_not_mem (taken : List String) (name : String) : uniqueName taken name ∉ taken := by
  unfold uniqueName
  split
  · exact freeName_not_mem _ _ _
  · assumption

theorem uniqueName_of_not_mem (isFree : name ∉ taken) : uniqueName taken name = name := by
  rw [uniqueName, if_neg isFree]

theorem uniqueName_eq (taken : List String) (name : String) :
    uniqueName taken name = name ∨ ∃ number, uniqueName taken name = numberedName name number := by
  unfold uniqueName
  split
  · exact .inr (freeName_eq _ _ _ _)
  · exact .inl rfl

theorem numberedName_ne (name : String) (number : Nat) : numberedName name number ≠ name := by
  intro same
  have lengths := congrArg String.length same
  simp only [numberedName, String.length_append] at lengths
  have dot : ".".length = 1 := rfl
  omega

/-- The name that is given where a name is asked for: this one if it is free, else the first numbered
one that is.  It is found before there are more numbers than names that are taken. -/
inductive FirstFree (taken : List String) (requested : String) : String → Prop where
  | unchanged (isFree : requested ∉ taken) : FirstFree taken requested requested
  | numbered {number : Nat} (isTaken : requested ∈ taken)
      (inside : 1 ≤ number ∧ number ≤ taken.length) (isFree : numberedName requested number ∉ taken)
      (first : ∀ other, 1 ≤ other → other < number → numberedName requested other ∈ taken) :
      FirstFree taken requested (numberedName requested number)

theorem firstFree_uniqueName (taken : List String) (requested : String) :
    FirstFree taken requested (uniqueName taken requested) := by
  unfold uniqueName
  split
  · rename_i isTaken
    have notTaken := freeName_not_mem taken requested 1
    obtain ⟨more, -, isName, -, isFirst⟩ := exists_of_freeName taken requested taken.length 1
    rw [isName] at notTaken ⊢
    refine .numbered isTaken ⟨Nat.le_add_right 1 more, ?_⟩ notTaken fun other positive less => ?_
    · -- The name itself is taken too, which leaves one fewer of the numbered names.
      obtain ⟨other, inside, isFree⟩ := exists_free (taken.erase requested) requested 1
      rw [List.mem_erase_of_ne (numberedName_ne requested _)] at isFree
      have notLess : ¬ other < more := fun less => isFree (isFirst other less)
      have isPositive := List.length_pos_of_mem isTaken
      rw [List.length_erase_of_mem isTaken] at inside
      omega
    · obtain ⟨before, rfl⟩ := Nat.exists_eq_add_of_le positive
      exact isFirst before (by omega)
  · exact .unchanged ‹_›

/-- Distinct names that were given for names that were asked for. -/
structure NamedAfter (requested names : List String) : Prop where
  nodup : names.Nodup
  given : ∀ name ∈ requested, name ∈ names
  asked : ∀ name ∈ names, ∃ base ∈ requested, name = base ∨ ∃ number, name = numberedName base number

namespace NamedAfter

theorem self (nodup : names.Nodup) : NamedAfter names names :=
  ⟨nodup, fun _ isIn => isIn, fun name isIn => ⟨name, isIn, .inl rfl⟩⟩

/-- Only which names were asked for matters. -/
theorem congr {others : List String} (named : NamedAfter requested names)
    (same : ∀ name, name ∈ others ↔ name ∈ requested) : NamedAfter others names where
  nodup := named.nodup
  given name isIn := named.given name ((same name).1 isIn)
  asked name isIn := by
    obtain ⟨base, isBase, isName⟩ := named.asked name isIn
    exact ⟨base, (same base).2 isBase, isName⟩

theorem add (named : NamedAfter requested names) (name : String) :
    NamedAfter (requested ++ [name]) (names ++ [uniqueName names name]) where
  nodup := List.nodup_append.2 ⟨named.nodup, List.nodup_singleton _, fun first isFirst second isSecond => by
    rw [List.mem_singleton.1 isSecond]
    rintro rfl
    exact uniqueName_not_mem _ _ isFirst⟩
  given other isIn := by
    rw [List.mem_append, List.mem_singleton] at isIn
    rcases isIn with isIn | rfl
    · exact List.mem_append_left _ (named.given other isIn)
    · by_cases isTaken : other ∈ names
      · exact List.mem_append_left _ isTaken
      · rw [uniqueName_of_not_mem isTaken]
        exact List.mem_append_right _ List.mem_cons_self
  asked other isIn := by
    rw [List.mem_append, List.mem_singleton] at isIn
    rcases isIn with isIn | rfl
    · obtain ⟨base, isBase, isName⟩ := named.asked other isIn
      exact ⟨base, List.mem_append_left _ isBase, isName⟩
    · exact ⟨name, by simp, uniqueName_eq names name⟩

theorem again (named : NamedAfter requested names) (isIn : name ∈ requested) :
    NamedAfter requested (names ++ [uniqueName names name]) :=
  (named.add name).congr fun other => by
    rw [List.mem_append, List.mem_singleton]
    exact ⟨.inl, fun either => either.elim id fun same => same ▸ isIn⟩

end NamedAfter

/-! ### What a name is made of -/

def stem (name : String) : List Char := name.toList.takeWhile (· ≠ '.')

theorem stem_of_not_mem (noDot : '.' ∉ name.toList) : stem name = name.toList := by
  refine List.takeWhile_eq_self_iff.2 fun char isIn => ?_
  rw [decide_eq_true_iff]
  rintro rfl
  exact noDot isIn

theorem stem_numberedName (name : String) (number : Nat) :
    stem (numberedName name number) = stem name := by
  simp only [stem, numberedName, String.toList_append, List.append_assoc]
  rw [List.takeWhile_append]
  split
  · rename_i isWhole
    rw [(List.takeWhile_prefix _).eq_of_length isWhole]
    simp
  · rfl

theorem NamedAfter.exists_stem (named : NamedAfter requested names) (isIn : name ∈ names) :
    ∃ base ∈ requested, stem name = stem base := by
  obtain ⟨base, isBase, rfl | ⟨number, rfl⟩⟩ := named.asked name isIn
  · exact ⟨name, isBase, rfl⟩
  · exact ⟨base, isBase, stem_numberedName base number⟩

end MiniPascal.IR
