/-!
# What successful steps ensure

Parsing and translation are steps on a state that may fail.  `Ensures action post state` says that
`action`, started in `state`, can only succeed with a result and a state that satisfy `post`.  The
simp lemmas below take a step apart into its primitive steps, and carry out those of `Except`.
-/

namespace MiniPascal

variable {ε σ α β : Type}

instance decidableEqResult [DecidableEq ε] [DecidableEq σ] [DecidableEq α] :
    DecidableEq (EStateM.Result ε σ α)
  | .ok a s, .ok a' s' => decidable_of_iff (a = a' ∧ s = s') (by simp)
  | .error e s, .error e' s' => decidable_of_iff (e = e' ∧ s = s') (by simp)
  | .ok _ _, .error _ _ | .error _ _, .ok _ _ => isFalse nofun

/-! ### Steps without a state -/

@[simp] theorem ok_bind (a : α) (f : α → Except ε β) : (Except.ok a >>= f) = f a := rfl

@[simp] theorem error_bind (error : ε) (f : α → Except ε β) :
    (Except.error error >>= f) = .error error := rfl

@[simp] theorem map_ok (f : α → β) (a : α) : f <$> (Except.ok a : Except ε α) = .ok (f a) := rfl

@[simp] theorem map_error (f : α → β) (error : ε) :
    f <$> (Except.error error : Except ε α) = .error error := rfl

@[simp] theorem pure_eq (a : α) : (pure a : Except ε α) = .ok a := rfl

@[simp] theorem throw_eq (error : ε) : (throw error : Except ε α) = .error error := rfl

/-! ### Steps with a state -/

theorem bind_run (x : EStateM ε σ α) (f : α → EStateM ε σ β) (s : σ) :
    (x >>= f) s = match x s with
      | .ok a s' => f a s'
      | .error e s' => .error e s' := rfl

theorem map_run (x : EStateM ε σ α) (f : α → β) (s : σ) :
    (f <$> x) s = match x s with
      | .ok a s' => .ok (f a) s'
      | .error e s' => .error e s' := rfl

theorem bind_eq_ok {x : EStateM ε σ α} {f : α → EStateM ε σ β} {s s'' : σ} {b : β} :
    (x >>= f) s = .ok b s'' ↔ ∃ a s', x s = .ok a s' ∧ f a s' = .ok b s'' := by
  rw [bind_run]
  cases hx : x s with
  | ok a s' =>
      simp only [EStateM.Result.ok.injEq]
      constructor
      · intro h
        exact ⟨a, s', ⟨rfl, rfl⟩, h⟩
      · rintro ⟨_, _, ⟨rfl, rfl⟩, h⟩
        exact h
  | error e s' => simp

theorem bind_of_ok {x : EStateM ε σ α} (f : α → EStateM ε σ β) {s s' : σ} {a : α}
    (isOk : x s = .ok a s') : (x >>= f) s = f a s' := by
  rw [bind_run, isOk]

theorem bind_of_error {x : EStateM ε σ α} (f : α → EStateM ε σ β) {s s' : σ} {e : ε}
    (isError : x s = .error e s') : (x >>= f) s = .error e s' := by
  rw [bind_run, isError]

theorem get_bind (f : σ → EStateM ε σ β) (s : σ) : ((get : EStateM ε σ σ) >>= f) s = f s s := rfl

theorem map_eq_ok {x : EStateM ε σ α} {f : α → β} {s s' : σ} {b : β} :
    (f <$> x) s = .ok b s' ↔ ∃ a, x s = .ok a s' ∧ f a = b := by
  rw [map_run]
  cases hx : x s with
  | ok a s'' =>
      simp only [EStateM.Result.ok.injEq]
      constructor
      · rintro ⟨rfl, rfl⟩
        exact ⟨a, ⟨rfl, rfl⟩, rfl⟩
      · rintro ⟨_, ⟨rfl, rfl⟩, rfl⟩
        exact ⟨rfl, rfl⟩
  | error e s'' => simp

@[simp] theorem pure_eq_ok {a b : α} {s s' : σ} :
    (pure a : EStateM ε σ α) s = .ok b s' ↔ a = b ∧ s = s' := by
  change EStateM.Result.ok a s = _ ↔ _
  simp

@[simp] theorem throw_eq_ok {e : ε} {b : α} {s s' : σ} :
    ¬ (throw e : EStateM ε σ α) s = .ok b s' := by
  change ¬ EStateM.Result.error e s = _
  simp

@[simp] theorem get_eq_ok {a s s' : σ} :
    (get : EStateM ε σ σ) s = .ok a s' ↔ s = a ∧ s = s' := by
  change EStateM.Result.ok s s = _ ↔ _
  simp

@[simp] theorem modify_eq_ok {f : σ → σ} {u : Unit} {s s' : σ} :
    (modify f : EStateM ε σ Unit) s = .ok u s' ↔ f s = s' := by
  change EStateM.Result.ok () (f s) = _ ↔ _
  simp

/-- Partial correctness of a step. -/
def Ensures (action : EStateM ε σ α) (post : α → σ → Prop) (s : σ) : Prop :=
  ∀ a s', action s = .ok a s' → post a s'

namespace Ensures

theorem mono {action : EStateM ε σ α} {post weaker : α → σ → Prop} {s : σ}
    (ensured : Ensures action post s) (h : ∀ a s', post a s' → weaker a s') :
    Ensures action weaker s :=
  fun a s' ok => h a s' (ensured a s' ok)

theorem and {action : EStateM ε σ α} {first second : α → σ → Prop} {s : σ}
    (h₁ : Ensures action first s) (h₂ : Ensures action second s) :
    Ensures action (fun a s' => first a s' ∧ second a s') s :=
  fun a s' ok => ⟨h₁ a s' ok, h₂ a s' ok⟩

end Ensures

variable {post : β → σ → Prop} {s : σ}

@[simp] theorem ensures_pure {b : β} : Ensures (pure b : EStateM ε σ β) post s ↔ post b s := by
  simp [Ensures]

@[simp] theorem ensures_throw {e : ε} : Ensures (throw e : EStateM ε σ β) post s ↔ True := by
  simp [Ensures]

@[simp] theorem ensures_bind {x : EStateM ε σ α} {f : α → EStateM ε σ β} :
    Ensures (x >>= f) post s ↔ Ensures x (fun a s' => Ensures (f a) post s') s := by
  simp only [Ensures, bind_eq_ok]
  constructor
  · intro h a s' hx b s'' hf
    exact h b s'' ⟨a, s', hx, hf⟩
  · rintro h b s'' ⟨a, s', hx, hf⟩
    exact h a s' hx b s'' hf

@[simp] theorem ensures_map {x : EStateM ε σ α} {f : α → β} :
    Ensures (f <$> x) post s ↔ Ensures x (fun a s' => post (f a) s') s := by
  simp only [Ensures, map_eq_ok]
  constructor
  · intro h a s' hx
    exact h (f a) s' ⟨a, hx, rfl⟩
  · rintro h b s' ⟨a, hx, rfl⟩
    exact h a s' hx

@[simp] theorem ensures_get {post : σ → σ → Prop} :
    Ensures (get : EStateM ε σ σ) post s ↔ post s s := by
  simp [Ensures]

@[simp] theorem ensures_modify {f : σ → σ} {post : Unit → σ → Prop} :
    Ensures (modify f : EStateM ε σ Unit) post s ↔ post () (f s) := by
  constructor
  · intro h
    exact h () (f s) rfl
  · rintro h _ _ ⟨⟩
    exact h

/-! ### Steps that come to the same -/

theorem bind_congr_left {x y : EStateM ε σ α} {f : α → EStateM ε σ β} (same : x s = y s) :
    (x >>= f) s = (y >>= f) s := by
  rw [bind_run, bind_run, same]

theorem bind_congr_of_ensures {x : EStateM ε σ α} {f g : α → EStateM ε σ β}
    (same : Ensures x (fun a s' => f a s' = g a s') s) : (x >>= f) s = (x >>= g) s := by
  rw [bind_run, bind_run]
  cases isRun : x s with
  | ok a s' =>
      exact same a s' isRun
  | error error s' => rfl

end MiniPascal
