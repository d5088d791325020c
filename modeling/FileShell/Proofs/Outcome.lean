import Mathlib.Data.List.Forall2

/-! # Results that can fail

When a computation made of steps gives a result, every step has given one. The equations below take
such a computation apart, so that later proofs never look inside the type of results. -/

namespace FileShell.Outcome

variable {ε δ α β : Type}

@[simp] theorem pure_eq (a : α) : (pure a : Except ε α) = .ok a := rfl

@[simp] theorem throw_eq (e : ε) : (throw e : Except ε α) = .error e := rfl

@[simp] theorem ok_bind (a : α) (f : α → Except ε β) : (Except.ok a >>= f) = f a := rfl

@[simp] theorem error_bind (e : ε) (f : α → Except ε β) : (Except.error e >>= f) = .error e := rfl

@[simp] theorem map_ok (f : α → β) (a : α) : f <$> (.ok a : Except ε α) = .ok (f a) := rfl

@[simp] theorem map_error (f : α → β) (e : ε) : f <$> (.error e : Except ε α) = .error e := rfl

/-- **A sequence gives a result** if and only if both of its steps do. -/
theorem bind_eq_ok {x : Except ε α} {f : α → Except ε β} {b : β} :
    (x >>= f) = .ok b ↔ ∃ a, x = .ok a ∧ f a = .ok b := by
  cases x <;> simp

/-- **A sequence fails** if its first step does, or if that gives a result and the second step
fails. -/
theorem bind_eq_error {x : Except ε α} {f : α → Except ε β} {e : ε} :
    (x >>= f) = .error e ↔ x = .error e ∨ ∃ a, x = .ok a ∧ f a = .error e := by
  cases x <;> simp

/-- A changed result stems from a result. -/
theorem map_eq_ok {x : Except ε α} {f : α → β} {b : β} :
    f <$> x = .ok b ↔ ∃ a, x = .ok a ∧ f a = b := by
  cases x <;> simp

/-- Another wording of the failure gives the same results. -/
@[simp] theorem mapError_eq_ok_iff {x : Except ε α} {wording : ε → δ} {a : α} :
    x.mapError wording = .ok a ↔ x = .ok a := by
  cases x with
  | ok b =>
    change (Except.ok b : Except δ α) = .ok a ↔ _
    simp
  | error e =>
    change (Except.error (wording e) : Except δ α) = .ok a ↔ _
    simp

/-- Another wording of the failure is the wording of a failure. -/
theorem mapError_eq_error_iff {x : Except ε α} {wording : ε → δ} {d : δ} :
    x.mapError wording = .error d ↔ ∃ e, x = .error e ∧ wording e = d := by
  cases x with
  | ok a =>
    change (Except.ok a : Except δ α) = .error d ↔ _
    simp
  | error e =>
    change (Except.error (wording e) : Except δ α) = .error d ↔ _
    simp

/-- What is kept of a result is the result. -/
theorem toOption_eq_some {x : Except ε α} {a : α} : x.toOption = some a ↔ x = .ok a := by
  cases x <;> simp [Except.toOption]

/-! ## Failing -/

/-- **A computation fails**, for whatever cause. -/
def Fails (x : Except ε α) : Prop := ∃ e, x = .error e

@[simp] theorem fails_error (e : ε) : Fails (.error e : Except ε α) := ⟨e, rfl⟩

@[simp] theorem not_fails_ok (a : α) : ¬Fails (.ok a : Except ε α) := nofun

/-- What does not fail gives a result. -/
theorem fails_or_exists_ok (x : Except ε α) : Fails x ∨ ∃ a, x = .ok a := by
  cases x with
  | error e => exact .inl (fails_error e)
  | ok a => exact .inr ⟨a, rfl⟩

/-- A computation gives a result if and only if it does not fail. -/
theorem exists_eq_ok_iff {x : Except ε α} : (∃ a, x = .ok a) ↔ ¬Fails x := by
  cases x <;> simp

/-- A check passes if and only if it does not fail. -/
theorem check_eq_ok_iff {x : Except ε Unit} : x = .ok () ↔ ¬Fails x := by
  cases x <;> simp

/-- **A sequence fails** with its first step, or with its second one after a result of the first. -/
theorem fails_bind {x : Except ε α} {f : α → Except ε β} :
    Fails (x >>= f) ↔ Fails x ∨ ∃ a, x = .ok a ∧ Fails (f a) := by
  cases x <;> simp

/-- Where it does not matter which result the first step gives, the sequence fails with either. -/
theorem fails_bind_iff {x : Except ε α} {f : α → Except ε β} {p : Prop}
    (h : ∀ a, x = .ok a → (Fails (f a) ↔ p)) : Fails (x >>= f) ↔ Fails x ∨ p := by
  cases x with
  | error e => simp
  | ok a => simpa using h a rfl

@[simp] theorem fails_map {x : Except ε α} {f : α → β} : Fails (f <$> x) ↔ Fails x := by
  cases x <;> simp

/-- Another wording of the failure is no other failure. -/
@[simp] theorem fails_mapError {x : Except ε α} {wording : ε → δ} :
    Fails (x.mapError wording) ↔ Fails x := by
  constructor
  · rintro ⟨d, h⟩
    obtain ⟨e, he, -⟩ := mapError_eq_error_iff.1 h
    exact ⟨e, he⟩
  · rintro ⟨e, h⟩
    exact ⟨wording e, mapError_eq_error_iff.2 ⟨e, h, rfl⟩⟩

/-! ## Agreement -/

/-- **Two computations agree**: both fail for one cause, or both give results, which are related. -/
inductive Agree (R : α → β → Prop) : Except ε α → Except ε β → Prop
  /-- Both give results. -/
  | ok {a : α} {b : β} (related : R a b) : Agree R (.ok a) (.ok b)
  /-- Both fail. -/
  | error (e : ε) : Agree R (.error e) (.error e)

/-- A computation agrees with itself. -/
theorem Agree.refl (x : Except ε α) : Agree (· = ·) x x := by
  cases x with
  | error e => exact .error e
  | ok a => exact .ok rfl

/-- **Sequences agree** whose first steps agree, and whose second steps do after related results. -/
theorem Agree.bind {γ δ : Type} {R : α → β → Prop} {S : γ → δ → Prop} {x : Except ε α}
    {y : Except ε β} {f : α → Except ε γ} {g : β → Except ε δ} (h : Agree R x y)
    (hfg : ∀ a b, R a b → Agree S (f a) (g b)) : Agree S (x >>= f) (y >>= g) := by
  cases h with
  | error e => exact .error e
  | ok related => exact hfg _ _ related

/-! ## Lists of results -/

@[simp] theorem mapM_nil_eq_ok {f : α → Except ε β} {bs : List β} :
    [].mapM f = .ok bs ↔ bs = [] := by
  rw [List.mapM_nil, pure_eq, Except.ok.injEq, eq_comm]

/-- **A list gives its results** if and only if its first element and the rest give theirs. -/
theorem mapM_cons_eq_ok {f : α → Except ε β} {a : α} {l : List α} {bs : List β} :
    (a :: l).mapM f = .ok bs ↔ ∃ b cs, f a = .ok b ∧ l.mapM f = .ok cs ∧ bs = b :: cs := by
  rw [List.mapM_cons, bind_eq_ok]
  constructor
  · rintro ⟨b, hb, h⟩
    obtain ⟨cs, hcs, h⟩ := bind_eq_ok.1 h
    exact ⟨b, cs, hb, hcs, (Except.ok.inj h).symm⟩
  · rintro ⟨b, cs, hb, hcs, rfl⟩
    exact ⟨b, hb, bind_eq_ok.2 ⟨cs, hcs, rfl⟩⟩

/-- **A list gives its results** if and only if each of its elements gives its own. -/
theorem mapM_eq_ok_iff {f : α → Except ε β} {l : List α} {bs : List β} :
    l.mapM f = .ok bs ↔ List.Forall₂ (fun a b => f a = .ok b) l bs := by
  induction l generalizing bs with
  | nil => rw [mapM_nil_eq_ok, List.forall₂_nil_left_iff]
  | cons a l ih =>
    rw [mapM_cons_eq_ok, List.forall₂_cons_left_iff]
    simp only [ih]

/-- Every element of a list that gives its results gives one. -/
theorem exists_eq_ok_of_mapM {f : α → Except ε β} {l : List α} {bs : List β}
    (h : l.mapM f = .ok bs) {a : α} (ha : a ∈ l) : ∃ b, f a = .ok b := by
  induction l generalizing bs with
  | nil => cases ha
  | cons c l ih =>
    obtain ⟨b, cs, hb, hcs, -⟩ := mapM_cons_eq_ok.1 h
    rcases List.mem_cons.1 ha with rfl | ha
    · exact ⟨b, hb⟩
    · exact ih hcs ha

end FileShell.Outcome
