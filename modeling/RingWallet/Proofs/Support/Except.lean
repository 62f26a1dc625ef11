import Mathlib.Data.List.Forall2

/-!
# Taking results apart

What it takes for a chain of steps that may fail to give a result: `Except.bind_eq_ok` for two steps
in a row, `Except.forall₂_of_mapM_eq_ok` and `Except.mem_of_mapM_eq_ok` for a step on every item of
a list, `Except.mapError_eq_ok` for a step whose error is wrapped, and `Except.toOption_eq_some`
where the error is forgotten. `ExceptT.run_bind_eq_ok` is about two steps that also change a state.
-/

set_option autoImplicit false

namespace Except

variable {ε ε' α β : Type}

/-- Two steps give a result when both do, one after the other. -/
theorem bind_eq_ok {x : Except ε α} {f : α → Except ε β} {b : β} :
    x >>= f = .ok b ↔ ∃ a, x = .ok a ∧ f a = .ok b := by
  cases x with
  | error e => simp [bind, Except.bind]
  | ok a => simp [bind, Except.bind]

/-- Two steps fail when the first one does, or the second one after it. -/
theorem bind_eq_error {x : Except ε α} {f : α → Except ε β} {e : ε} :
    x >>= f = .error e ↔ x = .error e ∨ ∃ a, x = .ok a ∧ f a = .error e := by
  cases x with
  | error e' => simp [bind, Except.bind]
  | ok a => simp [bind, Except.bind]

/-- What follows a value goes on with it. -/
@[simp] theorem ok_bind (a : α) (f : α → Except ε β) : ok a >>= f = f a := rfl

/-- Only errors are wrapped. -/
theorem mapError_ok (f : ε → ε') (a : α) : (ok a : Except ε α).mapError f = .ok a := rfl

/-- An error is wrapped by the function itself. -/
theorem mapError_error (f : ε → ε') (e : ε) : (error e : Except ε α).mapError f = .error (f e) :=
  rfl

/-- A wrapped error is still an error. -/
theorem mapError_eq_ok {x : Except ε α} {f : ε → ε'} {a : α} :
    x.mapError f = .ok a ↔ x = .ok a := by
  cases x with
  | error e => simp [mapError_error]
  | ok a => simp [mapError_ok]

/-- A wrapped error is wrapped from the error. -/
theorem mapError_eq_error {x : Except ε α} {f : ε → ε'} {e' : ε'} :
    x.mapError f = .error e' ↔ ∃ e, x = .error e ∧ f e = e' := by
  cases x with
  | error e => simp [mapError_error]
  | ok a => simp [mapError_ok]

/-- A result without its error is a value exactly if the result is this value. -/
theorem toOption_eq_some {x : Except ε α} {a : α} : x.toOption = some a ↔ x = .ok a := by
  cases x with
  | error e => simp [Except.toOption]
  | ok a => simp [Except.toOption]

/-- The items of the result are those of the list, one by one. -/
theorem forall₂_of_mapM_eq_ok {f : α → Except ε β} {items : List α} {found : List β}
    (run : items.mapM f = .ok found) : List.Forall₂ (fun a b => f a = .ok b) items found := by
  induction items generalizing found with
  | nil =>
    obtain rfl : [] = found := ok.inj run
    exact .nil
  | cons a rest ih =>
    rw [List.mapM_cons, bind_eq_ok] at run
    obtain ⟨first, ha, run⟩ := run
    obtain ⟨others, hrest, run⟩ := bind_eq_ok.mp run
    obtain rfl : first :: others = found := ok.inj run
    exact .cons ha (ih hrest)

/-- A step fails on some item if it fails on the list. -/
theorem exists_of_mapM_eq_error {f : α → Except ε β} {items : List α} {e : ε}
    (run : items.mapM f = .error e) : ∃ a ∈ items, f a = .error e := by
  induction items with
  | nil => cases run
  | cons a rest ih =>
    rw [List.mapM_cons, bind_eq_error] at run
    rcases run with first | ⟨b, -, run⟩
    · exact ⟨a, List.mem_cons_self, first⟩
    · rcases bind_eq_error.mp run with later | ⟨others, -, last⟩
      · obtain ⟨a', mem, fails⟩ := ih later
        exact ⟨a', List.mem_cons_of_mem a mem, fails⟩
      · cases last

/-- Every item of the result comes from an item of the list. -/
theorem mem_of_mapM_eq_ok {f : α → Except ε β} {items : List α} {found : List β}
    (run : items.mapM f = .ok found) {b : β} (hb : b ∈ found) : ∃ a ∈ items, f a = .ok b := by
  have pairs := forall₂_of_mapM_eq_ok run
  clear run
  induction pairs with
  | nil => cases hb
  | cons ha _ ih =>
    rcases List.mem_cons.mp hb with rfl | hb
    · exact ⟨_, List.mem_cons_self, ha⟩
    · obtain ⟨a', ha', eq⟩ := ih hb
      exact ⟨a', List.mem_cons_of_mem _ ha', eq⟩

end Except

namespace ExceptT

variable {ε σ α β : Type}

/-- Two steps that change a state give a result when both do, one after the other. -/
theorem run_bind_eq_ok {x : ExceptT ε (StateM σ) α} {f : α → ExceptT ε (StateM σ) β} {s u : σ}
    {b : β} : (x >>= f).run.run s = (.ok b, u) ↔
      ∃ a t, x.run.run s = (.ok a, t) ∧ (f a).run.run t = (.ok b, u) := by
  show (x.run.run s >>= fun p => (ExceptT.bindCont f p.1).run p.2 : Id (Except ε β × σ)) = _ ↔ _
  -- an error is passed on by the bind, and a value is what the second step goes on with
  rcases x.run.run s with ⟨e | a, t⟩
  · show ((.error e, t) : Except ε β × σ) = _ ↔ _
    constructor
    · exact fun run => nomatch (Prod.mk.inj run).1
    · rintro ⟨a, t', same, -⟩
      exact nomatch (Prod.mk.inj same).1
  · show (f a).run.run t = _ ↔ _
    constructor
    · exact fun run => ⟨a, t, rfl, run⟩
    · rintro ⟨a', t', same, run⟩
      obtain ⟨value, rfl⟩ := Prod.mk.inj same
      obtain rfl := Except.ok.inj value
      exact run

/-- Two steps that change a state: the second one runs from where the first one succeeded. -/
theorem run_bind_cases (x : ExceptT ε (StateM σ) α) (f : α → ExceptT ε (StateM σ) β) (s : σ) :
    (x >>= f).run.run s = match x.run.run s with
      | (.ok a, t) => (f a).run.run t
      | (.error e, t) => (.error e, t) := by
  show (x.run.run s >>= fun p => (ExceptT.bindCont f p.1).run p.2 : Id (Except ε β × σ)) = _
  rcases x.run.run s with ⟨e | a, t⟩
  · rfl
  · rfl

/-- After a step that succeeds, the second one decides. -/
theorem run_bind_ok {x : ExceptT ε (StateM σ) α} {s t : σ} {a : α} (run : x.run.run s = (.ok a, t))
    (f : α → ExceptT ε (StateM σ) β) : (x >>= f).run.run s = (f a).run.run t := by
  rw [run_bind_cases, run]

/-- A step that cannot fail. -/
theorem run_liftState (x : StateM σ α) (s : σ) :
    (x : ExceptT ε (StateM σ) α).run.run s = (.ok (x.run s).1, (x.run s).2) := rfl

/-- A step without a state. -/
theorem run_lift_eq_ok {x : Except ε α} {s u : σ} {a : α} :
    ((x : ExceptT ε (StateM σ) α).run.run s = (.ok a, u)) ↔ x = .ok a ∧ u = s := by
  show ((x, s) : Except ε α × σ) = _ ↔ _
  rw [Prod.mk.injEq]
  exact and_congr_right fun _ => eq_comm

/-- A step whose error is wrapped. -/
theorem run_adapt_eq_ok {ε' : Type} {f : ε → ε'} {x : ExceptT ε (StateM σ) α} {s u : σ} {a : α} :
    (x.adapt f).run.run s = (.ok a, u) ↔ x.run.run s = (.ok a, u) := by
  show ((x.run.run s).1.mapError f, (x.run.run s).2) = _ ↔ _
  rw [Prod.mk.injEq, Except.mapError_eq_ok, ← Prod.mk.injEq]
  rfl

/-! ### The errors of a program -/

/-- Every error with which a program may end, from a state, satisfies a condition. -/
def Raises (E : ε → Prop) (x : ExceptT ε (StateM σ) α) (s : σ) : Prop :=
  ∀ e t, x.run.run s = (.error e, t) → E e

variable {E : ε → Prop} {s : σ}

/-- Two steps in a row raise what either of them raises. -/
theorem Raises.bind {x : ExceptT ε (StateM σ) α} {f : α → ExceptT ε (StateM σ) β}
    (first : Raises E x s) (second : ∀ a t, x.run.run s = (.ok a, t) → Raises E (f a) t) :
    Raises E (x >>= f) s := by
  intro e u run
  rw [run_bind_cases] at run
  rcases step : x.run.run s with ⟨e' | a, t⟩
  · rw [step] at run
    obtain ⟨same, rfl⟩ := Prod.mk.inj run
    obtain rfl := Except.error.inj same
    exact first e' t step
  · rw [step] at run
    exact second a t step e u run

/-- After a step that succeeds, the second one decides. -/
theorem Raises.after {x : ExceptT ε (StateM σ) α} {a : α} {t : σ} (run : x.run.run s = (.ok a, t))
    {f : α → ExceptT ε (StateM σ) β} (later : Raises E (f a) t) : Raises E (x >>= f) s := by
  intro e u fails
  rw [run_bind_ok run] at fails
  exact later e u fails

/-- A value raises nothing. -/
theorem raises_pure (a : α) : Raises E (pure a : ExceptT ε (StateM σ) α) s :=
  fun _ _ run => nomatch (Prod.mk.inj run).1

/-- A thrown error is the only one that is raised. -/
theorem raises_throw {e : ε} (holds : E e) : Raises E (throw e : ExceptT ε (StateM σ) α) s := by
  intro e' t run
  obtain rfl := Except.error.inj (Prod.mk.inj run).1
  exact holds

/-- A step that only changes the state raises nothing. -/
theorem raises_liftState (x : StateM σ α) : Raises E (x : ExceptT ε (StateM σ) α) s :=
  fun _ _ run => nomatch (Prod.mk.inj run).1

/-- A result that is lifted raises its own error. -/
theorem raises_lift {x : Except ε α} (each : ∀ e, x = .error e → E e) :
    Raises E (x : ExceptT ε (StateM σ) α) s :=
  fun e _ run => each e (Prod.mk.inj run).1

/-- A step whose errors are wrapped raises wrapped errors only. -/
theorem raises_adapt {ε' : Type} {f : ε' → ε} (each : ∀ e, E (f e)) (x : ExceptT ε' (StateM σ) α) :
    Raises E (x.adapt f) s := by
  intro e t run
  obtain ⟨e', -, rfl⟩ := Except.mapError_eq_error.mp (Prod.mk.inj run).1
  exact each e'

end ExceptT
