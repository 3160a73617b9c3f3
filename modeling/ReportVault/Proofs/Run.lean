/-!
# ReportVault.Proofs.Run

Running computations that have a state and may fail.

A computation in `ExceptT ε (StateM σ)` is run from a state to its answer and the state after it.
The lemmas say what the run of a sequence is when the run of its first part is known.
-/

namespace ReportVault

variable {σ ε α β : Type}

/-- The first part is run, and then the rest unless it failed. -/
theorem run_bind_eq (x : ExceptT ε (StateM σ) α) (f : α → ExceptT ε (StateM σ) β) (s : σ) :
    (x >>= f).run s =
      match x.run s with
      | (.ok a, q) => (f a).run q
      | (.error e, q) => (.error e, q) := by
  show ExceptT.bindCont f (x.run s).1 (x.run s).2 = _
  obtain ⟨r, q⟩ := x.run s
  cases r <;> rfl

/-- After a success the rest is run. -/
theorem run_bind_of_ok {x : ExceptT ε (StateM σ) α} {f : α → ExceptT ε (StateM σ) β} {s q : σ}
    {a : α} (h : x.run s = (.ok a, q)) : (x >>= f).run s = (f a).run q := by
  rw [run_bind_eq, h]

/-- After a failure nothing more is run. -/
theorem run_bind_of_error {x : ExceptT ε (StateM σ) α} {f : α → ExceptT ε (StateM σ) β} {s q : σ}
    {e : ε} (h : x.run s = (.error e, q)) : (x >>= f).run s = (.error e, q) := by
  rw [run_bind_eq, h]

/-- What succeeds as a whole succeeds in its first part and in the rest. -/
theorem exists_of_run_bind {x : ExceptT ε (StateM σ) α} {f : α → ExceptT ε (StateM σ) β}
    {s t : σ} {b : β} (h : (x >>= f).run s = (.ok b, t)) :
    ∃ a q, x.run s = (.ok a, q) ∧ (f a).run q = (.ok b, t) := by
  cases hx : x.run s with
  | mk r q =>
    cases r with
    | ok a => exact ⟨a, q, rfl, (run_bind_of_ok hx).symm.trans h⟩
    | error e =>
      rw [run_bind_of_error hx] at h
      cases h

/-- The same without a state. -/
theorem exists_of_bind_eq_ok {x : Except ε α} {f : α → Except ε β} {b : β}
    (h : x >>= f = .ok b) : ∃ a, x = .ok a ∧ f a = .ok b := by
  cases x with
  | error e => cases h
  | ok a => exact ⟨a, rfl, h⟩

/-- What the first part does and what the rest does is what both do. -/
theorem related_run_bind {R : σ → σ → Prop} (htrans : ∀ {p q r}, R p q → R q r → R p r)
    {x : ExceptT ε (StateM σ) α} {f : α → ExceptT ε (StateM σ) β} {s : σ}
    (hx : R s (x.run s).2) (hf : ∀ a q, x.run s = (.ok a, q) → R q ((f a).run q).2) :
    R s ((x >>= f).run s).2 := by
  cases hrun : x.run s with
  | mk r q =>
    rw [hrun] at hx
    cases r with
    | ok a =>
      rw [run_bind_of_ok hrun]
      exact htrans hx (hf a q hrun)
    | error e =>
      rw [run_bind_of_error hrun]
      exact hx

/-- The first part is run, and then the handler if it failed. -/
theorem run_tryCatch_eq (x : ExceptT ε (StateM σ) α) (f : ε → ExceptT ε (StateM σ) α) (s : σ) :
    (tryCatch x f).run s =
      match x.run s with
      | (.ok a, q) => (.ok a, q)
      | (.error e, q) => (f e).run q := by
  show (match (x.run s).1 with
    | .ok a => (pure (.ok a) : StateM σ (Except ε α))
    | .error e => f e) (x.run s).2 = _
  obtain ⟨r, q⟩ := x.run s
  cases r <;> rfl

/-- Nothing is caught after a success. -/
theorem run_tryCatch_of_ok {x : ExceptT ε (StateM σ) α} {f : ε → ExceptT ε (StateM σ) α} {s q : σ}
    {a : α} (h : x.run s = (.ok a, q)) : (tryCatch x f).run s = (.ok a, q) := by
  rw [run_tryCatch_eq, h]

/-- After a failure the handler is run. -/
theorem run_tryCatch_of_error {x : ExceptT ε (StateM σ) α} {f : ε → ExceptT ε (StateM σ) α}
    {s q : σ} {e : ε} (h : x.run s = (.error e, q)) : (tryCatch x f).run s = (f e).run q := by
  rw [run_tryCatch_eq, h]

/-- What may fail without using the state. -/
theorem run_liftM_except (x : Except ε α) (s : σ) :
    (liftM x : ExceptT ε (StateM σ) α).run s = (x, s) := rfl

/-- What cannot fail is run as it is. -/
theorem run_liftM_state (x : StateM σ α) (s : σ) :
    (liftM x : ExceptT ε (StateM σ) α).run s = (.ok (x s).1, (x s).2) := rfl

/-- The first part that cannot fail is run, and then the rest. -/
theorem stateM_bind (x : StateM σ α) (f : α → StateM σ β) (s : σ) :
    (x >>= f) s = f (x s).1 (x s).2 := rfl

theorem run_bind {x : StateM σ α} {s t : σ} {a : α} (h : x s = (a, t)) (f : α → StateM σ β) :
    (x >>= f) s = f a t := by
  rw [stateM_bind, h]

/-- The same where the rest may fail. -/
theorem run_bind_lift {x : StateM σ α} {s t : σ} {a : α} (h : x s = (a, t))
    (f : α → ExceptT ε (StateM σ) β) : (liftM x >>= f).run s = (f a).run t :=
  run_bind_of_ok (by rw [run_liftM_state, h])

theorem run_bind_ok {x : Except ε α} {a : α} (h : x = .ok a)
    (f : α → ExceptT ε (StateM σ) β) (s : σ) : (liftM x >>= f).run s = (f a).run s :=
  run_bind_of_ok (by rw [run_liftM_except, h])

theorem run_bind_error {x : Except ε α} {e : ε} (h : x = .error e)
    (f : α → ExceptT ε (StateM σ) β) (s : σ) : (liftM x >>= f).run s = (.error e, s) :=
  run_bind_of_error (by rw [run_liftM_except, h])

/-- A loop of steps that leave the state as it is. -/
theorem run_mapM_of_same {f : β → StateM σ α} {g : β → α} {s : σ} {l : List β}
    (h : ∀ b ∈ l, f b s = (g b, s)) : l.mapM f s = (l.map g, s) := by
  induction l with
  | nil => rfl
  | cons b l ih =>
    rw [List.mapM_cons]
    refine (run_bind (h b List.mem_cons_self) _).trans ?_
    exact (run_bind (ih fun c hc => h c (List.mem_cons_of_mem _ hc)) _).trans rfl

/-- A loop of steps that cannot fail does not fail. -/
theorem exists_run_forM (f : β → StateM σ Unit) (l : List β) (s : σ) :
    ∃ t, (l.forM fun b => (liftM (f b) : ExceptT ε (StateM σ) Unit)).run s = (.ok (), t) := by
  induction l generalizing s with
  | nil => exact ⟨s, rfl⟩
  | cons b l ih =>
    obtain ⟨t, ht⟩ := ih (f b s).2
    refine ⟨t, ?_⟩
    show ((liftM (f b) : ExceptT ε (StateM σ) Unit) >>= fun _ => l.forM _).run s = _
    rw [run_bind_of_ok (run_liftM_state (f b) s)]
    exact ht

end ReportVault
