import UserManagedAccess.Server.Program

/-! Runs of actions, step by step: an action hands its state on whether it succeeds or fails, and a
failure ends what follows. -/
namespace UserManagedAccess.Action
variable {α β : Type}

@[simp] theorem run_pure (a : α) (s : ServerState) : (pure a : Action α).run s = (.ok a, s) := rfl

@[simp] theorem run_throw (e : Error) (s : ServerState) :
    (throw e : Action α).run s = (.error e, s) := rfl

theorem run_bind (x : Action α) (f : α → Action β) (s : ServerState) :
    (x >>= f).run s =
      match x.run s with
      | (.ok a, s') => (f a).run s'
      | (.error e, s') => (.error e, s') := by
  change Program.run (ExceptT.run x >>= ExceptT.bindCont f) s = _
  rw [Program.run_bind]
  change _ = match Program.run (ExceptT.run x) s with
    | (.ok a, s') => (f a).run s'
    | (.error e, s') => (.error e, s')
  rcases Program.run (ExceptT.run x) s with ⟨_ | _, _⟩ <;> rfl

theorem run_bind_of_ok {x : Action α} {f : α → Action β} {s s' : ServerState} {a : α}
    (h : x.run s = (.ok a, s')) : (x >>= f).run s = (f a).run s' := by
  rw [run_bind, h]

theorem run_bind_of_error {x : Action α} {f : α → Action β} {s s' : ServerState} {e : Error}
    (h : x.run s = (.error e, s')) : (x >>= f).run s = (.error e, s') := by
  rw [run_bind, h]

@[simp] theorem run_perform (op : Operation) (s : ServerState) :
    (perform op).run s = (.ok (op.run s).1, (op.run s).2) := rfl

@[simp] theorem run_lift (p : Program α) (s : ServerState) :
    (lift p).run s = (.ok (p.run s).1, (p.run s).2) := by
  change Program.run (p >>= fun a => pure (Except.ok a)) s = _
  rw [Program.run_bind]
  rfl

@[simp] theorem run_liftExcept (x : Except Error α) (s : ServerState) :
    (liftM x : Action α).run s = (x, s) := by
  cases x <;> rfl

theorem run_liftExcept_of_eq {x result : Except Error α} (h : x = result) (s : ServerState) :
    (liftM x : Action α).run s = (result, s) := by
  rw [run_liftExcept, h]

/-- Asking others leaves a note and nothing else. -/
@[simp] theorem run_fetch (fetcher : Fetcher) (m : Fetching α) (s : ServerState) :
    (fetch fetcher m).run s =
      ((m fetcher).result, { s with requested := s.requested ++ (m fetcher).requested }) := by
  refine (run_bind_of_ok (run_perform (.note (m fetcher).requested) s)).trans ?_
  cases (m fetcher).result <;> rfl

end UserManagedAccess.Action
