import UserManagedAccess.Fetching

/-! Results of fetching, whatever was asked for on the way. -/
namespace UserManagedAccess

theorem exists_of_bind_eq_ok {ε α β : Type} {x : Except ε α} {f : α → Except ε β} {b : β}
    (h : (x >>= f) = .ok b) : ∃ a, x = .ok a ∧ f a = .ok b := by
  cases x with
  | error e => cases h
  | ok a => exact ⟨a, rfl, h⟩

theorem exists_of_map_eq_ok {ε α β : Type} {x : Except ε α} {f : α → β} {b : β}
    (h : x.map f = .ok b) : ∃ a, x = .ok a ∧ b = f a := by
  cases x with
  | error e => cases h
  | ok a =>
    cases h
    exact ⟨a, rfl, rfl⟩

theorem mapError_eq_ok {ε ε' α : Type} {x : Except ε α} {f : ε → ε'} {a : α} :
    x.mapError f = .ok a ↔ x = .ok a := by
  constructor
  · intro h
    cases x with
    | error e => cases h
    | ok b =>
      cases h
      rfl
  · rintro rfl
    rfl

theorem toOption_eq_some_iff {ε α : Type} {x : Except ε α} {a : α} :
    x.toOption = some a ↔ x = .ok a := by
  cases x <;> simp [Except.toOption]

theorem eq_ok_of_toOption {ε α : Type} {x : Except ε α} {a : α} (h : x.toOption = some a) :
    x = .ok a :=
  toOption_eq_some_iff.mp h

theorem exists_ok_of_isOk {ε α : Type} {x : Except ε α} (h : x.isOk = true) : ∃ a, x = .ok a := by
  cases x with
  | error e => cases h
  | ok a => exact ⟨a, rfl⟩

namespace Fetching
variable {α β : Type} (fetcher : Fetcher)

@[simp] theorem result_pure (a : α) : ((pure a : Fetching α) fetcher).result = .ok a := rfl

@[simp] theorem result_ofExcept (result : Except Error α) :
    (ofExcept result fetcher).result = result := rfl

@[simp] theorem result_liftM (result : Except Error α) :
    ((liftM result : Fetching α) fetcher).result = result := rfl

@[simp] theorem result_ask (url : String) :
    (ask url fetcher).result = fetcher url := rfl

theorem result_bind (m : Fetching α) (f : α → Fetching β) :
    ((m >>= f) fetcher).result = (m fetcher).result >>= fun a => (f a fetcher).result := by
  change (Fetching.bind m f fetcher).result = _
  rw [Fetching.bind]
  rcases m fetcher with ⟨requested, _ | _⟩ <;> rfl

theorem result_bind_eq_ok {m : Fetching α} {f : α → Fetching β} {b : β} :
    ((m >>= f) fetcher).result = .ok b ↔
      ∃ a, (m fetcher).result = .ok a ∧ (f a fetcher).result = .ok b := by
  rw [result_bind]
  refine ⟨exists_of_bind_eq_ok, ?_⟩
  rintro ⟨a, ha, hb⟩
  rw [ha]
  exact hb

/-- What follows a success is asked for after what was asked for on the way to it. -/
theorem requested_bind_of_ok {m : Fetching α} {f : α → Fetching β} {a : α}
    (h : (m fetcher).result = .ok a) :
    ((m >>= f) fetcher).requested = (m fetcher).requested ++ (f a fetcher).requested := by
  change (Fetching.bind m f fetcher).requested = _
  rw [Fetching.bind]
  rcases hm : m fetcher with ⟨requested, e | b⟩
  · rw [hm] at h
    cases h
  · rw [hm] at h
    cases h
    rfl

/-- After a failure nothing more is asked for. -/
theorem requested_bind_of_error {m : Fetching α} {f : α → Fetching β} {e : Error}
    (h : (m fetcher).result = .error e) :
    ((m >>= f) fetcher).requested = (m fetcher).requested := by
  change (Fetching.bind m f fetcher).requested = _
  rw [Fetching.bind]
  rcases hm : m fetcher with ⟨requested, e' | b⟩
  · rfl
  · rw [hm] at h
    cases h

@[simp] theorem requested_liftM (result : Except Error α) :
    ((liftM result : Fetching α) fetcher).requested = [] := rfl

@[simp] theorem requested_ask (url : String) : (ask url fetcher).requested = [url] := rfl

/-- What is made of a document asks for nothing more. -/
theorem requested_ask_bind (url : String) (f : Json → Except Error α) :
    ((ask url >>= fun document => liftM (f document) : Fetching α) fetcher).requested = [url] := by
  change (Fetching.bind (ask url) (fun document => liftM (f document)) fetcher).requested = _
  rw [Fetching.bind, ask]
  cases fetcher url <;> rfl

@[simp] theorem requested_mapError (f : Error → Error) (m : Fetching α) :
    (mapError f m fetcher).requested = (m fetcher).requested := rfl

theorem map_apply (f : α → β) (m : Fetching α) :
    (f <$> m) fetcher = ⟨(m fetcher).requested, (m fetcher).result.map f⟩ := by
  change Fetching.bind m (fun a => pure (f a)) fetcher = _
  rw [Fetching.bind]
  rcases m fetcher with ⟨requested, e | a⟩
  · rfl
  · exact congrArg (Fetched.mk · _) (List.append_nil requested)

private theorem id_map_fetching (m : Fetching α) : id <$> m = m := by
  funext fetcher
  rw [map_apply]
  rcases m fetcher with ⟨requested, e | a⟩ <;> rfl

private theorem bind_assoc_fetching {γ : Type} (m : Fetching α) (f : α → Fetching β)
    (g : β → Fetching γ) : m >>= f >>= g = m >>= fun a => f a >>= g := by
  funext fetcher
  change Fetching.bind (Fetching.bind m f) g fetcher =
    Fetching.bind m (fun a => Fetching.bind (f a) g) fetcher
  simp only [Fetching.bind]
  rcases m fetcher with ⟨requested, e | a⟩
  · rfl
  · dsimp only
    rcases f a fetcher with ⟨requested', e | b⟩
    · rfl
    · exact congrArg (Fetched.mk · _) (List.append_assoc ..)

/-- What a computation in parts asks for does not depend on how the parts are grouped. -/
instance : LawfulMonad Fetching :=
  LawfulMonad.mk' Fetching id_map_fetching (fun _ _ => rfl) bind_assoc_fetching

theorem result_mapError_eq_ok {m : Fetching α} {f : Error → Error} {a : α} :
    (mapError f m fetcher).result = .ok a ↔ (m fetcher).result = .ok a :=
  mapError_eq_ok

end Fetching

end UserManagedAccess
