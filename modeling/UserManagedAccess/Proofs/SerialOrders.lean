import UserManagedAccess.Proofs.Tasks

/-! Tasks that are done one after the other. If one operation of a task comes before all of them,
there is an order in which that task, too, is done without a break. -/
namespace UserManagedAccess

namespace Task

instance (task : Task) (id : String) : Decidable (task.WaitsFor id) :=
  match task with
  | .waiting own _ _ => inferInstanceAs (Decidable (own = id))
  | .going _ => inferInstanceAs (Decidable False)

/-- Who waits for a ticket that is gone comes to nothing. -/
theorem exists_refusal {task : Task} {id : String} (hwaits : task.WaitsFor id) :
    ∃ refusal, ∀ stores : Stores, stores.tickets.get? id = none →
      task.finish stores = (refusal, stores) := by
  cases task with
  | going => cases hwaits
  | waiting own refusal plans =>
    cases hwaits
    refine ⟨refusal, fun stores hgone => ?_⟩
    simp only [finish, hgone]

end Task

variable {n : Nat} {tasks tasks' : Fin n → Task} {replies : Fin n → Reply}
  {stores middle final : Stores} {order order' : List (Fin n)}

/-- The tasks are done in this order, each without a break, and have these replies. -/
inductive Serial (tasks : Fin n → Task) (replies : Fin n → Reply) :
    Stores → List (Fin n) → Stores → Prop
  | nil (stores : Stores) : Serial tasks replies stores [] stores
  | cons {i : Fin n} {order : List (Fin n)} {stores middle final : Stores}
      (h : (tasks i).finish stores = (replies i, middle))
      (hrest : Serial tasks replies middle order final) :
      Serial tasks replies stores (i :: order) final

namespace Serial

theorem append (h : Serial tasks replies stores order middle)
    (h' : Serial tasks replies middle order' final) :
    Serial tasks replies stores (order ++ order') final := by
  induction h with
  | nil => exact h'
  | cons hfirst _ ih => exact .cons hfirst (ih h')

theorem exists_of_append (h : Serial tasks replies stores (order ++ order') final) :
    ∃ middle, Serial tasks replies stores order middle ∧
      Serial tasks replies middle order' final := by
  induction order generalizing stores with
  | nil => exact ⟨stores, .nil stores, h⟩
  | cons i order ih =>
    cases h with
    | cons hfirst hrest =>
      obtain ⟨middle, hbefore, hafter⟩ := ih hrest
      exact ⟨middle, .cons hfirst hbefore, hafter⟩

/-- Tasks that change nothing may be done in any order. -/
theorem of_idle (h : ∀ i ∈ order, (tasks i).finish stores = (replies i, stores)) :
    Serial tasks replies stores order stores := by
  induction order with
  | nil => exact .nil stores
  | cons i rest ih =>
    exact .cons (h i List.mem_cons_self) (ih fun j hj => h j (List.mem_cons_of_mem _ hj))

theorem congr (h : Serial tasks replies stores order final)
    (htasks : ∀ i ∈ order, tasks' i = tasks i) : Serial tasks' replies stores order final := by
  induction h with
  | nil => exact .nil _
  | cons hfirst _ ih =>
    refine .cons ?_ (ih fun j hj => htasks j (List.mem_cons_of_mem _ hj))
    rw [htasks _ List.mem_cons_self, hfirst]

theorem keeps {P : Stores → Prop} (h : Serial tasks replies stores order final)
    (hkeep : ∀ i ∈ order, ∀ stores, P stores → P ((tasks i).finish stores).2) (hP : P stores) :
    P final := by
  induction h with
  | nil => exact hP
  | cons hfirst _ ih =>
    have hmiddle := hkeep _ List.mem_cons_self _ hP
    rw [hfirst] at hmiddle
    exact ih (fun j hj => hkeep j (List.mem_cons_of_mem _ hj)) hmiddle

/-- A change that commutes with the tasks may be made before them or after them. -/
theorem change_iff {change : Stores → Stores} (hcomm : ∀ i ∈ order, (tasks i).CommutesWith change) :
    Serial tasks replies (change stores) order final ↔
      ∃ unchanged, Serial tasks replies stores order unchanged ∧ final = change unchanged := by
  induction order generalizing stores with
  | nil =>
    constructor
    · rintro ⟨⟩
      exact ⟨stores, .nil stores, rfl⟩
    · rintro ⟨_, ⟨⟩, rfl⟩
      exact .nil _
  | cons i order ih =>
    have hfirst := hcomm i List.mem_cons_self stores
    replace ih := @ih ((tasks i).finish stores).2 fun j hj => hcomm j (List.mem_cons_of_mem _ hj)
    constructor
    · rintro (_ | ⟨h, hrest⟩)
      obtain ⟨hreply, rfl⟩ := Prod.mk.inj (hfirst.symm.trans h)
      obtain ⟨unchanged, hunchanged, rfl⟩ := ih.mp hrest
      exact ⟨unchanged, .cons (Prod.ext hreply rfl) hunchanged, rfl⟩
    · rintro ⟨unchanged, _ | ⟨h, hrest⟩, rfl⟩
      rw [h] at hfirst ih
      exact .cons hfirst (ih.mpr ⟨unchanged, hrest, rfl⟩)

/-- A task that grants may be the first to be done. -/
theorem to_front {i : Fin n} {before after : List (Fin n)} {reply : Reply} {puts : List Put}
    (h : Serial tasks replies stores (before ++ i :: after) final)
    (htask : tasks i = .going (.grants reply puts))
    (hapart : ∀ j ∈ before, ∀ p ∈ puts, ¬ (tasks j).MayStore p.key) :
    Serial tasks replies stores (i :: (before ++ after)) final := by
  obtain ⟨middle, hbefore, hafter⟩ := h.exists_of_append
  have hcomm (j : Fin n) (hj : j ∈ before) := Task.commutesWith_puts (hapart j hj)
  rcases hafter with _ | ⟨hi, hafter⟩
  rw [htask] at hi
  obtain ⟨hreply, rfl⟩ := Prod.mk.inj hi
  have hfirst : (tasks i).finish stores = (replies i, puts.foldl Put.apply stores) := by
    rw [htask, ← hreply]
    rfl
  exact .cons hfirst (((change_iff hcomm).mpr ⟨middle, hbefore, rfl⟩).append hafter)

/-- Those who wait for a ticket that is gone may wait to the end. -/
theorem waiters_last {id : String} (h : Serial tasks replies stores order final)
    (hnew : ∀ i, ¬ (tasks i).MayStore id) (hgone : stores.tickets.get? id = none) :
    Serial tasks replies stores
        (order.filter (fun i => !decide ((tasks i).WaitsFor id)) ++
          order.filter fun i => decide ((tasks i).WaitsFor id)) final := by
  suffices hparts : Serial tasks replies stores
      (order.filter fun i => !decide ((tasks i).WaitsFor id)) final ∧
      Serial tasks replies final (order.filter fun i => decide ((tasks i).WaitsFor id)) final from
    hparts.1.append hparts.2
  induction h with
  | nil => exact ⟨.nil _, .nil _⟩
  | @cons i order stores middle final hfirst hrest ih =>
    have hkeep (j : Fin n) (stores : Stores) (hgone : stores.tickets.get? id = none) :
        ((tasks j).finish stores).2.tickets.get? id = none :=
      Task.get?_finish_eq_none (hnew j) hgone
    have hmiddle := hkeep i stores hgone
    rw [hfirst] at hmiddle
    obtain ⟨hothers, hwaiters⟩ := ih hmiddle
    by_cases hwaits : (tasks i).WaitsFor id
    · obtain ⟨refusal, hrefusal⟩ := Task.exists_refusal hwaits
      have hfinal := hrest.keeps (fun j _ => hkeep j) hmiddle
      obtain ⟨rfl, rfl⟩ := Prod.mk.inj ((hrefusal stores hgone).symm.trans hfirst)
      simp only [List.filter_cons, hwaits]
      exact ⟨hothers, .cons (hrefusal final hfinal) hwaiters⟩
    · simp only [List.filter_cons, hwaits]
      exact ⟨.cons hfirst hothers, hwaiters⟩

/-- The same around one task that does not wait for the ticket. -/
theorem exists_waiters_last {i : Fin n} {id : String} {before after : List (Fin n)}
    (h : Serial tasks replies stores (before ++ i :: after) final)
    (hi : ¬ (tasks i).WaitsFor id) (hnew : ∀ j, ¬ (tasks j).MayStore id)
    (hgone : stores.tickets.get? id = none) :
    ∃ before' after', (before' ++ i :: after').Perm (before ++ i :: after) ∧
      (∀ j ∈ before', ¬ (tasks j).WaitsFor id) ∧
      Serial tasks replies stores (before' ++ i :: after') final := by
  let waits (j : Fin n) : Bool := decide ((tasks j).WaitsFor id)
  let others (l : List (Fin n)) : List (Fin n) := l.filter fun j => !waits j
  have hsplit : others (before ++ i :: after) = others before ++ i :: others after := by
    simp only [others, List.filter_append]
    rw [List.filter_cons_of_pos (by simpa [waits] using hi)]
  have hlast := h.waiters_last hnew hgone
  change Serial _ _ _ (others (before ++ i :: after) ++ _) _ at hlast
  rw [hsplit, List.append_assoc, List.cons_append] at hlast
  refine ⟨_, _, ?_, fun j hj => by simpa [others, waits] using (List.mem_filter.mp hj).2, hlast⟩
  rw [← List.cons_append, ← List.append_assoc, ← hsplit]
  exact List.perm_append_comm.trans (List.filter_append_perm _ _)

/-- A ticket that was taken first may be taken late, if nobody who is done before waits for it. -/
theorem take_late {i : Fin n} {id : String} {ticket : Ticket} {before after : List (Fin n)}
    (h : Serial tasks' replies (stores.without id) (before ++ i :: after) final)
    (htasks : ∀ j ∈ before ++ after, tasks' j = tasks j)
    (hmoves : ∀ σ : Stores, σ.tickets.get? id = some ticket →
      (tasks i).Moves σ (tasks' i) (σ.without id))
    (hget : stores.tickets.get? id = some ticket)
    (hwaits : ∀ j ∈ before, ¬ (tasks j).WaitsFor id)
    (hnew : ∀ j, ¬ (tasks j).MayStore id) :
    Serial tasks replies stores (before ++ i :: after) final := by
  obtain ⟨middle', htaken, hafter⟩ := h.exists_of_append
  replace htaken := htaken.congr fun j hj => (htasks j (List.mem_append_left _ hj)).symm
  obtain ⟨middle, hbefore, rfl⟩ := (change_iff fun j hj =>
    Task.commutesWith_without (hwaits j hj) (hnew j)).mp htaken
  have hmiddle : middle.tickets.get? id = some ticket :=
    hbefore.keeps (P := fun σ => σ.tickets.get? id = some ticket)
      (fun j hj _ h => (Task.get?_finish (hwaits j hj) (hnew j)).trans h) hget
  rcases hafter with _ | ⟨hi, hafter⟩
  rw [← (hmoves middle hmiddle).finish_eq] at hi
  exact hbefore.append (.cons hi (hafter.congr fun j hj =>
    (htasks j (List.mem_append_right _ hj)).symm))

end Serial

section Turn
variable {i : Fin n} {stores' : Stores} {before after : List (Fin n)}

/-- What the tasks may store after the turn of one of them, they might have stored before. -/
theorem mayStore_of_moves (hmoves : (tasks i).Moves stores (tasks' i) stores')
    (hothers : ∀ j, j ≠ i → tasks' j = tasks j) {j : Fin n} {id : String}
    (h : (tasks' j).MayStore id) : (tasks j).MayStore id := by
  by_cases heq : j = i
  · subst heq
    exact hmoves.mayStore h
  · exact hothers j heq ▸ h

private theorem ne_of_mem_append (hnodup : (before ++ i :: after).Nodup) {j : Fin n}
    (hj : j ∈ before ++ after) : j ≠ i := by
  rintro rfl
  exact (List.nodup_cons.mp (List.perm_middle.nodup_iff.mp hnodup)).1 hj

/-- A task that grants once it has had its turn is done first: after the turn, it may be done first,
and it comes to the same before the turn. -/
private theorem serial_of_grants (hmoves : (tasks i).Moves stores (tasks' i) stores')
    (htasks : ∀ j ∈ before ++ after, tasks' j = tasks j)
    (hapart : ∀ j ∈ before ++ after, ∀ id, (tasks i).MayStore id → ¬ (tasks j).MayStore id)
    {reply : Reply} {puts : List Put} (htask : tasks' i = .going (.grants reply puts))
    (h : Serial tasks' replies stores' (before ++ i :: after) final) :
    Serial tasks replies stores (i :: (before ++ after)) final := by
  have hbefore (j : Fin n) (hj : j ∈ before) (p : Put) (hp : p ∈ puts) :
      ¬ (tasks' j).MayStore p.key := by
    have hj' := List.mem_append_left after hj
    have hown : (tasks i).MayStore p.key := by
      refine hmoves.mayStore ?_
      rw [htask]
      exact ⟨_, rfl, List.mem_map_of_mem hp⟩
    rw [htasks j hj']
    exact hapart j hj' p.key hown
  rcases h.to_front htask hbefore with _ | ⟨hi, hrest⟩
  rw [← hmoves.finish_eq] at hi
  exact .cons hi (hrest.congr fun j hj => (htasks j hj).symm)

/-- If a task takes a ticket at its turn, those who wait for the same ticket are done last, and the
others as if the ticket were taken later. -/
private theorem serial_of_take {id : String} {refusal : Reply} {plans : Ticket → Plan}
    {ticket : Ticket} (htask : tasks i = .waiting id refusal plans)
    (htask' : tasks' i = .going (plans ticket)) (hget : stores.tickets.get? id = some ticket)
    (hothers : ∀ j, j ≠ i → tasks' j = tasks j) (hnodup : (before ++ i :: after).Nodup)
    (hnew : ∀ j, ¬ (tasks j).MayStore id)
    (h : Serial tasks' replies (stores.without id) (before ++ i :: after) final) :
    ∃ order, order.Perm (before ++ i :: after) ∧ Serial tasks replies stores order final := by
  have hmoves (σ : Stores) (hσ : σ.tickets.get? id = some ticket) :
      (tasks i).Moves σ (tasks' i) (σ.without id) := by
    rw [htask, htask']
    exact .take id refusal plans σ ticket hσ
  have hnew' (j : Fin n) : ¬ (tasks' j).MayStore id :=
    fun hstore => hnew j (mayStore_of_moves (hmoves stores hget) hothers hstore)
  have hgoing : ¬ (tasks' i).WaitsFor id := by
    rw [htask']
    exact fun hwaits => hwaits
  have hgone : (stores.without id).tickets.get? id = none := by
    rw [Stores.without, KeyMap.get?_erase, if_pos rfl]
  obtain ⟨before', after', hperm, hwaits, hlast⟩ := h.exists_waiters_last hgoing hnew' hgone
  have htasks (j : Fin n) (hj : j ∈ before' ++ after') : tasks' j = tasks j :=
    hothers j (ne_of_mem_append (hperm.nodup_iff.mpr hnodup) hj)
  refine ⟨_, hperm, hlast.take_late htasks hmoves hget (fun j hj => ?_) hnew⟩
  rw [← htasks j (List.mem_append_left _ hj)]
  exact hwaits j hj

end Turn

/-- One operation of a task, and then all tasks in an order: the same comes of the tasks in some
order, all of them from the start. -/
theorem exists_order_of_moves {i : Fin n} {stores' : Stores}
    (hmoves : (tasks i).Moves stores (tasks' i) stores') (hothers : ∀ j, j ≠ i → tasks' j = tasks j)
    (hapart : ∀ j, j ≠ i → ∀ id, (tasks i).MayStore id → ¬ (tasks j).MayStore id)
    (hfree : ∀ j id, (tasks j).MayStore id → stores.Free id) (hmem : i ∈ order)
    (hnodup : order.Nodup) (h : Serial tasks' replies stores' order final) :
    ∃ order', order'.Perm order ∧ Serial tasks replies stores order' final := by
  obtain ⟨before, after, rfl⟩ := List.append_of_mem hmem
  have hne (j : Fin n) (hj : j ∈ before ++ after) : j ≠ i := ne_of_mem_append hnodup hj
  have hgrants {reply : Reply} {puts : List Put} (htask : tasks' i = .going (.grants reply puts)) :
      ∃ order', order'.Perm (before ++ i :: after) ∧ Serial tasks replies stores order' final :=
    ⟨_, List.perm_middle.symm, serial_of_grants hmoves (fun j hj => hothers j (hne j hj))
      (fun j hj => hapart j (hne j hj)) htask h⟩
  generalize htask : tasks i = task at hmoves
  generalize htask' : tasks' i = task' at hmoves
  -- only a take keeps the task from being done first: the ticket that its plan stores may be one
  -- that others have asked for in vain by then
  cases hmoves with
  | idle =>
    refine ⟨_, .refl _, h.congr fun j hj => ?_⟩
    by_cases heq : j = i
    · rw [heq, htask, htask']
    · exact (hothers j heq).symm
  | put | ask | fail => exact hgrants htask'
  | take id refusal plans _ ticket hget =>
    refine serial_of_take htask htask' hget hothers hnodup (fun j hstore => ?_) h
    have hnone := (hfree j id hstore).tickets
    rw [hget] at hnone
    cases hnone

end UserManagedAccess
