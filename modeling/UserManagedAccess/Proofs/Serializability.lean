import UserManagedAccess.Proofs.Grants
import UserManagedAccess.Proofs.RequestFlaws
import UserManagedAccess.Proofs.SerialOrders

/-! Calls that take turns, in whatever way: each ticket is used once, and what comes of the calls
comes of them one after the other as well. -/
namespace UserManagedAccess

theorem IdSupply.origin_eq_of_mayIssue {supply supply' : IdSupply} {id : String}
    (h : supply.MayIssue id) (h' : supply'.MayIssue id) : supply.origin = supply'.origin := by
  obtain ⟨m, -, rfl⟩ := h
  obtain ⟨n, -, heq⟩ := h'
  exact origin_eq_of_idOf_eq heq

/-- Where a server has ids of one source only, those of another are free. -/
theorem ServerState.Issued.free_of_origin_ne {s : ServerState} (h : s.Issued) {supply : IdSupply}
    (horigin : supply.origin ≠ s.ids.origin) {id : String} (hid : supply.MayIssue id) :
    s.stores.Free id := by
  have hnot : ¬ s.ids.HasIssued id := by
    rintro ⟨m, -, rfl⟩
    obtain ⟨n, -, heq⟩ := hid
    exact horigin (IdSupply.origin_eq_of_idOf_eq heq).symm
  exact ⟨h.tickets.get?_eq_none hnot, h.resources.get?_eq_none hnot, h.tokens.get?_eq_none hnot⟩

/-- The thread is about to take the ticket, and is refused without it, or it was refused. -/
inductive Thread.Presents (thread : Thread) (id : String) : Prop
  | waiting {next : Option Ticket → Program Reply} {fault : RequestFault}
      (hprogram : thread.program = .step (.takeTicket id) next)
      (hnone : next none = .done (.negotiated (.error (.badRequest fault))))
  | refused (fault : RequestFault)
      (hprogram : thread.program = .done (.negotiated (.error (.badRequest fault))))

namespace Thread.Presents
variable {thread : Thread} {id : String} {s : ServerState}

/-- An operation that does not obtain the ticket leaves the stores as they are. -/
theorem step (h : thread.Presents id)
    (hnot : ¬ ∃ next, thread.program = .step (.takeTicket id) next ∧
      s.tickets.contains id = true) :
    (thread.step s).1.Presents id ∧ (thread.step s).2.stores = s.stores := by
  obtain ⟨ids, program⟩ := thread
  cases h with
  | refused fault hprogram =>
    cases hprogram
    exact ⟨.refused fault rfl, rfl⟩
  | @waiting next fault hprogram hnone =>
    cases hprogram
    have hgone : s.tickets.get? id = none := by
      cases hget : s.tickets.get? id with
      | none => rfl
      | some ticket => exact absurd ⟨next, rfl, by rw [KeyMap.contains, hget]; rfl⟩ hnot
    refine ⟨.refused fault ?_, ?_⟩
    · change next (s.tickets.get? id) = _
      rw [hgone, hnone]
    · change s.stores.without id = s.stores
      exact Stores.without_of_get?_eq_none hgone

theorem exists_fault (h : thread.Presents id) {reply : Reply}
    (hreply : thread.reply? = some reply) :
    ∃ fault, reply = .negotiated (.error (.badRequest fault)) := by
  rcases h with ⟨hprogram, -⟩ | ⟨fault, hprogram⟩
  · simp only [Thread.reply?, hprogram] at hreply
    cases hreply
  · simp only [Thread.reply?, hprogram] at hreply
    cases hreply
    exact ⟨fault, rfl⟩

end Thread.Presents

namespace Pool
variable {n : Nat} {pool : Pool n} {schedule : List (Fin n)} {i j : Fin n} {id : String}

theorem run_append (pool : Pool n) (schedule more : List (Fin n)) :
    pool.run (schedule ++ more) = (pool.run schedule).run more :=
  List.foldl_append

theorem threads_step_of_ne (h : j ≠ i) : (pool.step i).threads j = pool.threads j := if_neg h

theorem threads_step_self : (pool.step i).threads i = ((pool.threads i).step pool.state).1 :=
  if_pos rfl

theorem threads_finish_of_ne (h : j ≠ i) : (pool.finish i).threads j = pool.threads j := if_neg h

theorem threads_finish_self :
    (pool.finish i).threads i = ((pool.threads i).finish pool.state).1 :=
  if_pos rfl

theorem threads_runSerially_of_not_mem {order : List (Fin n)} (h : i ∉ order) :
    (pool.runSerially order).threads i = pool.threads i := by
  induction order generalizing pool with
  | nil => rfl
  | cons j rest ih =>
    rw [List.mem_cons, not_or] at h
    exact (ih h.2).trans (threads_finish_of_ne h.1)

/-! ## All threads come to an end -/

theorem reply?_step {reply : Reply} (h : pool.reply? j = some reply) (i : Fin n) :
    (pool.step i).reply? j = some reply := by
  by_cases heq : j = i
  · subst heq
    rw [reply?, threads_step_self]
    rw [reply?, Thread.reply?] at h
    split at h
    · next hprogram =>
      cases h
      simp only [Thread.step, hprogram, Thread.reply?]
    · cases h
  · rwa [reply?, threads_step_of_ne heq]

/-- Who is done stays done. -/
theorem reply?_run {reply : Reply} (h : pool.reply? i = some reply) (schedule : List (Fin n)) :
    (pool.run schedule).reply? i = some reply := by
  induction schedule generalizing pool with
  | nil => exact h
  | cons j rest ih => exact ih (reply?_step h j)

theorem exists_run_reply? (pool : Pool n) (i : Fin n) :
    ∃ schedule, ((pool.run schedule).reply? i).isSome = true := by
  generalize hprogram : (pool.threads i).program = program
  induction program generalizing pool with
  | done reply =>
    refine ⟨[], ?_⟩
    change ((pool.threads i).reply?).isSome = true
    rw [Thread.reply?, hprogram]
    rfl
  | step op next ih =>
    have hnext : ((pool.step i).threads i).program =
        next (op.run { pool.state with ids := (pool.threads i).ids }).1 := by
      simp only [threads_step_self, Thread.step, hprogram]
    obtain ⟨rest, hrest⟩ := ih _ (pool.step i) hnext
    exact ⟨i :: rest, hrest⟩

/-- There is a schedule after which all of the threads are done. -/
theorem exists_run_all (pool : Pool n) (threads : List (Fin n)) :
    ∃ schedule, ∀ i ∈ threads, ((pool.run schedule).reply? i).isSome = true := by
  induction threads generalizing pool with
  | nil => exact ⟨[], fun _ h => nomatch h⟩
  | cons i rest ih =>
    obtain ⟨first, hfirst⟩ := pool.exists_run_reply? i
    obtain ⟨reply, hreply⟩ := Option.isSome_iff_exists.mp hfirst
    obtain ⟨more, hmore⟩ := ih (pool.run first)
    refine ⟨first ++ more, fun j hj => ?_⟩
    rw [run_append]
    rcases List.mem_cons.mp hj with rfl | hj
    · rw [reply?_run hreply]
      rfl
    · exact hmore j hj

/-! ## The tasks of a pool -/

/-- Each thread is at the start of its task, and the tasks do not get in each other's way: they
store things under ids of their own, which are free. -/
structure Tracked (data : PolicyData Id) (tasks : Fin n → Task) (pool : Pool n) : Prop where
  agrees : pool.state.Agrees data
  isAt : ∀ i, (pool.threads i).IsAt data (tasks i)
  distinct : ∀ i, (tasks i).Distinct
  apart : ∀ i j id, (tasks i).MayStore id → (tasks j).MayStore id → i = j
  free : ∀ i id, (tasks i).MayStore id → pool.state.stores.Free id

namespace Tracked
variable {data : PolicyData Id} {tasks : Fin n → Task}

theorem step (h : Tracked data tasks pool) (i : Fin n) :
    ∃ tasks', Tracked data tasks' (pool.step i) ∧ (∀ j, j ≠ i → tasks' j = tasks j) ∧
      (tasks i).Moves pool.state.stores (tasks' i) (pool.step i).state.stores := by
  obtain ⟨task', hisAt, hagrees, hmoves⟩ := (pool.threads i).exists_moves (h.isAt i) h.agrees
  let tasks' (j : Fin n) : Task := if j = i then task' else tasks j
  have hself : tasks' i = task' := if_pos rfl
  have hother (j : Fin n) (hne : j ≠ i) : tasks' j = tasks j := if_neg hne
  have hmoves' : (tasks i).Moves pool.state.stores (tasks' i) (pool.step i).state.stores :=
    hself ▸ hmoves
  have hshrink (j : Fin n) (id : String) (hstore : (tasks' j).MayStore id) :
      (tasks j).MayStore id := mayStore_of_moves hmoves' hother hstore
  refine ⟨tasks', ⟨hagrees, fun j => ?_, fun j => ?_, fun j k id hj hk => ?_, fun j id hj => ?_⟩,
    hother, hmoves'⟩
  · by_cases heq : j = i
    · subst heq
      rw [hself, threads_step_self]
      exact hisAt
    · rw [hother j heq, threads_step_of_ne heq]
      exact h.isAt j
  · by_cases heq : j = i
    · subst heq
      exact hself ▸ hmoves.distinct (h.distinct j)
    · exact hother j heq ▸ h.distinct j
  · exact h.apart j k id (hshrink j id hj) (hshrink k id hk)
  · have hbefore := hshrink j id hj
    refine hmoves.free (h.distinct i) (h.free j id hbefore) fun hi => ?_
    rw [h.apart j i id hbefore hi, hself] at hj
    exact hj

theorem run (h : Tracked data tasks pool) (schedule : List (Fin n)) :
    ∃ tasks', Tracked data tasks' (pool.run schedule) := by
  induction schedule generalizing pool tasks with
  | nil => exact ⟨tasks, h⟩
  | cons i rest ih =>
    obtain ⟨tasks', h', -⟩ := h.step i
    exact ih h'

/-! ## A ticket is used once -/

/-- A ticket that is not there and that nobody may store does not come back. -/
theorem get?_run_eq_none (h : Tracked data tasks pool) (hnew : ∀ i, ¬ (tasks i).MayStore id)
    (hgone : pool.state.tickets.get? id = none) (schedule : List (Fin n)) :
    (pool.run schedule).state.tickets.get? id = none := by
  induction schedule generalizing pool tasks with
  | nil => exact hgone
  | cons i rest ih =>
    obtain ⟨tasks', h', hothers, hmoves⟩ := h.step i
    exact ih h' (fun j hstore => hnew j (mayStore_of_moves hmoves hothers hstore))
      (hmoves.get?_eq_none (hnew i) hgone)

/-- A ticket that was obtained is gone for good. -/
theorem get?_eq_none_of_obtained (h : Tracked data tasks pool)
    (hobtained : pool.Obtained schedule i id) :
    (pool.run schedule).state.tickets.get? id = none := by
  obtain ⟨before, after, rfl, next, hprogram, hthere⟩ := hobtained
  obtain ⟨tasks₁, h₁⟩ := h.run before
  have hnew (j : Fin n) : ¬ (tasks₁ j).MayStore id := by
    intro hstore
    have hnone : (pool.run before).state.tickets.get? id = none := (h₁.free j id hstore).tickets
    rw [KeyMap.contains, hnone] at hthere
    cases hthere
  obtain ⟨tasks₂, h₂, hothers, hmoves⟩ := h₁.step i
  have hgone : ((pool.run before).step i).state.tickets.get? id = none := by
    change (((pool.run before).threads i).step (pool.run before).state).2.tickets.get? id = none
    simp only [Thread.step, hprogram]
    exact (KeyMap.get?_erase _ _ _).trans (if_pos rfl)
  rw [run_append]
  exact h₂.get?_run_eq_none (fun j hstore => hnew j (mayStore_of_moves hmoves hothers hstore))
    hgone after

/-- Who obtains a ticket, obtains it before anybody else has. -/
theorem not_obtained_of_obtains (h : Tracked data tasks pool)
    (hobtains : (pool.run schedule).Obtains i id) : ¬ pool.Obtained schedule j id := by
  intro hobtained
  obtain ⟨-, -, hthere⟩ := hobtains
  rw [KeyMap.contains, h.get?_eq_none_of_obtained hobtained] at hthere
  cases hthere

theorem eq_of_obtained (h : Tracked data tasks pool) (hi : pool.Obtained schedule i id)
    (hj : pool.Obtained schedule j id) : i = j := by
  obtain ⟨before, after, rfl, hobtains⟩ := hi
  obtain ⟨before', after', heq, hobtains'⟩ := hj
  rcases List.append_eq_append_iff.mp heq with ⟨between, rfl, hafter⟩ | ⟨between, rfl, hafter⟩
  · cases between with
    | nil => exact (List.cons.inj hafter).1
    | cons k rest =>
      obtain ⟨rfl, -⟩ := List.cons.inj hafter
      exact absurd ⟨before, rest, rfl, hobtains⟩ (h.not_obtained_of_obtains hobtains')
  · cases between with
    | nil => exact (List.cons.inj hafter).1.symm
    | cons k rest =>
      obtain ⟨rfl, -⟩ := List.cons.inj hafter
      exact absurd ⟨before', rest, rfl, hobtains'⟩ (h.not_obtained_of_obtains hobtains)

/-! ## There is an order -/

/-- When all threads are done, what has come of them comes of their tasks in some order. -/
theorem exists_order (h : Tracked data tasks pool) {replies : Fin n → Reply}
    (hdone : ∀ i, (pool.run schedule).reply? i = some (replies i)) :
    ∃ order, order.Perm (List.finRange n) ∧
      Serial tasks replies pool.state.stores order (pool.run schedule).state.stores := by
  -- from the front: the order for what is left after the first turn is changed around one task
  induction schedule generalizing pool tasks with
  | nil =>
    exact ⟨List.finRange n, .refl _, .of_idle fun i _ => (h.isAt i).finish_of_done (hdone i) _⟩
  | cons i rest ih =>
    obtain ⟨tasks', h', hothers, hmoves⟩ := h.step i
    obtain ⟨order, hperm, horder⟩ := ih h' hdone
    obtain ⟨order', hperm', horder'⟩ := exists_order_of_moves hmoves hothers
      (fun j hne id hi hj => hne (h.apart j i id hj hi)) h.free
      (hperm.mem_iff.mpr (List.mem_finRange i)) (hperm.nodup_iff.mpr (List.nodup_finRange n)) horder
    exact ⟨order', hperm'.trans hperm, horder'⟩

/-- Threads that run one after the other do what their tasks do in this order. -/
theorem runSerially (hagrees : pool.state.Agrees data) {replies : Fin n → Reply}
    {order : List (Fin n)} {final : Stores} (hnodup : order.Nodup)
    (hisAt : ∀ i ∈ order, (pool.threads i).IsAt data (tasks i))
    (h : Serial tasks replies pool.state.stores order final) :
    (pool.runSerially order).state.stores = final ∧
      ∀ i ∈ order, (pool.runSerially order).reply? i = some (replies i) := by
  induction order generalizing pool with
  | nil =>
    cases h
    exact ⟨rfl, fun _ h => nomatch h⟩
  | cons i rest ih =>
    obtain ⟨hfirst, hrest⟩ := List.nodup_cons.mp hnodup
    rcases h with _ | ⟨hi, h⟩
    obtain ⟨hreply, hstores, hagrees'⟩ :=
      (pool.threads i).finish_eq (hisAt i List.mem_cons_self) hagrees
    rw [hi] at hreply hstores
    have hisAt' (j : Fin n) (hj : j ∈ rest) : ((pool.finish i).threads j).IsAt data (tasks j) := by
      have hne : j ≠ i := fun heq => hfirst (heq ▸ hj)
      rw [threads_finish_of_ne hne]
      exact hisAt j (List.mem_cons_of_mem _ hj)
    obtain ⟨hfinal, hreplies⟩ := @ih (pool.finish i) hagrees' hrest hisAt' (hstores ▸ h)
    refine ⟨hfinal, fun j hj => ?_⟩
    rcases List.mem_cons.mp hj with rfl | hj
    · change ((pool.finish j).runSerially rest).reply? j = _
      rw [reply?, threads_runSerially_of_not_mem hfirst, threads_finish_self, hreply]
    · exact hreplies j hj

end Tracked

/-! ## Who comes too late -/

/-- A thread that does not obtain the ticket that it waits for is told that its request is bad. -/
theorem presents_run (h : (pool.threads j).Presents id) (hnever : ¬ pool.Obtained schedule j id) :
    ((pool.run schedule).threads j).Presents id := by
  induction schedule generalizing pool with
  | nil => exact h
  | cons i rest ih =>
    have hrest : ¬ (pool.step i).Obtained rest j id := by
      rintro ⟨before, after, rfl, hobtains⟩
      exact hnever ⟨i :: before, after, rfl, hobtains⟩
    refine ih ?_ hrest
    by_cases heq : j = i
    · subst heq
      rw [threads_step_self]
      exact (h.step fun hobtains => hnever ⟨[], rest, rfl, hobtains⟩).1
    · rw [threads_step_of_ne heq]
      exact h

/-- At none of its turns does it change a store. -/
theorem stores_step_of_not_obtained (h : (pool.threads j).Presents id)
    (hnever : ¬ pool.Obtained schedule j id) {before after : List (Fin n)}
    (hschedule : schedule = before ++ j :: after) :
    ((pool.run before).step j).state.stores = (pool.run before).state.stores := by
  have hbefore : ¬ pool.Obtained before j id := by
    rintro ⟨earlier, later, rfl, hobtains⟩
    exact hnever ⟨earlier, later ++ j :: after, by rw [hschedule, List.append_assoc]; rfl, hobtains⟩
  exact ((presents_run h hbefore).step fun hobtains =>
    hnever ⟨before, after, hschedule, hobtains⟩).2

end Pool

namespace Server

section
variable [Url.DomainRules]

theorem presents_of_ticket? (server : Server) {call : Call} {id : String}
    (hcall : call.ticket? = some id) (ids : IdSupply) :
    Thread.Presents ⟨ids, server.program call⟩ id := by
  cases call with
  | opening => cases hcall
  | round around request =>
    cases haccept : server.accept request with
    | error e =>
      obtain ⟨fault, rfl⟩ := server.failsWith_accept request e haccept
      refine .refused fault ?_
      simp only [program, negotiate_eq, haccept]
      rfl
    | ok credentials =>
      obtain ⟨next, hprogram, hnone, -⟩ := program_of_ticket around haccept hcall
      exact .waiting hprogram hnone

theorem tracked_pool (server : Server) {n : Nat} (calls : Fin n → Call)
    (supplies : Fin n → IdSupply) (s : ServerState)
    (hfresh : ∀ i id, (supplies i).MayIssue id →
      s.stores.Free id ∧ ∀ j, (supplies j).MayIssue id → j = i) :
    ∃ tasks, Pool.Tracked s.snapshot tasks (server.pool calls supplies s) := by
  have htask (i : Fin n) : ∃ task,
      Thread.IsAt s.snapshot ⟨supplies i, server.program (calls i)⟩ task ∧
        ∀ plan, task.MayCome plan → plan.Fresh (supplies i) :=
    server.exists_task (calls i) (supplies i) fun id hid => (hfresh i id hid).1.resources
  obtain ⟨tasks, htasks⟩ := Classical.axiomOfChoice htask
  have hissued (i : Fin n) (id : String) (hid : (tasks i).MayStore id) :
      (supplies i).MayIssue id := by
    obtain ⟨plan, hplan, hkey⟩ := hid
    exact ((htasks i).2 plan hplan).mayIssue id hkey
  refine ⟨tasks, ⟨rfl, fun _ => rfl⟩, fun i => (htasks i).1, fun i plan hplan => ?_,
    fun i j id hi hj => ?_, fun i id hid => (hfresh i id (hissued i id hid)).1⟩
  · exact ((htasks i).2 plan hplan).nodup
  · exact (hfresh j id (hissued j id hj)).2 i (hissued i id hi)

/-- Calls that take turns in any way, each with ids of its own. No ticket is obtained by two of
them, and one that was obtained is in store no more; who presents a ticket and does not obtain it, is
told that the request is bad, and has changed no store at any of its turns. All calls come to an end,
and then the calls one after the other, in some order, have the same replies and leave the same
stores. -/
theorem rounds_serializable (server : Server) {n : Nat} (calls : Fin n → Call)
    (supplies : Fin n → IdSupply) (s : ServerState)
    (hfresh : ∀ i id, (supplies i).MayIssue id →
      s.stores.Free id ∧ ∀ j, (supplies j).MayIssue id → j = i)
    (schedule : List (Fin n)) :
    let start := server.pool calls supplies s
    (∀ id i j, start.Obtained schedule i id → start.Obtained schedule j id → i = j) ∧
    (∀ id i, start.Obtained schedule i id →
      (start.run schedule).state.tickets.contains id = false) ∧
    (∀ id j, (calls j).ticket? = some id → ¬ start.Obtained schedule j id →
      (∀ before after, schedule = before ++ j :: after →
        ((start.run before).step j).state.stores = (start.run before).state.stores) ∧
      ∀ reply, (start.run schedule).reply? j = some reply →
        ∃ fault, reply = .negotiated (.error (.badRequest fault))) ∧
    (∃ more, ∀ i, ((start.run (schedule ++ more)).reply? i).isSome = true) ∧
    ((∀ i, ((start.run schedule).reply? i).isSome = true) →
      ∃ order, order.Perm (List.finRange n) ∧
        (start.runSerially order).state.stores = (start.run schedule).state.stores ∧
        ∀ i, (start.runSerially order).reply? i = (start.run schedule).reply? i) := by
  intro start
  obtain ⟨tasks, htracked⟩ := server.tracked_pool calls supplies s hfresh
  refine ⟨fun id i j => htracked.eq_of_obtained, fun id i hobtained => ?_,
    fun id j hcall hnever => ?_, ?_, fun hdone => ?_⟩
  · rw [KeyMap.contains, htracked.get?_eq_none_of_obtained hobtained]
    rfl
  · have hpresents : (start.threads j).Presents id :=
      server.presents_of_ticket? hcall (supplies j)
    exact ⟨fun _ _ => Pool.stores_step_of_not_obtained hpresents hnever,
      fun _ => (Pool.presents_run hpresents hnever).exists_fault⟩
  · obtain ⟨more, hmore⟩ := (start.run schedule).exists_run_all (List.finRange n)
    refine ⟨more, fun i => ?_⟩
    rw [Pool.run_append]
    exact hmore i (List.mem_finRange i)
  · let replies (i : Fin n) : Reply := ((start.run schedule).reply? i).get (hdone i)
    have hreplies (i : Fin n) : (start.run schedule).reply? i = some (replies i) :=
      (Option.some_get (hdone i)).symm
    obtain ⟨order, hperm, hserial⟩ := htracked.exists_order hreplies
    have hnodup : order.Nodup := hperm.nodup_iff.mpr (List.nodup_finRange n)
    obtain ⟨hstores, hserved⟩ :=
      Pool.Tracked.runSerially htracked.agrees hnodup (fun i _ => htracked.isAt i) hserial
    refine ⟨order, hperm, hstores, fun i => ?_⟩
    rw [hserved i (hperm.mem_iff.mpr (List.mem_finRange i)), hreplies]

end

/-- A ticket is resumed by two, and the one who is too late is refused; the other is asked for an
identity, and a third goes on with the ticket that comes of it. -/
def sampleRace : Fin 3 → Call
  | 0 => .round offline ⟨none, some (sampleId 0), none, none, none, none, none⟩
  | 1 => .round offline (sampleResume (sampleId 0) "alice")
  | 2 => .round offline (sampleResume (IdSupply.idOf 1 0) "alice")

theorem sample_race :
    let server := sample (.namespaced [])
    let past := server.history ∅ [.negotiate offline (sampleAsk [⟨some "R1", some ["read"]⟩] none)]
    let supplies (i : Fin 3) : IdSupply := ⟨i.val + 1, 0⟩
    let start := server.pool sampleRace supplies past.state
    let schedule : List (Fin 3) := [0, 1, 0, 0, 2, 2, 2, 2]
    (∀ i id, (supplies i).MayIssue id →
      past.state.stores.Free id ∧ ∀ j, (supplies j).MayIssue id → j = i) ∧
    start.Obtained schedule 0 (sampleId 0) ∧ start.Obtained schedule 2 (IdSupply.idOf 1 0) ∧
    ¬ start.Obtained schedule 1 (sampleId 0) ∧
    (∃ fault, (start.run schedule).reply? 1 = some (.negotiated (.error (.badRequest fault)))) ∧
    ∃ order, order.Perm (List.finRange 3) ∧
      (start.runSerially order).state.stores = (start.run schedule).state.stores ∧
      ∀ i, (start.runSerially order).reply? i = (start.run schedule).reply? i := by
  intro server past supplies start schedule
  have hissued : past.state.Issued := server.issued_history ⟨rfl, rfl, rfl⟩ _
  have hfresh (i : Fin 3) (id : String) (hid : (supplies i).MayIssue id) :
      past.state.stores.Free id ∧ ∀ j, (supplies j).MayIssue id → j = i := by
    refine ⟨hissued.free_of_origin_ne (Nat.succ_ne_zero i.val) hid, fun j hj => ?_⟩
    exact Fin.ext (Nat.succ.inj (IdSupply.origin_eq_of_mayIssue hj hid))
  obtain ⟨honce, -, hrefused, -, hserial⟩ :=
    rounds_serializable (sample (.namespaced [])) sampleRace supplies past.state hfresh schedule
  have hfirst : start.Obtained schedule 0 (sampleId 0) := ⟨[], _, rfl, _, rfl, rfl⟩
  have hsecond : start.Obtained schedule 2 (IdSupply.idOf 1 0) :=
    ⟨[0, 1, 0, 0], _, rfl, _, rfl, by decide +kernel⟩
  have hlate : ¬ start.Obtained schedule 1 (sampleId 0) := by
    intro hlate
    cases honce _ _ _ hfirst hlate
  have hdone : ∀ i, ((start.run schedule).reply? i).isSome = true := by decide +kernel
  obtain ⟨reply, hreply⟩ := Option.isSome_iff_exists.mp (hdone 1)
  obtain ⟨fault, rfl⟩ := (hrefused _ 1 rfl hlate).2 reply hreply
  exact ⟨hfresh, hfirst, hsecond, hlate, ⟨fault, hreply⟩, hserial hdone⟩

end Server

end UserManagedAccess
