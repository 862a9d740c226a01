import UserManagedAccess.Proofs.Plans

/-! What a task does in one go and operation by operation, and which tasks do not get in each
other's way. -/
namespace UserManagedAccess

/-! ## In one go -/

def Stores.without (id : String) (stores : Stores) : Stores :=
  { stores with tickets := stores.tickets.erase id }

theorem Stores.without_of_get?_eq_none {stores : Stores} {id : String}
    (h : stores.tickets.get? id = none) : stores.without id = stores := by
  rw [without, KeyMap.erase_of_get?_eq_none h]

namespace Put

theorem apply_apply {p q : Put} (h : p.key ≠ q.key) (stores : Stores) :
    q.apply (p.apply stores) = p.apply (q.apply stores) := by
  cases p <;> cases q <;> simp only [apply, key] at h ⊢ <;> rw [KeyMap.insert_insert_comm h]

/-- A change that may trade places with each of the puts may trade places with all of them. -/
theorem foldl_apply_change {change : Stores → Stores} {puts : List Put}
    (h : ∀ q ∈ puts, ∀ stores, q.apply (change stores) = change (q.apply stores))
    (stores : Stores) : puts.foldl apply (change stores) = change (puts.foldl apply stores) := by
  induction puts generalizing stores with
  | nil => rfl
  | cons q rest ih =>
    rw [List.foldl_cons, List.foldl_cons, h q List.mem_cons_self]
    exact ih (fun r hr => h r (List.mem_cons_of_mem _ hr)) (q.apply stores)

theorem tickets_foldl_apply (puts : List Put) (stores : Stores) :
    (puts.foldl apply stores).tickets = stores.tickets := by
  induction puts generalizing stores with
  | nil => rfl
  | cons q rest ih =>
    rw [List.foldl_cons, ih]
    cases q <;> rfl

end Put

namespace Plan
variable {plan : Plan} {stores : Stores}

theorem apply_put {p : Put} (h : p.key ∉ plan.keys) :
    plan.apply (p.apply stores) = p.apply (plan.apply stores) := by
  cases plan with
  | asks reply id ticket => cases p <;> rfl
  | grants reply puts =>
    refine Put.foldl_apply_change (fun q hq => Put.apply_apply fun heq => h ?_) stores
    exact List.mem_map.mpr ⟨q, hq, heq.symm⟩

theorem apply_without {id : String} (h : id ∉ plan.keys) :
    plan.apply (stores.without id) = (plan.apply stores).without id := by
  cases plan with
  | asks reply own ticket =>
    have hne : id ≠ own := by simpa [keys] using h
    simp only [apply, Stores.without, KeyMap.erase_insert_comm hne]
  | grants reply puts =>
    refine Put.foldl_apply_change (fun q _ stores => ?_) stores
    cases q <;> rfl

theorem get?_apply {id : String} (h : id ∉ plan.keys) :
    (plan.apply stores).tickets.get? id = stores.tickets.get? id := by
  cases plan with
  | asks reply own ticket =>
    have hne : id ≠ own := by simpa [keys] using h
    exact KeyMap.get?_insert_of_ne _ _ hne
  | grants reply puts => rw [apply, Put.tickets_foldl_apply]

end Plan

namespace Task
variable {task task' : Task} {stores stores' : Stores} {id : String}

/-- The reply to a task that is done without a break, and what it leaves in the stores. -/
def finish (stores : Stores) : Task → Reply × Stores
  | .waiting id refusal plans =>
    match stores.tickets.get? id with
    | none => (refusal, stores)
    | some ticket => ((plans ticket).reply, (plans ticket).apply (stores.without id))
  | .going plan => (plan.reply, plan.apply stores)

def WaitsFor (task : Task) (id : String) : Prop :=
  match task with
  | .waiting own _ _ => own = id
  | .going _ => False

/-- It does not matter whether the change is made before the task or after it. -/
def CommutesWith (task : Task) (change : Stores → Stores) : Prop :=
  ∀ stores, task.finish (change stores) =
    ((task.finish stores).1, change (task.finish stores).2)

theorem commutesWith_put {p : Put} (h : ¬ task.MayStore p.key) : task.CommutesWith p.apply := by
  intro stores
  cases task with
  | going plan =>
    have hkey : p.key ∉ plan.keys := fun hkey => h ⟨plan, rfl, hkey⟩
    simp only [finish, Plan.apply_put hkey]
  | waiting own refusal plans =>
    have htickets : (p.apply stores).tickets = stores.tickets := by cases p <;> rfl
    have hwithout : (p.apply stores).without own = p.apply (stores.without own) := by
      cases p <;> rfl
    simp only [finish, htickets]
    cases stores.tickets.get? own with
    | none => rfl
    | some ticket =>
      have hkey : p.key ∉ (plans ticket).keys := fun hkey => h ⟨_, ⟨ticket, rfl⟩, hkey⟩
      simp only [hwithout, Plan.apply_put hkey]

theorem commutesWith_puts {puts : List Put} (h : ∀ p ∈ puts, ¬ task.MayStore p.key) :
    task.CommutesWith fun stores => puts.foldl Put.apply stores := by
  induction puts with
  | nil => exact fun _ => rfl
  | cons p rest ih =>
    intro stores
    have hrest := ih fun q hq => h q (List.mem_cons_of_mem _ hq)
    simp only [List.foldl_cons]
    rw [hrest, commutesWith_put (h p List.mem_cons_self)]

theorem commutesWith_without (hwaits : ¬ task.WaitsFor id) (h : ¬ task.MayStore id) :
    task.CommutesWith (Stores.without id) := by
  intro stores
  cases task with
  | going plan =>
    have hkey : id ∉ plan.keys := fun hkey => h ⟨plan, rfl, hkey⟩
    simp only [finish, Plan.apply_without hkey]
  | waiting own refusal plans =>
    have hget : (stores.without id).tickets.get? own = stores.tickets.get? own := by
      simp only [Stores.without, KeyMap.get?_erase]
      exact if_neg hwaits
    have hboth : (stores.without id).without own = (stores.without own).without id := by
      simp only [Stores.without, KeyMap.erase_erase_comm]
    simp only [finish, hget]
    cases stores.tickets.get? own with
    | none => rfl
    | some ticket =>
      have hkey : id ∉ (plans ticket).keys := fun hkey => h ⟨_, ⟨ticket, rfl⟩, hkey⟩
      simp only [hboth, Plan.apply_without hkey]

theorem get?_finish (hwaits : ¬ task.WaitsFor id) (h : ¬ task.MayStore id) :
    (task.finish stores).2.tickets.get? id = stores.tickets.get? id := by
  cases task with
  | going plan => exact Plan.get?_apply fun hkey => h ⟨plan, rfl, hkey⟩
  | waiting own refusal plans =>
    simp only [finish]
    cases stores.tickets.get? own with
    | none => rfl
    | some ticket =>
      have hkey : id ∉ (plans ticket).keys := fun hkey => h ⟨_, ⟨ticket, rfl⟩, hkey⟩
      rw [Plan.get?_apply hkey, Stores.without, KeyMap.get?_erase, if_neg (Ne.symm hwaits)]

/-- A ticket that is not there and that the task may not store is not there afterwards. -/
theorem get?_finish_eq_none (h : ¬ task.MayStore id) (hnone : stores.tickets.get? id = none) :
    (task.finish stores).2.tickets.get? id = none := by
  cases task with
  | going plan => exact (Plan.get?_apply fun hkey => h ⟨plan, rfl, hkey⟩).trans hnone
  | waiting own refusal plans =>
    simp only [finish]
    cases stores.tickets.get? own with
    | none => exact hnone
    | some ticket =>
      have hkey : id ∉ (plans ticket).keys := fun hkey => h ⟨_, ⟨ticket, rfl⟩, hkey⟩
      rw [Plan.get?_apply hkey, Stores.without, KeyMap.get?_erase]
      split
      · rfl
      · exact hnone

/-! ## Operation by operation -/

/-- What one operation may do to a task and to the stores. -/
inductive Moves : Task → Stores → Task → Stores → Prop
  | idle (task : Task) (stores : Stores) : Moves task stores task stores
  | put (reply : Reply) (p : Put) (puts : List Put) (stores : Stores) :
      Moves (.going (.grants reply (p :: puts))) stores (.going (.grants reply puts))
        (p.apply stores)
  | ask (reply : Reply) (id : String) (ticket : Ticket) (stores : Stores) :
      Moves (.going (.asks reply id ticket)) stores (.going (.grants reply []))
        { stores with tickets := stores.tickets.insert id ticket }
  | fail (id : String) (refusal : Reply) (plans : Ticket → Plan) (stores : Stores)
      (h : stores.tickets.get? id = none) :
      Moves (.waiting id refusal plans) stores (.going (.grants refusal [])) stores
  | take (id : String) (refusal : Reply) (plans : Ticket → Plan) (stores : Stores)
      (ticket : Ticket) (h : stores.tickets.get? id = some ticket) :
      Moves (.waiting id refusal plans) stores (.going (plans ticket)) (stores.without id)

theorem Moves.mayStore (h : Moves task stores task' stores') (hid : task'.MayStore id) :
    task.MayStore id := by
  obtain ⟨plan, hplan, hkey⟩ := hid
  cases h with
  | idle => exact ⟨plan, hplan, hkey⟩
  | put reply p puts =>
    cases hplan
    exact ⟨_, rfl, List.mem_cons_of_mem _ hkey⟩
  | ask | fail =>
    cases hplan
    cases hkey
  | take _ refusal plans _ ticket =>
    cases hplan
    exact ⟨_, ⟨ticket, rfl⟩, hkey⟩

/-- An operation does not change what the task comes to. -/
theorem Moves.finish_eq (h : Moves task stores task' stores') :
    task.finish stores = task'.finish stores' := by
  cases h with
  | idle | put | ask => rfl
  | fail _ _ _ _ hget =>
    simp only [finish, hget]
    rfl
  | take _ _ _ _ _ hget => simp only [finish, hget]

/-- All plans that the task may come to store things under different ids. -/
def Distinct (task : Task) : Prop := ∀ plan, task.MayCome plan → plan.keys.Nodup

theorem Moves.distinct (h : Moves task stores task' stores') (hdistinct : task.Distinct) :
    task'.Distinct := by
  intro plan hplan
  cases h with
  | idle => exact hdistinct plan hplan
  | put reply p puts =>
    cases hplan
    exact (List.nodup_cons.mp (hdistinct _ rfl)).2
  | ask | fail =>
    cases hplan
    exact List.nodup_nil
  | take _ refusal plans _ ticket =>
    cases hplan
    exact hdistinct _ ⟨ticket, rfl⟩

/-- An id that was free still is, unless it was the task's to store something under, and it is not
any longer. -/
theorem Moves.free (h : Moves task stores task' stores') (hdistinct : task.Distinct)
    (hfree : stores.Free id) (hid : task.MayStore id → task'.MayStore id) : stores'.Free id := by
  cases h with
  | idle | fail => exact hfree
  | put reply p puts =>
    have hne : id ≠ p.key := by
      rintro rfl
      obtain ⟨_, rfl, hkey⟩ := hid ⟨_, rfl, List.mem_cons_self⟩
      exact (List.nodup_cons.mp (hdistinct _ rfl)).1 hkey
    cases p with
    | token own kept =>
      exact ⟨hfree.tickets, hfree.resources,
        (KeyMap.get?_insert_of_ne _ _ hne).trans hfree.tokens⟩
    | handle own =>
      exact ⟨hfree.tickets, (KeyMap.get?_insert_of_ne _ _ hne).trans hfree.resources,
        hfree.tokens⟩
  | ask reply own ticket =>
    have hne : id ≠ own := by
      rintro rfl
      obtain ⟨_, rfl, hkey⟩ := hid ⟨_, rfl, List.mem_singleton_self _⟩
      cases hkey
    exact ⟨(KeyMap.get?_insert_of_ne _ _ hne).trans hfree.tickets, hfree.resources,
      hfree.tokens⟩
  | take own =>
    refine ⟨?_, hfree.resources, hfree.tokens⟩
    rw [Stores.without, KeyMap.get?_erase]
    split
    · rfl
    · exact hfree.tickets

/-- A ticket that is not there and that the task may not store is not there after the operation. -/
theorem Moves.get?_eq_none (h : Moves task stores task' stores') (hid : ¬ task.MayStore id)
    (hnone : stores.tickets.get? id = none) : stores'.tickets.get? id = none := by
  cases h with
  | idle | fail => exact hnone
  | put reply p => cases p <;> exact hnone
  | ask reply own ticket =>
    have hne : id ≠ own := by
      rintro rfl
      exact hid ⟨_, rfl, List.mem_singleton_self _⟩
    exact (KeyMap.get?_insert_of_ne _ _ hne).trans hnone
  | take own =>
    rw [Stores.without, KeyMap.get?_erase]
    split
    · rfl
    · exact hnone

end Task

/-! ## Threads -/

/-- What policies read in the state agrees with the data. -/
structure ServerState.Agrees (data : PolicyData Id) (s : ServerState) : Prop where
  rules_eq : s.rulesInForce = data.rules
  sources_eq : ∀ id,
    Policy.sourcesOf (s.resources.get? id) = Policy.sourcesOf (data.resource? id)

namespace ServerState.Agrees
variable {data : PolicyData Id} {s s' : ServerState}

theorem congr (h : Agrees data s) (hfile : s'.rulesFile = s.rulesFile)
    (hcache : s'.rulesCache = s.rulesCache) (hresources : s'.resources = s.resources) :
    Agrees data s' := by
  refine ⟨?_, fun id => hresources ▸ h.sources_eq id⟩
  rw [ServerState.rulesInForce_eq, hfile, hcache, ← ServerState.rulesInForce_eq, h.rules_eq]

/-- A look at the rules changes nothing of what policies read. -/
theorem refreshed (h : Agrees data s) : Agrees data s.refreshed :=
  ⟨s.rulesInForce_refreshed.trans h.rules_eq, fun id => by
    rw [ServerState.Consulted.refreshed.resources_eq, h.sources_eq]⟩

/-- A handle has no sources, like a resource that is not there. -/
theorem insert_handle (h : Agrees data s) {id : String}
    (hnew : Policy.sourcesOf (data.resource? id) = []) :
    Agrees data { s with resources := s.resources.insert id .handle } := by
  refine ⟨?_, fun other => ?_⟩
  · rw [ServerState.rulesInForce_eq, ← h.rules_eq, ServerState.rulesInForce_eq]
  · rw [KeyMap.get?_insert]
    split
    · next heq =>
      rw [heq, hnew]
      rfl
    · exact h.sources_eq other

end ServerState.Agrees

namespace Thread
variable {data : PolicyData Id} {thread : Thread} {task : Task} {s : ServerState}

/-- An operation of a thread does to its task and to the stores what an operation may. -/
theorem exists_moves (h : thread.IsAt data task) (hs : s.Agrees data) :
    ∃ task', (thread.step s).1.IsAt data task' ∧ (thread.step s).2.Agrees data ∧
      task.Moves s.stores task' (thread.step s).2.stores := by
  obtain ⟨ids, program⟩ := thread
  cases h with
  | @waiting id next refusal plans hprogram hnone hsome =>
    cases hprogram
    cases hget : s.tickets.get? id with
    | none =>
      refine ⟨.going (.grants refusal []), .going ?_, hs.congr rfl rfl rfl, ?_⟩
      · change (next (s.tickets.get? id)).CarriesOut data ids (.grants refusal [])
        rw [hget, hnone]
        exact .done ids refusal
      · change Task.Moves _ s.stores _ (s.stores.without id)
        rw [Stores.without_of_get?_eq_none hget]
        exact .fail id refusal plans s.stores hget
    | some ticket =>
      refine ⟨.going (plans ticket), .going ?_, hs.congr rfl rfl rfl,
        .take id refusal plans s.stores ticket hget⟩
      change (next (s.tickets.get? id)).CarriesOut data ids (plans ticket)
      rw [hget]
      exact hsome ticket
  | @going plan h =>
    cases h with
    | done ids reply => exact ⟨_, .going (.done ids reply), hs, .idle _ _⟩
    | freshId h => exact ⟨_, .going h, hs.congr rfl rfl rfl, .idle _ _⟩
    | @rules _ next _ h =>
      let met : ServerState := { s with ids := ids }
      have hmet : met.Agrees data := hs.congr rfl rfl rfl
      have hids : met.refreshed.ids = ids := ServerState.Consulted.refreshed.ids_eq
      have hstores : met.refreshed.stores = s.stores := by rw [ServerState.refreshed_eq]; rfl
      refine ⟨.going plan, .going ?_, hmet.refreshed.congr rfl rfl rfl, ?_⟩
      · change (next met.rulesInForce).CarriesOut data met.refreshed.ids plan
        rw [hmet.rules_eq, hids]
        exact h
      · change Task.Moves _ s.stores _ met.refreshed.stores
        rw [hstores]
        exact .idle _ _
    | resource h => exact ⟨_, .going (h _ (hs.sources_eq _)), hs.congr rfl rfl rfl, .idle _ _⟩
    | note h => exact ⟨_, .going h, hs.congr rfl rfl rfl, .idle _ _⟩
    | token h => exact ⟨_, .going h, hs.congr rfl rfl rfl, .put _ _ _ _⟩
    | handle hnew h => exact ⟨_, .going h, (hs.insert_handle hnew).congr rfl rfl rfl, .put _ _ _ _⟩
    | ticket h => exact ⟨_, .going h, hs.congr rfl rfl rfl, .ask _ _ _ _⟩

/-- Who is done has nothing left to do. -/
theorem IsAt.finish_of_done (h : thread.IsAt data task) {reply : Reply}
    (hreply : thread.reply? = some reply) (stores : Stores) :
    task.finish stores = (reply, stores) := by
  obtain ⟨ids, program⟩ := thread
  cases program with
  | step => cases hreply
  | done reply =>
    cases hreply
    cases h with
    | waiting hprogram => cases hprogram
    | going h =>
      cases h
      rfl

/-- A thread that runs to its end without a break does what its task does. -/
theorem finish_eq (h : thread.IsAt data task) (hs : s.Agrees data) :
    (thread.finish s).1.reply? = some (task.finish s.stores).1 ∧
      (thread.finish s).2.stores = (task.finish s.stores).2 ∧
      (thread.finish s).2.Agrees data := by
  obtain ⟨ids, program⟩ := thread
  induction program generalizing ids task s with
  | done reply =>
    rw [h.finish_of_done rfl]
    exact ⟨rfl, rfl, hs.congr rfl rfl rfl⟩
  | step op next ih =>
    obtain ⟨task', htask', hs', hmoves⟩ := exists_moves h hs
    rw [hmoves.finish_eq]
    exact ih _ hs' _ htask'

end Thread

end UserManagedAccess
