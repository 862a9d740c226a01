import UserManagedAccess.Proofs.Interleaving

/-! Plans. Whatever comes in between the operations of a round, once the round has its ticket, its
reply and what it will store are settled: what it reads after that, others do not change. -/
namespace UserManagedAccess

/-- A token or a derivation handle, to be stored under an id. -/
inductive Put where
  | token (id : String) (kept : KeptToken)
  | handle (id : String)

namespace Put

def key : Put → String
  | token id _ => id
  | handle id => id

def apply (stores : Stores) : Put → Stores
  | token id kept => { stores with tokens := stores.tokens.insert id kept }
  | handle id => { stores with resources := stores.resources.insert id .handle }

end Put

/-- What is left to do for a round that has its ticket: it grants and stores what is granted, or it
stores a ticket to go on with. -/
inductive Plan where
  | grants (reply : Reply) (puts : List Put)
  | asks (reply : Reply) (id : String) (ticket : Ticket)

namespace Plan

def reply : Plan → Reply
  | grants reply _ => reply
  | asks reply _ _ => reply

def keys : Plan → List String
  | grants _ puts => puts.map Put.key
  | asks _ id _ => [id]

def apply (stores : Stores) : Plan → Stores
  | grants _ puts => puts.foldl Put.apply stores
  | asks _ id ticket => { stores with tickets := stores.tickets.insert id ticket }

/-- What is stored, is stored under different ids that the source had still to hand out. -/
structure Fresh (plan : Plan) (ids : IdSupply) : Prop where
  nodup : plan.keys.Nodup
  mayIssue : ∀ id ∈ plan.keys, ids.MayIssue id

theorem fresh_of_sublist {plan : Plan} {ids : IdSupply}
    (h : plan.keys.Sublist [ids.next.1, ids.next.2.next.1]) : plan.Fresh ids := by
  refine ⟨h.nodup (by simp [ids.next_ne_next_next]), fun id hid => ?_⟩
  rcases List.mem_cons.mp (h.subset hid) with rfl | hid
  · exact ids.mayIssue_next
  · exact List.mem_singleton.mp hid ▸ ids.mayIssue_next_next

end Plan

/-- The program carries the plan out, as long as what it reads agrees with the data. -/
inductive Program.CarriesOut (data : PolicyData Id) : IdSupply → Program Reply → Plan → Prop
  | done (ids : IdSupply) (reply : Reply) : CarriesOut data ids (.done reply) (.grants reply [])
  | freshId {ids : IdSupply} {next : String → Program Reply} {plan : Plan}
      (h : CarriesOut data ids.next.2 (next ids.next.1) plan) :
      CarriesOut data ids (.step .freshId next) plan
  | rules {ids : IdSupply} {next : RuleTable → Program Reply} {plan : Plan}
      (h : CarriesOut data ids (next data.rules) plan) :
      CarriesOut data ids (.step .currentRules next) plan
  | resource {ids : IdSupply} {id : String} {next : Option Resource → Program Reply} {plan : Plan}
      (h : ∀ found, Policy.sourcesOf found = Policy.sourcesOf (data.resource? id) →
        CarriesOut data ids (next found) plan) :
      CarriesOut data ids (.step (.findResource id) next) plan
  | note {ids : IdSupply} {requested : List String} {next : Unit → Program Reply} {plan : Plan}
      (h : CarriesOut data ids (next ()) plan) :
      CarriesOut data ids (.step (.note requested) next) plan
  | token {ids : IdSupply} {id : String} {kept : KeptToken} {next : Unit → Program Reply}
      {reply : Reply} {puts : List Put} (h : CarriesOut data ids (next ()) (.grants reply puts)) :
      CarriesOut data ids (.step (.putToken id kept) next) (.grants reply (.token id kept :: puts))
  | handle {ids : IdSupply} {id : String} {next : Unit → Program Reply} {reply : Reply}
      {puts : List Put} (hnew : Policy.sourcesOf (data.resource? id) = [])
      (h : CarriesOut data ids (next ()) (.grants reply puts)) :
      CarriesOut data ids (.step (.putResource id .handle) next)
        (.grants reply (.handle id :: puts))
  | ticket {ids : IdSupply} {id : String} {ticket : Ticket} {next : Unit → Program Reply}
      {reply : Reply} (h : CarriesOut data ids (next ()) (.grants reply [])) :
      CarriesOut data ids (.step (.putTicket id ticket) next) (.asks reply id ticket)

theorem Program.Reads.carriesOut {α : Type} {data : PolicyData Id} {p : Program α} {a : α}
    (hp : p.Reads data a) {ids : IdSupply} {f : α → Program Reply} {plan : Plan}
    (hf : (f a).CarriesOut data ids plan) : (p >>= f).CarriesOut data ids plan := by
  induction hp with
  | done a => exact hf
  | rules _ ih => exact .rules (ih hf)
  | resource _ ih => exact .resource fun found hfound => ih found hfound hf

namespace Action
variable {α β : Type} {data : PolicyData Id}

theorem run_bind_bind (x : Action α) (f : α → Action β) (k : Except Error β → Program Reply) :
    (ExceptT.run (x >>= f) >>= k) = ExceptT.run x >>= fun result =>
      match result with
      | .ok a => ExceptT.run (f a) >>= k
      | .error e => k (.error e) := by
  change (ExceptT.run x >>= ExceptT.bindCont f) >>= k = _
  rw [Program.bind_assoc]
  congr 1
  funext result
  cases result <;> rfl

/-- Whatever plan comes after it, the action only reads, and goes on with the result. -/
def Answers (data : PolicyData Id) (x : Action α) (result : Except Error α) : Prop :=
  ∀ (ids : IdSupply) (k : Except Error α → Program Reply) (plan : Plan),
    (k result).CarriesOut data ids plan → (ExceptT.run x >>= k).CarriesOut data ids plan

theorem answers_pure (a : α) : (pure a : Action α).Answers data (.ok a) := fun _ _ _ h => h

theorem answers_liftExcept (x : Except Error α) : (liftM x : Action α).Answers data x := by
  intro ids k plan h
  cases x <;> exact h

theorem answers_throw (e : Error) : (throw e : Action α).Answers data (.error e) :=
  fun _ _ _ h => h

theorem Answers.bind {x : Action α} {a : α} (hx : x.Answers data (.ok a)) {f : α → Action β}
    {result : Except Error β} (hf : (f a).Answers data result) :
    (x >>= f).Answers data result := by
  intro ids k plan h
  rw [run_bind_bind]
  exact hx ids _ plan (hf ids k plan h)

theorem Answers.bind_error {x : Action α} {e : Error} (hx : x.Answers data (.error e))
    (f : α → Action β) : (x >>= f).Answers data (.error e) := by
  intro ids k plan h
  rw [run_bind_bind]
  exact hx ids _ plan h

theorem answers_lift {p : Program α} {a : α} (hp : p.Reads data a) :
    (lift p).Answers data (.ok a) := by
  intro ids k plan h
  change ((p >>= fun a => pure (Except.ok a)) >>= k).CarriesOut data ids plan
  rw [Program.bind_assoc]
  exact hp.carriesOut h

theorem answers_fetch (fetcher : Fetcher) (m : Fetching α) :
    (fetch fetcher m).Answers data (m fetcher).result := by
  intro ids k plan h
  refine .note ?_
  change (ExceptT.run (match (m fetcher).result with
    | .ok value => pure value
    | .error e => throw e : Action α) >>= k).CarriesOut data ids plan
  generalize (m fetcher).result = result at h ⊢
  cases result <;> exact h

/-- The action has a plan, and what is stored by it has ids that are new. -/
def HasPlan (data : PolicyData Id) (ids : IdSupply) (x : Action α)
    (reply : Except Error α → Reply) : Prop :=
  ∃ plan : Plan,
    (ExceptT.run x >>= fun result => pure (reply result)).CarriesOut data ids plan ∧ plan.Fresh ids

theorem Answers.hasPlan {x : Action α} {result : Except Error α} (hx : x.Answers data result)
    (ids : IdSupply) (reply : Except Error α → Reply) : x.HasPlan data ids reply :=
  ⟨_, hx ids _ _ (.done ids (reply result)), Plan.fresh_of_sublist (List.nil_sublist _)⟩

theorem Answers.hasPlan_bind {x : Action α} {a : α} (hx : x.Answers data (.ok a))
    {f : α → Action β} {ids : IdSupply} {reply : Except Error β → Reply}
    (hf : (f a).HasPlan data ids reply) : (x >>= f).HasPlan data ids reply := by
  obtain ⟨plan, hplan, hfresh⟩ := hf
  refine ⟨plan, ?_, hfresh⟩
  rw [run_bind_bind]
  exact hx ids _ plan hplan

end Action

namespace Server
variable {data : PolicyData Id} {ids : IdSupply}

/-! ## Every call has a plan -/

theorem answers_newTicket (server : Server) (permissions : List Permission) :
    (server.newTicket permissions).Answers data
      (.ok ⟨permissions, server.policy.credentials data permissions none, ∅⟩) :=
  Action.answers_lift (Strategy.reads_newTicket data server.policy permissions)

theorem answers_resolves (server : Server) (ticket : Ticket) :
    (server.resolves ticket).Answers data
      (.ok (server.strategy.resolves data server.policy ticket)) :=
  Action.answers_lift (Strategy.reads_resolves data server.strategy server.policy ticket)

theorem exists_answers_expand (server : Server) (data : PolicyData Id) (scopes : List String)
    (ticket : Ticket) :
    ∃ widened, (server.expand scopes ticket).Answers data (.ok widened) := by
  rw [expand]
  cases scopes.isEmpty with
  | true => exact ⟨ticket, Action.answers_pure ticket⟩
  | false => exact ⟨_, server.answers_newTicket _⟩

theorem exists_answers_takeCredentials [Url.DomainRules] (server : Server) (data : PolicyData Id)
    (around : Surroundings) (credentials : List Credential) (ticket : Ticket) :
    ∃ result, (server.takeCredentials around credentials ticket).Answers data result := by
  rw [takeCredentials]
  cases credentials.isEmpty with
  | true => exact ⟨.ok ticket, Action.answers_pure ticket⟩
  | false =>
    have hfetch : (Action.fetch around.fetcher (server.verifyEach around.now credentials)).Answers
        data _ := Action.answers_fetch _ _
    cases hresult : (server.verifyEach around.now credentials around.fetcher).result with
    | error e =>
      rw [hresult] at hfetch
      exact ⟨.error e, hfetch.bind_error _⟩
    | ok verified =>
      rw [hresult] at hfetch
      simp only [Bool.false_eq_true, ↓reduceIte]
      cases hempty : (verified.foldl Claims.merge ∅).isEmpty with
      | true =>
        refine ⟨.ok ticket, hfetch.bind ?_⟩
        simp only [hempty, ↓reduceIte]
        exact Action.answers_pure ticket
      | false =>
        refine ⟨.ok (server.strategy.absorb ticket (verified.foldl Claims.merge ∅)),
          hfetch.bind ?_⟩
        simp only [hempty, Bool.false_eq_true, ↓reduceIte]
        exact Action.answers_pure _

/-- A round that has a ticket to start from. -/
def proceed [Url.DomainRules] (server : Server) (around : Surroundings) (request : TokenRequest)
    (credentials : List Credential) (ticket : Ticket) : Action Outcome := do
  let ticket ← server.expand request.scopeWords ticket
  let ticket ← server.takeCredentials around credentials ticket
  server.conclude around request.scopeWords ticket

theorem hasPlan_grant (server : Server) (around : Surroundings) (permissions : List Permission)
    (scopes : List String) (hnew : ∀ id, ids.MayIssue id → data.resource? id = none)
    (reply : Except Error Outcome → Reply) :
    Action.HasPlan data ids
      (do return .granted (← server.grant around permissions scopes)) reply := by
  have hhandle (id : String) (hid : ids.MayIssue id) :
      Policy.sourcesOf (data.resource? id) = [] := by
    rw [hnew id hid]
    rfl
  have hsecond := hhandle _ ids.mayIssue_next_next
  cases hform : server.tokenForm <;> cases hscope : scopes.contains Scope.derivationCreation <;>
    simp only [grant, issueToken, hform, hscope, Action.HasPlan]
  · exact ⟨_, .freshId (.done _ _), Plan.fresh_of_sublist (List.nil_sublist _)⟩
  · exact ⟨_, .freshId (.freshId (.handle hsecond (.done _ _))),
      Plan.fresh_of_sublist (.cons _ (.refl _))⟩
  · exact ⟨_, .freshId (.token (.done _ _)),
      Plan.fresh_of_sublist (.cons_cons _ (List.nil_sublist _))⟩
  · exact ⟨_, .freshId (.token (.freshId (.handle hsecond (.done _ _)))),
      Plan.fresh_of_sublist (.refl _)⟩

theorem hasPlan_askForMore (ticket : Ticket) (reply : Except Error Outcome → Reply) :
    Action.HasPlan data ids (do return .needInfo (← askForMore ticket)) reply := by
  simp only [askForMore, Action.HasPlan]
  generalize (if ticket.required.length < ticket.permissions.length then []
    else ticket.wantedClaims) = missing
  cases missing.isEmpty with
  | true => exact ⟨_, .done _ _, Plan.fresh_of_sublist (List.nil_sublist _)⟩
  | false =>
    exact ⟨_, .freshId (.ticket (.done _ _)),
      Plan.fresh_of_sublist (.cons_cons _ (List.nil_sublist _))⟩

theorem hasPlan_conclude (server : Server) (around : Surroundings) (scopes : List String)
    (ticket : Ticket) (hnew : ∀ id, ids.MayIssue id → data.resource? id = none)
    (reply : Except Error Outcome → Reply) :
    (server.conclude around scopes ticket).HasPlan data ids reply := by
  rw [conclude]
  refine (server.answers_resolves ticket).hasPlan_bind ?_
  split
  · exact server.hasPlan_grant around ticket.permissions scopes hnew reply
  · exact hasPlan_askForMore ticket reply

theorem hasPlan_proceed [Url.DomainRules] (server : Server) (around : Surroundings)
    (request : TokenRequest) (credentials : List Credential) (ticket : Ticket)
    (hnew : ∀ id, ids.MayIssue id → data.resource? id = none)
    (reply : Except Error Outcome → Reply) :
    (server.proceed around request credentials ticket).HasPlan data ids reply := by
  obtain ⟨widened, hwidened⟩ := server.exists_answers_expand data request.scopeWords ticket
  refine hwidened.hasPlan_bind ?_
  obtain ⟨result, hresult⟩ :=
    server.exists_answers_takeCredentials data around credentials widened
  cases result with
  | error e => exact (hresult.bind_error _).hasPlan ids reply
  | ok credited =>
    exact hresult.hasPlan_bind
      (server.hasPlan_conclude around request.scopeWords credited hnew reply)

end Server

/-! ## Tasks -/

/-- What is left to do for a call: a round that presents a ticket waits for its turn to take it. -/
inductive Task where
  | waiting (id : String) (refusal : Reply) (plan : Ticket → Plan)
  | going (plan : Plan)

/-- The thread is at the start of the task. -/
inductive Thread.IsAt (data : PolicyData Id) (thread : Thread) : Task → Prop
  | waiting {id : String} {next : Option Ticket → Program Reply} {refusal : Reply}
      {plan : Ticket → Plan} (hprogram : thread.program = .step (.takeTicket id) next)
      (hnone : next none = .done refusal)
      (hsome : ∀ ticket, (next (some ticket)).CarriesOut data thread.ids (plan ticket)) :
      IsAt data thread (.waiting id refusal plan)
  | going {plan : Plan} (h : thread.program.CarriesOut data thread.ids plan) :
      IsAt data thread (.going plan)

namespace Task

/-- The plans that the task may come to. -/
def MayCome (task : Task) (plan : Plan) : Prop :=
  match task with
  | waiting _ _ plans => ∃ ticket, plan = plans ticket
  | going own => plan = own

/-- The task may store something under the id. -/
def MayStore (task : Task) (id : String) : Prop := ∃ plan, task.MayCome plan ∧ id ∈ plan.keys

end Task

namespace Server
variable {data : PolicyData Id}

theorem negotiate_eq [Url.DomainRules] (server : Server) (around : Surroundings)
    (request : TokenRequest) :
    server.negotiate around request = liftM (server.accept request) >>= fun credentials =>
      server.startingTicket request >>= server.proceed around request credentials := rfl

/-- An acceptable round that presents a ticket takes it first of all. -/
theorem program_of_ticket [Url.DomainRules] {server : Server} (around : Surroundings)
    {request : TokenRequest} {credentials : List Credential}
    (haccept : server.accept request = .ok credentials) {id : String}
    (hticket : request.ticket = some id) :
    ∃ next, server.program (.round around request) = .step (.takeTicket id) next ∧
      next none = .done (.negotiated (.error (.badRequest .unknownTicket))) ∧
      ∀ ticket, next (some ticket) =
        ExceptT.run (server.proceed around request credentials ticket) >>= fun result =>
          pure (.negotiated result) := by
  simp only [program, negotiate_eq, haccept, startingTicket, hticket]
  exact ⟨_, rfl, rfl, fun _ => rfl⟩

theorem hasPlan_openTicket (server : Server) (permissions : List Permission) (ids : IdSupply) :
    (server.openTicket permissions).HasPlan data ids .opened := by
  rw [openTicket]
  cases Permission.validateAll permissions with
  | error e => exact ((Action.answers_liftExcept _).bind_error _).hasPlan ids _
  | ok =>
    refine (Action.answers_liftExcept _).hasPlan_bind ?_
    refine (server.answers_newTicket permissions).hasPlan_bind ?_
    refine (server.answers_resolves _).hasPlan_bind ?_
    split
    · exact (Action.answers_pure none).hasPlan ids _
    · exact ⟨_, .freshId (.ticket (.done _ _)),
        Plan.fresh_of_sublist (.cons_cons _ (List.nil_sublist _))⟩

/-- A round that presents no ticket has its plan from the start. -/
theorem hasPlan_negotiate [Url.DomainRules] (server : Server) (around : Surroundings)
    {request : TokenRequest} (hticket : request.ticket = none) {ids : IdSupply}
    (hnew : ∀ id, ids.MayIssue id → data.resource? id = none) :
    (server.negotiate around request).HasPlan data ids .negotiated := by
  rw [negotiate_eq]
  cases haccept : server.accept request with
  | error e => exact ((Action.answers_liftExcept _).bind_error _).hasPlan ids _
  | ok credentials =>
    refine (Action.answers_liftExcept _).hasPlan_bind ?_
    rw [startingTicket, hticket]
    cases request.permissions with
    | none => exact ((Action.answers_throw _).bind_error _).hasPlan ids _
    | some permissions =>
      exact (server.answers_newTicket permissions).hasPlan_bind
        (server.hasPlan_proceed around request credentials _ hnew _)

private theorem isAt_of_hasPlan {α : Type} {x : Action α} {reply : Except Error α → Reply}
    {ids : IdSupply} (h : x.HasPlan data ids reply) {program : Program Reply}
    (hprogram : program = ExceptT.run x >>= fun result => pure (reply result)) :
    ∃ task, Thread.IsAt data ⟨ids, program⟩ task ∧ ∀ plan, task.MayCome plan → plan.Fresh ids := by
  obtain ⟨plan, hplan, hfresh⟩ := h
  subst hprogram
  refine ⟨.going plan, .going hplan, ?_⟩
  rintro _ rfl
  exact hfresh

/-- Every call has a task, and what it may store, it stores under ids that are new. -/
theorem exists_task [Url.DomainRules] (server : Server) (call : Call) (ids : IdSupply)
    (hnew : ∀ id, ids.MayIssue id → data.resource? id = none) :
    ∃ task, Thread.IsAt data ⟨ids, server.program call⟩ task ∧
      ∀ plan, task.MayCome plan → plan.Fresh ids := by
  cases call with
  | opening permissions => exact isAt_of_hasPlan (server.hasPlan_openTicket permissions ids) rfl
  | round around request =>
    cases hticket : request.ticket with
    | none => exact isAt_of_hasPlan (server.hasPlan_negotiate around hticket hnew) rfl
    | some id =>
      cases haccept : server.accept request with
      | error e =>
        have hanswers : (server.negotiate around request).Answers data (.error e) := by
          rw [negotiate_eq, haccept]
          exact (Action.answers_liftExcept _).bind_error _
        exact isAt_of_hasPlan (hanswers.hasPlan ids .negotiated) rfl
      | ok credentials =>
        have hplans (ticket : Ticket) : ∃ plan : Plan,
            (ExceptT.run (server.proceed around request credentials ticket) >>= fun result =>
              pure (.negotiated result)).CarriesOut data ids plan ∧ plan.Fresh ids :=
          server.hasPlan_proceed around request credentials ticket hnew .negotiated
        obtain ⟨plans, hplans⟩ := Classical.axiomOfChoice hplans
        obtain ⟨next, hprogram, hnone, hsome⟩ := program_of_ticket around haccept hticket
        refine ⟨.waiting id _ plans, .waiting hprogram hnone fun ticket => ?_, ?_⟩
        · rw [hsome]
          exact (hplans ticket).1
        · rintro _ ⟨ticket, rfl⟩
          exact (hplans ticket).2

end Server

end UserManagedAccess
