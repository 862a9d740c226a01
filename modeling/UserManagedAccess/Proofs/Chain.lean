import UserManagedAccess.Proofs.Fetching
import UserManagedAccess.Proofs.History

/-! Chains of rounds. A ticket that is stored holds what the rounds since its chain began have come
to: the permissions that were asked for, the claims that were proven, and what is left to prove. -/
namespace UserManagedAccess

/-- A credential, and what surrounded the server when it was pushed. -/
structure Pushed where
  around : Surroundings
  credential : Credential

/-- The rounds that led to a ticket. -/
structure Chain where
  /-- What was asked for first. -/
  requested : List Permission
  /-- The scopes that were asked for on top, round by round. -/
  added : List (List String)
  /-- The state in which the requirements were looked up; with further scopes, they are again. -/
  startedIn : ServerState
  /-- What was pushed since then. -/
  pushed : List Pushed

namespace Chain

def start (s : ServerState) (permissions : List Permission) : Chain := ⟨permissions, [], s, []⟩

/-- The permissions that it has come to. -/
def permissions (chain : Chain) : List Permission :=
  chain.added.foldl (fun ps scopes => ps.map (·.withScopes scopes)) chain.requested

def widen (chain : Chain) (s : ServerState) (scopes : List String) : Chain :=
  if scopes.isEmpty then chain
  else { chain with added := chain.added ++ [scopes], startedIn := s, pushed := [] }

def push (chain : Chain) (around : Surroundings) (credentials : List Credential) : Chain :=
  { chain with pushed := chain.pushed ++ credentials.map (⟨around, ·⟩) }

end Chain

namespace TokenRequest

/-- The chain that a request starts from, given the chains of the tickets that are known. -/
def base? (known : String → Option Chain) (s : ServerState) (request : TokenRequest) :
    Option Chain :=
  match request.ticket, request.permissions with
  | some id, _ => known id
  | none, some permissions => some (.start s permissions)
  | none, none => none

/-- The chain that a request comes to. -/
def chain? (known : String → Option Chain) (around : Surroundings) (s : ServerState)
    (request : TokenRequest) : Option Chain := do
  let chain ← request.base? known s
  let credentials ← request.credentials.toOption
  return (chain.widen s request.scopeWords).push around credentials

end TokenRequest

namespace Event

/-- The ticket that a reply gives out. -/
def ticket? (event : Event) : Option String :=
  match event.reply with
  | .negotiated (.ok (.needInfo demand)) => some demand.ticket
  | .opened (.ok (some id)) => some id
  | _ => none

/-- The chain that an event goes on with or begins. -/
def chain? (known : String → Option Chain) (event : Event) : Option Chain :=
  match event.command with
  | .negotiate around request => request.chain? known around event.before
  | .openTicket permissions => some (.start event.before permissions)
  | _ => none

end Event

/-- The chain that led to a ticket, read off the events, the latest first. -/
def chainOf? : List Event → String → Option Chain
  | [], _ => none
  | event :: earlier, id =>
    if event.ticket? = some id then event.chain? (chainOf? earlier) else chainOf? earlier id

namespace Server

section
variable [Url.DomainRules]

/-- What a credential proves when it is verified. -/
def verified (server : Server) (around : Surroundings) (credential : Credential) :
    Except Error Claims :=
  (server.verifier.verify around.now credential ∅ around.fetcher).result

/-- The values that a credential proves under a name; none if it is not verified. -/
def valuesProven (server : Server) (around : Surroundings) (name : String)
    (credential : Credential) : List Json :=
  match server.verified around credential with
  | .ok found => found.values name
  | .error _ => []

theorem mem_valuesProven {server : Server} {around : Surroundings} {name : String}
    {credential : Credential} {value : Json} :
    value ∈ server.valuesProven around name credential ↔
      ∃ found, server.verified around credential = .ok found ∧ value ∈ found.values name := by
  rw [valuesProven]
  cases server.verified around credential <;> simp

/-- A credential of the chain was verified, and the value is among what it proves. -/
def Proves (server : Server) (chain : Chain) (name : String) (value : Json) : Prop :=
  ∃ p ∈ chain.pushed, ∃ found, server.verified p.around p.credential = .ok found ∧
    value ∈ found.values name

/-- What the policy asked for when the chain began, or began anew. -/
def demanded (server : Server) (chain : Chain) : List Requirements :=
  server.policy.demands chain.startedIn chain.permissions

/-- A ticket that holds what its chain has come to. -/
structure Follows (server : Server) (ticket : Ticket) (chain : Chain) : Prop where
  valid : Permission.validateAll chain.requested = .ok ()
  permissions_eq : ticket.permissions = chain.permissions
  mem_provided : ∀ name value,
    value ∈ ticket.provided.values name ↔ server.Proves chain name value
  required_eq : server.strategy = .elimination →
    ticket.required = (server.demanded chain).map (·.eliminate ticket.provided)

/-! ## What credentials prove together -/

variable (server : Server) (around : Surroundings)

private theorem verifyEach_cons_eq_ok {c : Credential} {rest : List Credential}
    {sets : List Claims} :
    (server.verifyEach around.now (c :: rest) around.fetcher).result = .ok sets ↔
      ∃ found others, server.verified around c = .ok found ∧
        (server.verifyEach around.now rest around.fetcher).result = .ok others ∧
        sets = found :: others := by
  simp only [verifyEach, Fetching.result_bind_eq_ok, Fetching.result_pure, Except.ok.injEq,
    verified]
  constructor
  · rintro ⟨found, hfound, others, hothers, rfl⟩
    exact ⟨found, others, hfound, hothers, rfl⟩
  · rintro ⟨found, others, hfound, hothers, rfl⟩
    exact ⟨found, hfound, others, hothers, rfl⟩

private theorem values_of_verifyEach_eq_ok {credentials : List Credential} {sets : List Claims}
    (h : (server.verifyEach around.now credentials around.fetcher).result = .ok sets)
    (name : String) :
    sets.flatMap (·.values name) = credentials.flatMap (server.valuesProven around name) := by
  induction credentials generalizing sets with
  | nil =>
    cases h
    rfl
  | cons c rest ih =>
    obtain ⟨first, others, hfirst, hothers, rfl⟩ := (verifyEach_cons_eq_ok server around).mp h
    simp [valuesProven, hfirst, ih hothers]

/-- Credentials prove something together if each of them is verified. -/
theorem exists_provenClaims_iff (credentials : List Credential) :
    (∃ claims, server.provenClaims around credentials = .ok claims) ↔
      ∀ c ∈ credentials, ∃ found, server.verified around c = .ok found := by
  have hsets : (∃ claims, server.provenClaims around credentials = .ok claims) ↔
      ∃ sets, (server.verifyEach around.now credentials around.fetcher).result = .ok sets := by
    rw [provenClaims]
    cases (server.verifyEach around.now credentials around.fetcher).result <;> simp [Except.map]
  rw [hsets]
  clear hsets
  induction credentials with
  | nil => exact ⟨fun _ _ hc => absurd hc List.not_mem_nil, fun _ => ⟨[], rfl⟩⟩
  | cons c rest ih =>
    simp only [verifyEach_cons_eq_ok, List.forall_mem_cons, ← ih]
    constructor
    · rintro ⟨_, found, others, hfound, hothers, -⟩
      exact ⟨⟨found, hfound⟩, others, hothers⟩
    · rintro ⟨⟨found, hfound⟩, others, hothers⟩
      exact ⟨_, found, others, hfound, hothers, rfl⟩

/-- Credentials prove the values that each of them proves, in order. -/
theorem values_provenClaims {credentials : List Credential} {claims : Claims}
    (h : server.provenClaims around credentials = .ok claims) (name : String) :
    claims.values name = credentials.flatMap (server.valuesProven around name) := by
  cases hsets : (server.verifyEach around.now credentials around.fetcher).result with
  | error e => simp [provenClaims, hsets, Except.map] at h
  | ok sets =>
    simp only [provenClaims, hsets, Except.map, Except.ok.injEq] at h
    subst h
    rw [Claims.values_foldl_merge, Claims.values_empty, List.nil_append,
      values_of_verifyEach_eq_ok server around hsets]

theorem mem_provenClaims {credentials : List Credential} {claims : Claims}
    (h : server.provenClaims around credentials = .ok claims) (name : String) (value : Json) :
    value ∈ claims.values name ↔
      ∃ c ∈ credentials, ∃ found, server.verified around c = .ok found ∧
        value ∈ found.values name := by
  simp only [values_provenClaims server around h, List.mem_flatMap, mem_valuesProven]

end

/-! ## Steps of a round -/

variable {server : Server} {around : Surroundings} {s : ServerState} {ticket : Ticket}
  {chain : Chain}

private theorem map_eliminate_empty {required : List Requirements}
    (h : ∀ r ∈ required, r.Tidy) : required.map (·.eliminate ∅) = required := by
  have hid : required.map (·.eliminate ∅) = required.map id :=
    List.map_congr_left fun r hr => Requirements.eliminate_empty (h r hr)
  rw [hid, List.map_id]

/-- A request is acceptable if it is valid, its credentials are complete and of formats that are
known, and somebody can be asked about each of them. -/
theorem accept_eq_ok_iff {request : TokenRequest} {credentials : List Credential} :
    server.accept request = .ok credentials ↔
      request.validate = .ok () ∧ request.credentials = .ok credentials ∧
        ∀ c ∈ credentials, server.verifier.supports c.format = true := by
  rw [accept]
  cases request.validate with
  | error e => simp [bind, Except.bind]
  | ok =>
    cases request.credentials with
    | error e => simp [bind, Except.bind]
    | ok cs =>
      simp only [bind, Except.bind, true_and, Except.ok.injEq]
      split
      · next c hfind =>
        simp only [reduceCtorEq, throw, throwThe, MonadExceptOf.throw, false_iff, not_and]
        rintro rfl hall
        have hsome := List.find?_some hfind
        simp [hall c (List.mem_of_find?_eq_some hfind)] at hsome
      · next hnone =>
        simp only [pure, Except.pure, Except.ok.injEq]
        refine ⟨fun h => ⟨h, ?_⟩, fun h => h.1⟩
        subst h
        simpa using hnone

section
variable [Url.DomainRules]

/-- With the requirements as they are asked for, and nothing proven. -/
theorem follows_freshTicket {permissions : List Permission}
    (hvalid : Permission.validateAll chain.requested = .ok ())
    (hpermissions : chain.permissions = permissions) (hstarted : chain.startedIn = s)
    (hpushed : chain.pushed = []) : server.Follows (server.freshTicket s permissions) chain where
  valid := hvalid
  permissions_eq := hpermissions.symm
  mem_provided name value := by simp [freshTicket, Proves, hpushed]
  required_eq _ := by
    simp only [freshTicket, demanded, hstarted, hpermissions]
    exact (map_eliminate_empty (server.policy.tidy_demands s permissions)).symm

theorem follows_start {permissions : List Permission}
    (hvalid : Permission.validateAll permissions = .ok ()) (s : ServerState) :
    server.Follows (server.freshTicket s permissions) (.start s permissions) :=
  follows_freshTicket hvalid rfl rfl rfl

theorem Follows.widened (h : server.Follows ticket chain) (s : ServerState)
    (scopes : List String) :
    server.Follows (server.widened s scopes ticket) (chain.widen s scopes) := by
  cases hscopes : scopes.isEmpty with
  | true => simpa [Server.widened, Chain.widen, hscopes] using h
  | false =>
    have hpermissions : (chain.widen s scopes).permissions =
        ticket.permissions.map (·.withScopes scopes) := by
      simp [Chain.widen, hscopes, Chain.permissions, h.permissions_eq]
    simp only [Server.widened, hscopes, Bool.false_eq_true, ↓reduceIte]
    apply follows_freshTicket _ hpermissions <;> simp [Chain.widen, hscopes, h.valid]

theorem proves_push (credentials : List Credential) (name : String) (value : Json) :
    server.Proves (chain.push around credentials) name value ↔
      server.Proves chain name value ∨
        ∃ c ∈ credentials, ∃ found, server.verified around c = .ok found ∧
          value ∈ found.values name := by
  simp only [Proves, Chain.push, List.mem_append, List.mem_map]
  constructor
  · rintro ⟨p, hp | ⟨c, hc, rfl⟩, hfound⟩
    · exact .inl ⟨p, hp, hfound⟩
    · exact .inr ⟨c, hc, hfound⟩
  · rintro (⟨p, hp, hfound⟩ | ⟨c, hc, hfound⟩)
    · exact ⟨p, .inl hp, hfound⟩
    · exact ⟨⟨around, c⟩, .inr ⟨c, hc, rfl⟩, hfound⟩

theorem Follows.credited (h : server.Follows ticket chain) {credentials : List Credential}
    {claims : Claims} (hclaims : server.provenClaims around credentials = .ok claims) :
    server.Follows (server.credited ticket claims) (chain.push around credentials) := by
  cases hempty : claims.isEmpty with
  | true =>
    -- nothing was proven, so the same values are held and the same is left
    have hnone := Claims.isEmpty_iff.mp hempty
    simp only [Server.credited, hempty, ↓reduceIte]
    refine ⟨h.valid, h.permissions_eq, fun name value => ?_, h.required_eq⟩
    rw [proves_push, ← mem_provenClaims server around hclaims, hnone name, h.mem_provided]
    simp
  | false =>
    have hprovided : (server.credited ticket claims).provided = ticket.provided.merge claims := by
      simp only [Server.credited, hempty, Bool.false_eq_true, ↓reduceIte, Strategy.absorb]
      cases server.strategy <;> rfl
    refine ⟨h.valid, (permissions_credited ticket claims).trans h.permissions_eq,
      fun name value => ?_, fun hs => ?_⟩
    · rw [hprovided, proves_push, ← mem_provenClaims server around hclaims, Claims.values_merge,
        List.mem_append, h.mem_provided]
    · rw [hprovided]
      simp only [Server.credited, hempty, Bool.false_eq_true, ↓reduceIte, Strategy.absorb, hs,
        h.required_eq hs, List.map_map]
      exact List.map_congr_left fun r _ => Requirements.eliminate_eliminate_merge r _ _

theorem weighed_eq_ok_iff {request : TokenRequest} :
    server.weighed around s request = .ok ticket ↔
      ∃ credentials opened claims, server.accept request = .ok credentials ∧
        server.opening s request = .ok opened ∧
        server.provenClaims around credentials = .ok claims ∧
        ticket = server.credited (server.widened s request.scopeWords opened) claims := by
  rw [weighed]
  cases server.accept request with
  | error e => simp [bind, Except.bind]
  | ok credentials =>
    cases server.opening s request with
    | error e => simp [bind, Except.bind]
    | ok opened =>
      cases hclaims : server.provenClaims around credentials with
      | error e => simp [bind, Except.bind, hclaims]
      | ok claims => simp [bind, Except.bind, pure, Except.pure, hclaims, eq_comm]

/-- Given that tickets in store follow their chains, the ticket that a request is decided on follows
the chain that the request goes on with. -/
theorem follows_weighed {known : String → Option Chain}
    (hknown : ∀ id ticket, s.tickets.get? id = some ticket →
      ∃ chain, known id = some chain ∧ server.Follows ticket chain)
    {request : TokenRequest} (h : server.weighed around s request = .ok ticket) :
    ∃ chain, request.chain? known around s = some chain ∧ server.Follows ticket chain := by
  obtain ⟨credentials, opened, claims, haccept, hopening, hclaims, rfl⟩ := weighed_eq_ok_iff.mp h
  obtain ⟨hvalid, hcredentials, -⟩ := accept_eq_ok_iff.mp haccept
  have hbase : ∃ chain, request.base? known s = some chain ∧ server.Follows opened chain := by
    simp only [opening] at hopening
    simp only [TokenRequest.base?]
    cases hticket : request.ticket with
    | some id =>
      cases hget : s.tickets.get? id with
      | none => simp [hticket, hget] at hopening
      | some stored =>
        simp only [hticket, hget, Except.ok.injEq] at hopening
        exact hopening ▸ hknown id stored hget
    | none =>
      cases hpermissions : request.permissions with
      | some permissions =>
        simp only [hticket, hpermissions, Except.ok.injEq] at hopening
        simp only [TokenRequest.validate, hticket, hpermissions] at hvalid
        exact ⟨.start s permissions, rfl, hopening ▸ follows_start hvalid s⟩
      | none => simp [hticket, hpermissions] at hopening
  obtain ⟨chain, hchain, hfollows⟩ := hbase
  refine ⟨_, ?_, (hfollows.widened s request.scopeWords).credited hclaims⟩
  simp only [TokenRequest.chain?, hchain, hcredentials]
  rfl

/-! ## Whole histories -/

/-- Every ticket in store follows the chain that led to it. -/
def Traced (server : Server) (past : History) : Prop :=
  ∀ id ticket, past.state.tickets.get? id = some ticket →
    ∃ chain, chainOf? past.events id = some chain ∧ server.Follows ticket chain

/-- An event that gives no ticket out leaves only tickets in store that were there before. -/
private theorem Traced.kept {past : History} {event : Event} {state : ServerState}
    (h : server.Traced past) (hnone : event.ticket? = none)
    (hstored : ∀ id ticket, state.tickets.get? id = some ticket →
      past.state.tickets.get? id = some ticket) :
    server.Traced ⟨state, event :: past.events⟩ := by
  intro id ticket hid
  obtain ⟨chain, hchain, hfollows⟩ := h id ticket (hstored id ticket hid)
  refine ⟨chain, ?_, hfollows⟩
  rw [chainOf?, hnone, if_neg (by simp), hchain]

/-- An event that gives a ticket out stores it, and the chain of the event leads to it. -/
private theorem Traced.given {past : History} {event : Event} {state : ServerState}
    (h : server.Traced past) {newId : String} (hgiven : event.ticket? = some newId)
    (hchain : event.chain? (chainOf? past.events) = some chain)
    (hfollows : server.Follows ticket chain) {tickets : KeyMap Ticket}
    (hstored : ∀ id ticket, tickets.get? id = some ticket →
      past.state.tickets.get? id = some ticket)
    (hstate : state.tickets = tickets.insert newId ticket) :
    server.Traced ⟨state, event :: past.events⟩ := by
  intro id ticket' hid
  simp only [hstate, KeyMap.get?_insert] at hid
  rw [chainOf?, hgiven]
  split at hid
  · next heq =>
    cases hid
    exact ⟨chain, by rw [if_pos (congrArg some heq.symm), hchain], hfollows⟩
  · next hne =>
    obtain ⟨older, holder, hfollows'⟩ := h id ticket' (hstored id ticket' hid)
    exact ⟨older, by rw [if_neg fun heq => hne (Option.some.inj heq).symm, holder], hfollows'⟩

theorem traced_serve (server : Server) {past : History} (h : server.Traced past)
    (command : Command) : server.Traced (server.serve past command) := by
  rw [serve]
  cases command with
  | negotiate around request =>
    obtain ⟨s', hs, htickets, hcases⟩ := server.negotiate_cases around request past.state
    have hstored : ∀ id ticket, s'.tickets.get? id = some ticket →
        past.state.tickets.get? id = some ticket :=
      fun id ticket hid => TokenRequest.get?_of_left htickets hid
    simp only [execute]
    rcases hcases with ⟨e, hrun, -⟩ | ⟨granted, -, -, hrun⟩ | ⟨fresh, hweighed, -, hrun⟩ <;>
      simp only [hrun, Prod.map_apply, id_eq]
    · exact h.kept rfl hstored
    · refine h.kept rfl fun id ticket hid => hstored id ticket ?_
      rwa [tickets_stateWith] at hid
    · obtain ⟨chain, hchain, hfollows⟩ := follows_weighed h hweighed
      exact h.given rfl hchain hfollows hstored rfl
  | openTicket permissions =>
    obtain ⟨s', hs, hcases⟩ := server.openTicket_cases permissions past.state
    have hstored : ∀ id ticket, s'.tickets.get? id = some ticket →
        past.state.tickets.get? id = some ticket :=
      fun id ticket hid => hs.tickets_eq ▸ hid
    simp only [execute]
    rcases hcases with ⟨result, hrun, hresult⟩ | ⟨-, hvalid, hrun⟩ <;>
      simp only [hrun, Prod.map_apply, id_eq]
    · refine h.kept ?_ hstored
      rcases hresult with ⟨e, -, rfl⟩ | ⟨-, -, rfl⟩ <;> rfl
    · exact h.given rfl rfl (follows_start hvalid past.state) hstored rfl
  | register description =>
    simp only [execute, run_register]
    split <;> exact h.kept rfl fun id ticket hid => hid
  | unregister id =>
    simp only [execute, run_unregister]
    exact h.kept rfl fun id ticket hid => hid
  | introspect around token =>
    obtain ⟨tokens, ids, hstate, -⟩ := server.introspect_cases around token past.state
    refine h.kept rfl fun id ticket hid => ?_
    simpa only [execute, Prod.map_snd, id_eq, hstate] using hid
  | changeRules file => exact h.kept rfl fun id ticket hid => hid

/-- In every history every ticket in store follows the chain that led to it. -/
theorem traced_history (server : Server) {start : ServerState} (h : start.IsInitial)
    (commands : List Command) : server.Traced (server.history start commands) := by
  refine history_induction (motive := server.Traced) (fun id ticket hid => ?_)
    (fun past command hpast => server.traced_serve hpast command) commands
  rw [h.tickets_eq] at hid
  cases hid

end

end Server

end UserManagedAccess
