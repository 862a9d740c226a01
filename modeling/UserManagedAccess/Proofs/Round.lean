import UserManagedAccess.Proofs.Demands
import UserManagedAccess.Server.Negotiation
import UserManagedAccess.Server.Registration

/-! A round of negotiation as a function of the state it meets: the ticket that it decides on, how
it ends, and what it leaves in the stores. -/
namespace UserManagedAccess

/-- The same stores, but for the tickets. -/
structure ServerState.SameButTickets (s s' : ServerState) : Prop where
  resources_eq : s'.resources = s.resources
  tokens_eq : s'.tokens = s.tokens
  ids_eq : s'.ids = s.ids
  rulesInForce_eq : s'.rulesInForce = s.rulesInForce

namespace ServerState

theorem SameButTickets.trans {s s' s'' : ServerState} (h : s.SameButTickets s')
    (h' : s'.SameButTickets s'') : s.SameButTickets s'' where
  resources_eq := h'.resources_eq.trans h.resources_eq
  tokens_eq := h'.tokens_eq.trans h.tokens_eq
  ids_eq := h'.ids_eq.trans h.ids_eq
  rulesInForce_eq := h'.rulesInForce_eq.trans h.rulesInForce_eq

theorem SameButTickets.snapshot_eq {s s' : ServerState} (h : s.SameButTickets s') :
    s'.snapshot = s.snapshot := by
  simp [snapshot, h.rulesInForce_eq, h.resources_eq]

theorem Consulted.sameButTickets {s s' : ServerState} (h : s.Consulted s') :
    s.SameButTickets s' :=
  ⟨h.resources_eq, h.tokens_eq, h.ids_eq, h.rulesInForce_eq⟩

end ServerState

/-- The tickets that are left once a request has taken the one that it presents. -/
def TokenRequest.remaining (request : TokenRequest) (tickets : KeyMap Ticket) : KeyMap Ticket :=
  match request.ticket with
  | some id => tickets.erase id
  | none => tickets

namespace Server
variable (server : Server) (around : Surroundings) (s : ServerState)

/-- A ticket on which nothing has been proven yet. -/
def freshTicket (permissions : List Permission) : Ticket :=
  ⟨permissions, server.policy.demands s permissions, ∅⟩

/-- The ticket that a request starts from. -/
def opening (request : TokenRequest) : Except Error Ticket :=
  match request.ticket, request.permissions with
  | some id, _ =>
    match s.tickets.get? id with
    | some ticket => .ok ticket
    | none => .error (.badRequest .unknownTicket)
  | none, some permissions => .ok (server.freshTicket s permissions)
  | none, none => .error (.badRequest .neitherTicketNorPermissions)

/-- A ticket with scopes added; with some, it starts over. -/
def widened (scopes : List String) (ticket : Ticket) : Ticket :=
  if scopes.isEmpty then ticket
  else server.freshTicket s (ticket.permissions.map (·.withScopes scopes))

/-- The claims that credentials prove together. -/
def provenClaims [Url.DomainRules] (credentials : List Credential) : Except Error Claims :=
  (server.verifyEach around.now credentials around.fetcher).result.map
    (·.foldl Claims.merge ∅)

/-- A ticket once claims have been taken in. -/
def credited (ticket : Ticket) (claims : Claims) : Ticket :=
  if claims.isEmpty then ticket else server.strategy.absorb ticket claims

/-- The ticket that a round decides on. -/
def weighed [Url.DomainRules] (request : TokenRequest) : Except Error Ticket := do
  let credentials ← server.accept request
  let ticket ← server.opening s request
  let claims ← server.provenClaims around credentials
  return server.credited (server.widened s request.scopeWords ticket) claims

/-- Whether the permissions of a ticket are granted. -/
def settles (ticket : Ticket) : Bool :=
  server.strategy.resolves s.snapshot server.policy ticket

/-- The end of a round: a grant, or a ticket to go on with. -/
def conclude (scopes : List String) (ticket : Ticket) : Action Outcome := do
  if ← server.resolves ticket then
    return .granted (← server.grant around ticket.permissions scopes)
  else
    return .needInfo (← askForMore ticket)

theorem settles_of_elimination (h : server.strategy = .elimination) (ticket : Ticket) :
    server.settles s ticket = ticket.isSettled := by
  rw [settles, h]
  rfl

variable {server around s} {s' : ServerState}

/-- An acceptable request with a ticket to start from is decided by its credentials. -/
theorem weighed_of_opening [Url.DomainRules] {request : TokenRequest}
    {credentials : List Credential} {ticket : Ticket}
    (haccept : server.accept request = .ok credentials)
    (hopening : server.opening s request = .ok ticket) :
    server.weighed around s request = (server.provenClaims around credentials).map
      (server.credited (server.widened s request.scopeWords ticket)) := by
  rw [weighed, haccept, hopening]
  change (server.provenClaims around credentials >>= fun claims =>
    pure (server.credited (server.widened s request.scopeWords ticket) claims)) = _
  cases server.provenClaims around credentials <;> rfl

theorem freshTicket_congr (h : s'.snapshot = s.snapshot) (permissions : List Permission) :
    server.freshTicket s' permissions = server.freshTicket s permissions := by
  rw [freshTicket, freshTicket, Policy.demands, Policy.demands, h]

theorem widened_congr (h : s'.snapshot = s.snapshot) (scopes : List String) (ticket : Ticket) :
    server.widened s' scopes ticket = server.widened s scopes ticket := by
  simp only [widened, freshTicket_congr h]

theorem settles_congr (h : s'.snapshot = s.snapshot) (ticket : Ticket) :
    server.settles s' ticket = server.settles s ticket := by
  rw [settles, settles, h]

@[simp] theorem permissions_credited (ticket : Ticket) (claims : Claims) :
    (server.credited ticket claims).permissions = ticket.permissions := by
  simp only [credited, Strategy.absorb]
  split
  · rfl
  · cases server.strategy <;> rfl

/-! ## The parts of a round -/

theorem run_newTicket (server : Server) (permissions : List Permission) (s : ServerState) :
    ∃ s', (server.newTicket permissions).run s = (.ok (server.freshTicket s permissions), s') ∧
      s.Consulted s' := by
  obtain ⟨hticket, hs⟩ := Strategy.consults_newTicket server.policy permissions s
  refine ⟨_, ?_, hs⟩
  rw [newTicket, Action.run_lift, hticket]
  rfl

theorem run_resolves (server : Server) (ticket : Ticket) (s : ServerState) :
    ∃ s', (server.resolves ticket).run s = (.ok (server.settles s ticket), s') ∧
      s.Consulted s' := by
  obtain ⟨hanswer, hs⟩ := Strategy.consults_resolves server.strategy server.policy ticket s
  refine ⟨_, ?_, hs⟩
  rw [resolves, Action.run_lift, hanswer]
  rfl

theorem run_startingTicket (server : Server) (request : TokenRequest) (s : ServerState) :
    ∃ s', (server.startingTicket request).run s = (server.opening s request, s') ∧
      s.SameButTickets s' ∧ s'.tickets = request.remaining s.tickets := by
  cases hticket : request.ticket with
  | some id =>
    have hsame : s.SameButTickets { s with tickets := s.tickets.erase id } :=
      ⟨rfl, rfl, rfl, by simp [ServerState.rulesInForce_eq]⟩
    refine ⟨_, ?_, hsame, ?_⟩
    · simp only [startingTicket, opening, hticket]
      refine (Action.run_bind_of_ok (Action.run_perform (.takeTicket id) s)).trans ?_
      simp only [Operation.run]
      cases s.tickets.get? id <;> rfl
    · simp [TokenRequest.remaining, hticket]
  | none =>
    cases hpermissions : request.permissions with
    | some permissions =>
      obtain ⟨s', hrun, hs⟩ := server.run_newTicket permissions s
      refine ⟨s', ?_, hs.sameButTickets, ?_⟩
      · simpa only [startingTicket, opening, hticket, hpermissions] using hrun
      · simp [TokenRequest.remaining, hticket, hs.tickets_eq]
    | none =>
      refine ⟨s, ?_, ServerState.Consulted.same.sameButTickets, ?_⟩
      · simp [startingTicket, opening, hticket, hpermissions]
      · simp [TokenRequest.remaining, hticket]

theorem run_expand (server : Server) (scopes : List String) (ticket : Ticket) (s : ServerState) :
    ∃ s', (server.expand scopes ticket).run s = (.ok (server.widened s scopes ticket), s') ∧
      s.Consulted s' := by
  cases hscopes : scopes.isEmpty with
  | true => exact ⟨s, by simp [expand, widened, hscopes], .same⟩
  | false =>
    obtain ⟨s', hrun, hs⟩ :=
      server.run_newTicket (ticket.permissions.map (·.withScopes scopes)) s
    exact ⟨s', by simpa [expand, widened, hscopes] using hrun, hs⟩

theorem run_takeCredentials [Url.DomainRules] (server : Server) (around : Surroundings)
    (credentials : List Credential) (ticket : Ticket) (s : ServerState) :
    ∃ s', (server.takeCredentials around credentials ticket).run s =
        ((server.provenClaims around credentials).map (server.credited ticket), s') ∧
      s.SameButTickets s' ∧ s'.tickets = s.tickets := by
  cases credentials with
  | nil =>
    have hnone : server.provenClaims around [] = .ok ∅ := rfl
    refine ⟨s, ?_, ServerState.Consulted.same.sameButTickets, rfl⟩
    rw [hnone]
    rfl
  | cons c rest =>
    let fetched := server.verifyEach around.now (c :: rest) around.fetcher
    refine ⟨{ s with requested := s.requested ++ fetched.requested }, ?_,
      ⟨rfl, rfl, rfl, by simp [ServerState.rulesInForce_eq]⟩, rfl⟩
    have hfetch := Action.run_fetch around.fetcher (server.verifyEach around.now (c :: rest)) s
    simp only [takeCredentials, List.isEmpty_cons, Bool.false_eq_true, ↓reduceIte, provenClaims]
    cases hresult : fetched.result with
    | error e =>
      rw [Action.run_bind_of_error (hfetch.trans (by rw [hresult]))]
      simp [fetched, Except.map]
    | ok verified =>
      rw [Action.run_bind_of_ok (hfetch.trans (by rw [hresult]))]
      simp only [fetched, Except.map, credited]
      split <;> rfl

/-- A round that comes to weigh a ticket goes on with it; what it has touched by then are the
tickets, if the request was acceptable, and nothing else. -/
theorem run_negotiate [Url.DomainRules] (server : Server) (around : Surroundings)
    (request : TokenRequest) (s : ServerState) :
    ∃ s', s.SameButTickets s' ∧
      s'.tickets = (if (server.accept request).isOk then request.remaining s.tickets
        else s.tickets) ∧
      (server.negotiate around request).run s =
        match server.weighed around s request with
        | .ok ticket => (server.conclude around request.scopeWords ticket).run s'
        | .error e => (.error e, s') := by
  cases haccept : server.accept request with
  | error e =>
    refine ⟨s, ServerState.Consulted.same.sameButTickets, by simp [Except.isOk, Except.toBool], ?_⟩
    rw [negotiate, Action.run_bind_of_error (Action.run_liftExcept_of_eq haccept s), weighed,
      haccept]
    rfl
  | ok credentials =>
    have hrun := Action.run_liftExcept_of_eq haccept s
    obtain ⟨s₁, hrun₁, hs₁, htickets₁⟩ := server.run_startingTicket request s
    cases hopening : server.opening s request with
    | error e =>
      refine ⟨s₁, hs₁, by simp [Except.isOk, Except.toBool, htickets₁], ?_⟩
      rw [negotiate, Action.run_bind_of_ok hrun,
        Action.run_bind_of_error (hrun₁.trans (by rw [hopening])), weighed, haccept, hopening]
      rfl
    | ok ticket =>
      obtain ⟨s₂, hrun₂, hs₂⟩ := server.run_expand request.scopeWords ticket s₁
      obtain ⟨s₃, hrun₃, hs₃, htickets₃⟩ := server.run_takeCredentials around credentials
        (server.widened s₁ request.scopeWords ticket) s₂
      rw [widened_congr hs₁.snapshot_eq] at hrun₂ hrun₃
      refine ⟨s₃, hs₁.trans (hs₂.sameButTickets.trans hs₃), ?_, ?_⟩
      · simp [Except.isOk, Except.toBool, htickets₃, hs₂.tickets_eq, htickets₁]
      · rw [negotiate, Action.run_bind_of_ok hrun,
          Action.run_bind_of_ok (hrun₁.trans (by rw [hopening])), Action.run_bind_of_ok hrun₂,
          weighed_of_opening haccept hopening]
        cases hclaims : server.provenClaims around credentials with
        | error e =>
          rw [Action.run_bind_of_error (hrun₃.trans (by rw [hclaims]; rfl))]
          rfl
        | ok claims =>
          rw [Action.run_bind_of_ok (hrun₃.trans (by rw [hclaims]; rfl))]
          rfl

/-! ## The end of a round -/

/-- What a granted token is called by its holder: its own text, or the id that it is kept under. -/
def tokenText (server : Server) (around : Surroundings) (s : ServerState)
    (permissions : List Permission) : String :=
  match server.tokenForm with
  | .signed => (server.signer.mint around.now s.ids.next.1 (.ofPermissions permissions)).token
  | .kept => s.ids.next.1

/-- The tokens that are kept once one more has been issued. -/
def tokensWith (server : Server) (around : Surroundings) (s : ServerState)
    (permissions : List Permission) : KeyMap KeptToken :=
  match server.tokenForm with
  | .signed => s.tokens
  | .kept =>
    s.tokens.insert s.ids.next.1 ⟨.ofPermissions permissions, around.now + server.lifetime⟩

/-- The id of the derivation handle, if the scopes ask for one; the token has taken an id before. -/
def handle? (s : ServerState) (scopes : List String) : Option String :=
  if scopes.contains Scope.derivationCreation then some s.ids.next.2.next.1 else none

/-- What is handed out with a token for permissions. -/
def grantOf (server : Server) (around : Surroundings) (s : ServerState)
    (permissions : List Permission) (scopes : List String) : Grant :=
  ⟨server.tokenText around s permissions, bearer, handle? s scopes⟩

/-- The state after a token was handed out. -/
def stateWith (server : Server) (around : Surroundings) (s : ServerState)
    (permissions : List Permission) (scopes : List String) : ServerState :=
  match handle? s scopes with
  | some id =>
    { s with
      ids := s.ids.next.2.next.2
      tokens := server.tokensWith around s permissions
      resources := s.resources.insert id .handle }
  | none =>
    { s with
      ids := s.ids.next.2
      tokens := server.tokensWith around s permissions }

theorem tickets_stateWith (server : Server) (around : Surroundings) (s : ServerState)
    (permissions : List Permission) (scopes : List String) :
    (server.stateWith around s permissions scopes).tickets = s.tickets := by
  rw [stateWith]
  split <;> rfl

theorem tokens_stateWith (server : Server) (around : Surroundings) (s : ServerState)
    (permissions : List Permission) (scopes : List String) :
    (server.stateWith around s permissions scopes).tokens =
      server.tokensWith around s permissions := by
  rw [stateWith]
  split <;> rfl

theorem run_grant (server : Server) (around : Surroundings) (permissions : List Permission)
    (scopes : List String) (s : ServerState) :
    (server.grant around permissions scopes).run s =
      (.ok (server.grantOf around s permissions scopes),
        server.stateWith around s permissions scopes) := by
  cases hform : server.tokenForm <;> cases hscope : scopes.contains Scope.derivationCreation <;>
    simp only [grant, grantOf, stateWith, handle?, hform, hscope, tokenText, tokensWith] <;> rfl

theorem run_storeTicket (ticket : Ticket) (s : ServerState) :
    (storeTicket ticket).run s =
      (.ok s.ids.next.1,
        { s with ids := s.ids.next.2, tickets := s.tickets.insert s.ids.next.1 ticket }) := rfl

theorem run_storeResource (description : Resource) (s : ServerState) :
    (storeResource description).run s =
      (.ok s.ids.next.1,
        { s with ids := s.ids.next.2, resources := s.resources.insert s.ids.next.1 description }) :=
  rfl

/-- The hints that a requester is given; none if the ticket was denied. -/
def missing (ticket : Ticket) : List WantedClaim :=
  if ticket.required.length < ticket.permissions.length then [] else ticket.wantedClaims

theorem run_askForMore (ticket : Ticket) (s : ServerState) :
    (askForMore ticket).run s =
      if (missing ticket).isEmpty then (.error .forbidden, s)
      else
        (.ok ⟨s.ids.next.1, missing ticket⟩,
          { s with ids := s.ids.next.2, tickets := s.tickets.insert s.ids.next.1 ticket }) := by
  simp only [askForMore, missing]
  by_cases hdenied : ticket.required.length < ticket.permissions.length
  · simp only [hdenied, ↓reduceIte]
    rfl
  · simp only [hdenied, ↓reduceIte]
    cases ticket.wantedClaims.isEmpty <;> rfl

/-- A round ends in a refusal, in a grant of what its ticket is about, or with the ticket stored
under a fresh id; which of them, depends on the state that the round met. -/
theorem negotiate_cases [Url.DomainRules] (server : Server) (around : Surroundings)
    (request : TokenRequest) (s : ServerState) :
    ∃ s', s.SameButTickets s' ∧
      s'.tickets = (if (server.accept request).isOk then request.remaining s.tickets
        else s.tickets) ∧
      ((∃ e, (server.negotiate around request).run s = (.error e, s') ∧
          ∀ ticket, server.weighed around s request = .ok ticket →
            server.settles s ticket = false) ∨
        (∃ ticket, server.weighed around s request = .ok ticket ∧
          server.settles s ticket = true ∧
          (server.negotiate around request).run s =
            (.ok (.granted (server.grantOf around s' ticket.permissions request.scopeWords)),
              server.stateWith around s' ticket.permissions request.scopeWords)) ∨
        ∃ ticket, server.weighed around s request = .ok ticket ∧
          server.settles s ticket = false ∧
          (server.negotiate around request).run s =
            (.ok (.needInfo ⟨s'.ids.next.1, missing ticket⟩),
              { s' with
                ids := s'.ids.next.2
                tickets := s'.tickets.insert s'.ids.next.1 ticket })) := by
  obtain ⟨s₁, hs₁, htickets₁, hrun⟩ := server.run_negotiate around request s
  cases hweighed : server.weighed around s request with
  | error e =>
    rw [hweighed] at hrun
    exact ⟨s₁, hs₁, htickets₁, .inl ⟨e, hrun, fun _ h => nomatch h⟩⟩
  | ok ticket =>
    rw [hweighed] at hrun
    obtain ⟨s₂, hrun₂, hs₂⟩ := server.run_resolves ticket s₁
    rw [settles_congr hs₁.snapshot_eq] at hrun₂
    refine ⟨s₂, hs₁.trans hs₂.sameButTickets, hs₂.tickets_eq.trans htickets₁, ?_⟩
    simp only [conclude, Action.run_bind_of_ok hrun₂] at hrun
    cases hsettles : server.settles s ticket with
    | true =>
      refine .inr (.inl ⟨ticket, rfl, hsettles, hrun.trans ?_⟩)
      simp only [hsettles, ↓reduceIte]
      rw [Action.run_bind_of_ok (server.run_grant around ticket.permissions _ s₂)]
      rfl
    | false =>
      simp only [hsettles, Bool.false_eq_true, ↓reduceIte] at hrun
      have hask := run_askForMore ticket s₂
      cases hmissing : (missing ticket).isEmpty with
      | true =>
        rw [hmissing, if_pos rfl] at hask
        refine .inl ⟨.forbidden, hrun.trans (Action.run_bind_of_error hask), ?_⟩
        rintro _ ⟨⟩
        exact hsettles
      | false =>
        rw [hmissing, if_neg Bool.false_ne_true] at hask
        exact .inr (.inr ⟨ticket, rfl, hsettles, hrun.trans (Action.run_bind_of_ok hask)⟩)

end Server

end UserManagedAccess
