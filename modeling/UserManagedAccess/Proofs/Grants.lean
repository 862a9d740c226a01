import UserManagedAccess.Proofs.Chain
import UserManagedAccess.Proofs.TokenText

/-! When a round grants. The decision is spread over the rounds of a chain; together they grant what
was asked for exactly if everything that was demanded at the start of the chain has been proven. -/
namespace UserManagedAccess.Server
variable {server : Server} {around : Surroundings} {s : ServerState} {request : TokenRequest}

theorem opening_isOk_iff (hvalid : request.validate = .ok ()) :
    (∃ opened, server.opening s request = .ok opened) ↔
      ∀ id, request.ticket = some id → s.tickets.contains id = true := by
  rw [opening]
  cases hticket : request.ticket with
  | some id => cases hget : s.tickets.get? id <;> simp [hget]
  | none =>
    cases hpermissions : request.permissions with
    | some permissions => simp
    | none => simp [TokenRequest.validate, hticket, hpermissions] at hvalid

section
variable [Url.DomainRules]

/-- A round comes to a decision if the request is acceptable, its ticket is there, and each of its
credentials is verified. -/
theorem exists_weighed_iff :
    (∃ ticket, server.weighed around s request = .ok ticket) ↔
      ∃ credentials, server.accept request = .ok credentials ∧
        (∀ id, request.ticket = some id → s.tickets.contains id = true) ∧
        ∀ c ∈ credentials, ∃ found, server.verified around c = .ok found := by
  simp only [weighed_eq_ok_iff]
  constructor
  · rintro ⟨_, credentials, opened, claims, haccept, hopening, hclaims, -⟩
    obtain ⟨hvalid, -⟩ := accept_eq_ok_iff.mp haccept
    exact ⟨credentials, haccept, (opening_isOk_iff hvalid).mp ⟨opened, hopening⟩,
      (exists_provenClaims_iff server around credentials).mp ⟨claims, hclaims⟩⟩
  · rintro ⟨credentials, haccept, hstored, hverified⟩
    obtain ⟨hvalid, -⟩ := accept_eq_ok_iff.mp haccept
    obtain ⟨opened, hopening⟩ := (opening_isOk_iff hvalid).mpr hstored
    obtain ⟨claims, hclaims⟩ := (exists_provenClaims_iff server around credentials).mpr hverified
    exact ⟨_, credentials, opened, claims, haccept, hopening, hclaims, rfl⟩

/-- What a round that grants has decided on, and what it has done. -/
theorem granted_of_negotiate {grant : Grant} {s'' : ServerState}
    (h : (server.negotiate around request).run s = (.ok (.granted grant), s'')) :
    ∃ s' ticket, s.SameButTickets s' ∧ server.weighed around s request = .ok ticket ∧
      server.settles s ticket = true ∧
      grant = server.grantOf around s' ticket.permissions request.scopeWords ∧
      s'' = server.stateWith around s' ticket.permissions request.scopeWords := by
  obtain ⟨s', hs, -, hcases⟩ := server.negotiate_cases around request s
  rcases hcases with ⟨e, hrun, -⟩ | ⟨ticket, hweighed, hsettles, hrun⟩ | ⟨_, -, -, hrun⟩ <;>
    rw [hrun] at h <;> cases h
  exact ⟨s', ticket, hs, hweighed, hsettles, rfl, rfl⟩

/-- A round grants what the ticket that it decides on is about, if that ticket settles. -/
theorem negotiate_grants_iff {permissions : List Permission} :
    (∃ grant s', (server.negotiate around request).run s = (.ok (.granted grant), s') ∧
        server.TokenFor around s' grant.accessToken permissions) ↔
      ∃ ticket, server.weighed around s request = .ok ticket ∧
        server.settles s ticket = true ∧ ticket.permissions = permissions := by
  constructor
  · rintro ⟨grant, s'', hrun, htoken⟩
    obtain ⟨s', ticket, -, hweighed, hsettles, rfl, rfl⟩ := granted_of_negotiate hrun
    exact ⟨ticket, hweighed, hsettles, (server.tokenFor_grantOf _ _ _ _).unique htoken⟩
  · rintro ⟨ticket, hweighed, hsettles, rfl⟩
    obtain ⟨s', -, -, hcases⟩ := server.negotiate_cases around request s
    rcases hcases with ⟨e, -, hnot⟩ | ⟨ticket', hweighed', -, hrun⟩ | ⟨ticket', hweighed', hnot, -⟩
    · rw [hnot ticket hweighed] at hsettles
      cases hsettles
    · cases hweighed.symm.trans hweighed'
      exact ⟨_, _, hrun, server.tokenFor_grantOf _ _ _ _⟩
    · cases hweighed.symm.trans hweighed'
      rw [hnot] at hsettles
      cases hsettles

theorem Follows.metBy_iff {ticket : Ticket} {chain : Chain} (h : server.Follows ticket chain)
    (r : Requirements) :
    r.MetBy ticket.provided ↔ ∀ name, ∀ p ∈ r.conditions name,
      ∃ value, server.Proves chain name value ∧ p.isMetBy value = true := by
  simp only [Requirements.MetBy, Condition.isMetByAny, List.any_eq_true, h.mem_provided]

/-- A ticket settles if its chain has proven all that was demanded, which is something for each
permission. -/
theorem Follows.isSettled_iff {ticket : Ticket} {chain : Chain} (h : server.Follows ticket chain)
    (hs : server.strategy = .elimination) :
    ticket.isSettled = true ↔
      (server.demanded chain).length = ticket.permissions.length ∧
        ∀ r ∈ server.demanded chain, ∀ name, ∀ p ∈ r.conditions name,
          ∃ value, server.Proves chain name value ∧ p.isMetBy value = true := by
  simp only [Ticket.isSettled, h.required_eq hs, Bool.and_eq_true, beq_iff_eq, List.length_map,
    List.all_map, List.all_eq_true, Function.comp_apply, Requirements.isEmpty_eliminate_iff,
    h.metBy_iff]

/-- The ticket behind a grant, and the chain that it follows. -/
theorem exists_chain_of_grant {past : History} (htraced : server.Traced past)
    {permissions : List Permission}
    (hgrant : ∃ grant s', (server.negotiate around request).run past.state =
        (.ok (.granted grant), s') ∧ server.TokenFor around s' grant.accessToken permissions) :
    ∃ ticket chain, server.weighed around past.state request = .ok ticket ∧
      request.chain? (chainOf? past.events) around past.state = some chain ∧
      server.Follows ticket chain ∧ server.settles past.state ticket = true ∧
      ticket.permissions = permissions := by
  obtain ⟨ticket, hweighed, hsettles, hpermissions⟩ := negotiate_grants_iff.mp hgrant
  obtain ⟨chain, hchain, hfollows⟩ := follows_weighed htraced hweighed
  exact ⟨ticket, chain, hweighed, hchain, hfollows, hsettles, hpermissions⟩

end

/-! ## A small server -/

/-- Keeps its tokens and takes identities at their word. -/
def sample (policy : Policy) : Server where
  baseUrl := "https://as.example/uma"
  policy := policy
  strategy := .elimination
  verifier := .byFormat [(.unsecure, .selfAsserted)]
  keys := ⟨"as-1", ⟨0, 0, 0, 0, 0⟩⟩
  lifetime := 600
  tokenForm := .kept

/-- Nobody can be asked for anything. -/
def offline : Surroundings := ⟨1000, .pinned ∅⟩

def sampleAsk (permissions : List Permission) (scope : Option String) : TokenRequest :=
  ⟨none, none, some permissions, scope, none, none, none⟩

def sampleResume (ticket webid : String) : TokenRequest :=
  ⟨none, some ticket, none, none, some webid, some CredentialFormat.unsecure.uri, none⟩

def sampleId (n : Nat) : String := IdSupply.idOf 0 n

/-! ## Soundness and completeness of grants -/

/-- In every history, a round hands out a token for permissions exactly if it passes the checks on
its input, its ticket is in store, its credentials are verified, and its chain, which has come to
these permissions, has proven all that the policy demanded when the chain began, or began anew. -/
theorem grants_iff_demands_proven [Url.DomainRules] (server : Server)
    (hs : server.strategy = .elimination)
    {start : ServerState} (hstart : start.IsInitial) (commands : List Command)
    (around : Surroundings) (request : TokenRequest) (permissions : List Permission) :
    let past := server.history start commands
    (∃ grant s', (server.negotiate around request).run past.state = (.ok (.granted grant), s') ∧
        server.TokenFor around s' grant.accessToken permissions) ↔
      ∃ credentials chain, server.accept request = .ok credentials ∧
        (∀ id, request.ticket = some id → past.state.tickets.contains id = true) ∧
        (∀ c ∈ credentials, ∃ found, server.verified around c = .ok found) ∧
        request.chain? (chainOf? past.events) around past.state = some chain ∧
        chain.permissions = permissions ∧
        (server.demanded chain).length = permissions.length ∧
        ∀ r ∈ server.demanded chain, ∀ name, ∀ p ∈ r.conditions name,
          ∃ value, server.Proves chain name value ∧ p.isMetBy value = true := by
  intro past
  have htraced := server.traced_history hstart commands
  constructor
  · intro hgrant
    obtain ⟨ticket, chain, hweighed, hchain, hfollows, hsettles, rfl⟩ :=
      exists_chain_of_grant htraced hgrant
    obtain ⟨credentials, haccept, hstored, hverified⟩ := exists_weighed_iff.mp ⟨ticket, hweighed⟩
    rw [settles_of_elimination _ _ hs, hfollows.isSettled_iff hs] at hsettles
    exact ⟨credentials, chain, haccept, hstored, hverified, hchain, hfollows.permissions_eq.symm,
      hsettles⟩
  · rintro ⟨credentials, chain, haccept, hstored, hverified, hchain, rfl, hproven⟩
    obtain ⟨ticket, hweighed⟩ := exists_weighed_iff.mpr ⟨credentials, haccept, hstored, hverified⟩
    obtain ⟨chain', hchain', hfollows⟩ := follows_weighed htraced hweighed
    cases hchain.symm.trans hchain'
    refine negotiate_grants_iff.mpr ⟨ticket, hweighed, ?_, hfollows.permissions_eq⟩
    rw [settles_of_elimination _ _ hs, hfollows.isSettled_iff hs, hfollows.permissions_eq]
    exact hproven

/-- Asked for an identity in the first round, a requester shows one in the second. -/
theorem sample_grants_after_identity :
    let server := sample (.namespaced [])
    let past := server.history ∅ [.negotiate offline (sampleAsk [⟨some "R1", some ["read"]⟩] none)]
    let request := sampleResume (sampleId 0) "alice"
    server.strategy = .elimination ∧ (∅ : ServerState).IsInitial ∧
      ∃ credentials chain, server.accept request = .ok credentials ∧
        (∀ id, request.ticket = some id → past.state.tickets.contains id = true) ∧
        (∀ c ∈ credentials, ∃ found, server.verified offline c = .ok found) ∧
        request.chain? (chainOf? past.events) offline past.state = some chain ∧
        chain.permissions = [⟨some "R1", some ["read"]⟩] ∧ (server.demanded chain).length = 1 ∧
        ∀ r ∈ server.demanded chain, ∀ name, ∀ p ∈ r.conditions name,
          ∃ value, server.Proves chain name value ∧ p.isMetBy value = true :=
  ⟨rfl, ⟨rfl, rfl, rfl⟩,
    (grants_iff_demands_proven (sample (.namespaced [])) rfl ⟨rfl, rfl, rfl⟩ _ offline
      (sampleResume (sampleId 0) "alice") [⟨some "R1", some ["read"]⟩]).mp ⟨_, _, rfl, rfl⟩⟩

end UserManagedAccess.Server
