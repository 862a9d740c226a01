import UserManagedAccess.Proofs.StoredTickets
import UserManagedAccess.Proofs.TicketRoute

/-! Asking for further scopes begins the negotiation anew: of the ticket that is presented only the
permissions count, and what was proven on it before leaves no trace. -/
namespace UserManagedAccess

/-- Scopes that are added one list after the other are added together. -/
theorem Permission.withScopes_withScopes (p : Permission) (scopes further : List String) :
    (p.withScopes scopes).withScopes further = p.withScopes (scopes ++ further) := by
  simp [withScopes, List.foldl_append]

/-- The request without further scopes. -/
def TokenRequest.unscoped (request : TokenRequest) : TokenRequest := { request with scope := none }

theorem ServerState.snapshot_withTickets (s : ServerState) (tickets : KeyMap Ticket) :
    { s with tickets }.snapshot = s.snapshot := by
  simp [snapshot, rulesInForce_eq]

namespace Server
variable {server : Server} {around : Surroundings} {s s' : ServerState} {id : String}
  {ticket : Ticket} {request : TokenRequest}

/-- The permissions of a ticket with the scopes that a request asks for on top. -/
def expanded (ticket : Ticket) (request : TokenRequest) : List Permission :=
  ticket.permissions.map (·.withScopes request.scopeWords)

section
variable [Url.DomainRules]

/-- A ticket in store may be presented, and scopes may be added to what it is about. -/
theorem presentable_of_stored {start : ServerState} (hstart : start.IsInitial)
    (commands : List Command)
    (hticket : (server.history start commands).state.tickets.get? id = some ticket)
    (request : TokenRequest) :
    Text.isBlank id = false ∧ Permission.validateAll (expanded ticket request) = .ok () := by
  obtain ⟨n, -, rfl⟩ := (server.issued_history hstart commands).tickets id ticket hticket
  obtain ⟨chain, hchain, hfollows⟩ := server.traced_history hstart commands _ ticket hticket
  exact ⟨IdSupply.isBlank_idOf _ n, Permission.validateAll_withScopes
    (hfollows.validateAll_permissions (addsWords_of_chainOf? hchain))
    fun scope => TokenRequest.isBlank_of_mem_scopeWords⟩

/-- With further scopes, a round goes on with a ticket on which nothing is proven yet. -/
theorem ending_presenting_of_scopes {credentials : List Credential}
    (haccept : server.accept (request.presenting id) = .ok credentials)
    (hticket : s.tickets.get? id = some ticket) (hscopes : request.scopeWords ≠ []) :
    server.ending around s (request.presenting id) =
      server.endingFrom around s request.scopeWords
        (server.freshTicket s (expanded ticket request)) credentials := by
  have hopening : server.opening s (request.presenting id) = .ok ticket := by
    simp [opening, TokenRequest.presenting, hticket]
  have hwidened : server.widened s request.scopeWords ticket =
      server.freshTicket s (expanded ticket request) :=
    if_neg (by simpa using hscopes)
  exact (ending_of_opening haccept hopening).trans
    (congrArg (server.endingFrom around s _ · _) hwidened)

/-- But for a derivation handle, the round ends as if the permissions, with the scopes, were asked
for at once. -/
theorem withoutHandle_ending_presenting (around : Surroundings) (hid : Text.isBlank id = false)
    (hvalid : Permission.validateAll (expanded ticket request) = .ok ())
    (hticket : s.tickets.get? id = some ticket) (hscopes : request.scopeWords ≠ [])
    (hsnapshot : s'.snapshot = s.snapshot) :
    (server.ending around s (request.presenting id)).withoutHandle =
      server.ending around s' (request.unscoped.asking (expanded ticket request)) := by
  have hsame : server.accept (request.presenting id) =
      server.accept (request.unscoped.asking (expanded ticket request)) :=
    accept_congr (request.validate_presenting hid) hvalid rfl
  cases haccept : server.accept (request.presenting id) with
  | error e =>
    rw [ending_of_accept_eq_error haccept, ending_of_accept_eq_error (hsame ▸ haccept)]
    rfl
  | ok credentials =>
    rw [ending_presenting_of_scopes haccept hticket hscopes, withoutHandle_endingFrom,
      ending_of_opening (hsame ▸ haccept) rfl, endingFrom_congr hsnapshot,
      freshTicket_congr hsnapshot]
    rfl

/-- What a ticket has left to prove, and what was proven on it, does not matter. -/
theorem ending_presenting_congr (around : Surroundings) {other : Ticket}
    (hticket : s.tickets.get? id = some ticket) (hother : s'.tickets.get? id = some other)
    (hpermissions : other.permissions = ticket.permissions) (hscopes : request.scopeWords ≠ [])
    (hsnapshot : s'.snapshot = s.snapshot) :
    server.ending around s' (request.presenting id) =
      server.ending around s (request.presenting id) := by
  cases haccept : server.accept (request.presenting id) with
  | error e => rw [ending_of_accept_eq_error haccept, ending_of_accept_eq_error haccept]
  | ok credentials =>
    have hexpanded : expanded other request = expanded ticket request := by
      rw [expanded, expanded, hpermissions]
    rw [ending_presenting_of_scopes haccept hticket hscopes,
      ending_presenting_of_scopes haccept hother hscopes, endingFrom_congr hsnapshot,
      freshTicket_congr hsnapshot, hexpanded]

theorem permissions_ending_presenting {permissions : List Permission}
    (hticket : s.tickets.get? id = some ticket) (hscopes : request.scopeWords ≠ [])
    (h : (server.ending around s (request.presenting id)).permissions? = some permissions) :
    permissions = expanded ticket request := by
  cases haccept : server.accept (request.presenting id) with
  | error e =>
    rw [ending_of_accept_eq_error haccept] at h
    cases h
  | ok credentials =>
    rw [ending_presenting_of_scopes haccept hticket hscopes] at h
    exact permissions_endingFrom h

end

/-- Expanding twice comes to the permissions that expanding once with all scopes comes to. -/
theorem expanded_expanded {stored : Ticket} {second both : TokenRequest}
    (hstored : stored.permissions = expanded ticket request)
    (hboth : both.scopeWords = request.scopeWords ++ second.scopeWords) :
    expanded stored second = expanded ticket both := by
  simp only [expanded, hstored, List.map_map, hboth]
  exact List.map_congr_left fun p _ => p.withScopes_withScopes _ _

/-- In every history, a round that presents a ticket and asks for further scopes ends, but for a
derivation handle, as if the ticket was gone and its permissions, with the scopes added, were asked
for at once. So nothing about the ticket matters but its permissions; and if such a round asks for
more, then another one, later on, comes to the permissions that one round with all scopes comes
to. -/
theorem scope_expansion_restarts [Url.DomainRules] (server : Server) {start : ServerState}
    (hstart : start.IsInitial) (commands : List Command) {id : String} {ticket : Ticket}
    (hticket : (server.history start commands).state.tickets.get? id = some ticket)
    (request : TokenRequest) (hscopes : request.scopeWords ≠ []) :
    let s := (server.history start commands).state
    (∀ around, ∃ ending,
        server.Ends around ending ((server.negotiate around (request.presenting id)).run s) ∧
        server.Ends around ending.withoutHandle
          ((server.negotiate around (request.unscoped.asking
            (ticket.permissions.map (·.withScopes request.scopeWords)))).run
              { s with tickets := s.tickets.erase id })) ∧
      (∀ around (other : Ticket), other.permissions = ticket.permissions → ∃ ending,
        server.Ends around ending ((server.negotiate around (request.presenting id)).run s) ∧
        server.Ends around ending ((server.negotiate around (request.presenting id)).run
          { s with tickets := s.tickets.insert id other })) ∧
      ∀ around wanted stored, server.Ends around (.asked wanted stored)
          ((server.negotiate around (request.presenting id)).run s) →
        ∀ (later : ServerState) id' ticket', later.tickets.get? id' = some ticket' →
          ticket'.permissions = stored.permissions →
        ∀ second both : TokenRequest, second.scopeWords ≠ [] →
          both.scopeWords = request.scopeWords ++ second.scopeWords →
        ∀ around' around'', ∃ ending ending',
          server.Ends around' ending
            ((server.negotiate around' (second.presenting id')).run later) ∧
          server.Ends around'' ending'
            ((server.negotiate around'' (both.presenting id)).run s) ∧
          ∀ permissions permissions', ending.permissions? = some permissions →
            ending'.permissions? = some permissions' → permissions = permissions' := by
  intro s
  obtain ⟨hid, hvalid⟩ := presentable_of_stored hstart commands hticket request
  refine ⟨fun around => ?_, fun around other hother => ?_, ?_⟩
  · refine ⟨_, server.ends_negotiate .., ?_⟩
    rw [withoutHandle_ending_presenting around hid hvalid hticket hscopes
      (s.snapshot_withTickets _)]
    exact server.ends_negotiate ..
  · refine ⟨_, server.ends_negotiate .., ?_⟩
    rw [← ending_presenting_congr around hticket (KeyMap.get?_insert_self _ _ _) hother hscopes
      (s.snapshot_withTickets _)]
    exact server.ends_negotiate ..
  · intro around wanted stored hfirst later id' ticket' hticket' hpermissions second both hsecond
      hboth around' around''
    refine ⟨_, _, server.ends_negotiate .., server.ends_negotiate .., fun _ _ h h' => ?_⟩
    have hending := ends_iff.mp hfirst
    have hstored : stored.permissions = expanded ticket request :=
      permissions_ending_presenting hticket hscopes (congrArg Ending.permissions? hending)
    have hscopes' : both.scopeWords ≠ [] := by simp [hboth, hscopes]
    rw [permissions_ending_presenting hticket' hsecond h,
      permissions_ending_presenting hticket hscopes' h']
    exact expanded_expanded (hpermissions.trans hstored) hboth

/-- The identity is proven already and the source is not, when one more scope is asked for. -/
theorem sample_expansion_restarts :
    let server := sample (.derived (.namespaced []))
    let s := (server.history ∅ [.register sampleDerived,
      .negotiate offline (sampleAsk [⟨some (sampleId 0), some ["read"]⟩] none),
      .negotiate offline (sampleResume (sampleId 1) "alice")]).state
    let request := sampleAsk [] (some "write")
    (∅ : ServerState).IsInitial ∧ request.scopeWords ≠ [] ∧
      ∃ ticket ending, s.tickets.get? (sampleId 2) = some ticket ∧
        ticket.permissions = [⟨some (sampleId 0), some ["read"]⟩] ∧
        ticket.provided.contains ClaimName.webid = true ∧
        server.Ends offline ending
          ((server.negotiate offline (request.presenting (sampleId 2))).run s) ∧
        server.Ends offline ending.withoutHandle
          ((server.negotiate offline (request.unscoped.asking
            (ticket.permissions.map (·.withScopes request.scopeWords)))).run
              { s with tickets := s.tickets.erase (sampleId 2) }) := by
  have hscopes : (sampleAsk [] (some "write")).scopeWords ≠ [] := by decide +kernel
  obtain ⟨ticket, hticket, hpermissions, hprovided⟩ : ∃ ticket,
      ((sample (.derived (.namespaced []))).history ∅ [.register sampleDerived,
        .negotiate offline (sampleAsk [⟨some (sampleId 0), some ["read"]⟩] none),
        .negotiate offline (sampleResume (sampleId 1) "alice")]).state.tickets.get? (sampleId 2) =
          some ticket ∧
      ticket.permissions = [⟨some (sampleId 0), some ["read"]⟩] ∧
      ticket.provided.contains ClaimName.webid = true := ⟨_, rfl, rfl, by decide +kernel⟩
  obtain ⟨hsame, -, -⟩ := scope_expansion_restarts (sample (.derived (.namespaced [])))
    (⟨rfl, rfl, rfl⟩ : (∅ : ServerState).IsInitial) _ hticket (sampleAsk [] (some "write")) hscopes
  obtain ⟨ending, hends, hends'⟩ := hsame offline
  exact ⟨⟨rfl, rfl, rfl⟩, hscopes, ticket, ending, hticket, hpermissions, hprovided, hends, hends'⟩

end Server

end UserManagedAccess
