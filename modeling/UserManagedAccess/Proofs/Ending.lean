import UserManagedAccess.Proofs.Grants

/-! How a round ends, whatever ids it hands out. Rounds that come to the same ticket end in the same
way wherever the policy finds the same data. -/
namespace UserManagedAccess

/-- How a round has ended: what the token is for and whether a derivation handle comes with it, or
what is still wanted and the ticket that was stored. -/
inductive Ending where
  | refused (e : Error)
  | granted (permissions : List Permission) (withHandle : Bool)
  | asked (wanted : List WantedClaim) (ticket : Ticket)

namespace Ending

/-- The ending without regard to a derivation handle. -/
def withoutHandle : Ending → Ending
  | granted permissions _ => granted permissions false
  | refused e => refused e
  | asked wanted ticket => asked wanted ticket

/-- The permissions that a round has come to, unless it was refused. -/
def permissions? : Ending → Option (List Permission)
  | refused _ => none
  | granted permissions _ => some permissions
  | asked _ ticket => some ticket.permissions

end Ending

namespace TokenRequest

/-- The request with a ticket to start from. -/
def presenting (request : TokenRequest) (id : String) : TokenRequest :=
  { request with ticket := some id, permissions := none }

/-- The request with permissions to start from. -/
def asking (request : TokenRequest) (permissions : List Permission) : TokenRequest :=
  { request with ticket := none, permissions := some permissions }

theorem validate_presenting (request : TokenRequest) {id : String}
    (h : Text.isBlank id = false) : (request.presenting id).validate = .ok () := by
  simp [validate, presenting, h]

end TokenRequest

namespace Server
variable (server : Server) (around : Surroundings)

/-- A round with this result, and this state after it, has ended so. -/
inductive Ends : Ending → Except Error Outcome × ServerState → Prop
  | refused (e : Error) (after : ServerState) : Ends (.refused e) (.error e, after)
  | granted {permissions : List Permission} {grant : Grant} {after : ServerState}
    (h : server.TokenFor around after grant.accessToken permissions) :
    Ends (.granted permissions grant.derivationResource.isSome) (.ok (.granted grant), after)
  | asked {demand : Demand} {ticket : Ticket} {after : ServerState}
    (h : after.tickets.get? demand.ticket = some ticket) :
    Ends (.asked demand.wantedClaims ticket) (.ok (.needInfo demand), after)

/-- How a round ends that has come to a ticket. -/
def verdict (s : ServerState) (scopes : List String) (ticket : Ticket) : Ending :=
  if server.settles s ticket then
    .granted ticket.permissions (scopes.contains Scope.derivationCreation)
  else if (missing ticket).isEmpty then .refused .forbidden
  else .asked (missing ticket) ticket

/-- How a round ends that goes on with a ticket and takes in credentials. -/
def endingFrom [Url.DomainRules] (s : ServerState) (scopes : List String) (ticket : Ticket)
    (credentials : List Credential) : Ending :=
  match server.provenClaims around credentials with
  | .ok claims => server.verdict s scopes (server.credited ticket claims)
  | .error e => .refused e

/-- How a round ends. -/
def ending [Url.DomainRules] (s : ServerState) (request : TokenRequest) : Ending :=
  match server.weighed around s request with
  | .ok ticket => server.verdict s request.scopeWords ticket
  | .error e => .refused e

variable {server around} {s s' : ServerState}

/-- A round ends in one way only. -/
theorem Ends.unique {ending ending' : Ending} {done : Except Error Outcome × ServerState}
    (h : server.Ends around ending done) (h' : server.Ends around ending' done) :
    ending = ending' := by
  cases h with
  | refused =>
    cases h'
    rfl
  | granted h =>
    cases h' with
    | granted h' => rw [h.unique h']
  | asked h =>
    cases h' with
    | asked h' =>
      cases h.symm.trans h'
      rfl

private theorem ends_verdict {scopes : List String} {ticket : Ticket}
    (hsnapshot : s'.snapshot = s.snapshot) :
    server.Ends around (server.verdict s scopes ticket)
      ((server.conclude around scopes ticket).run s') := by
  obtain ⟨s₂, hrun, hs⟩ := server.run_resolves ticket s'
  rw [settles_congr hsnapshot] at hrun
  rw [conclude, Action.run_bind_of_ok hrun, verdict]
  cases server.settles s ticket with
  | true =>
    simp only [↓reduceIte]
    rw [Action.run_bind_of_ok (server.run_grant around ticket.permissions scopes s₂)]
    have hhandle : scopes.contains Scope.derivationCreation =
        (server.grantOf around s₂ ticket.permissions scopes).derivationResource.isSome := by
      simp only [grantOf, handle?]
      split <;> simp_all
    rw [hhandle]
    exact .granted (server.tokenFor_grantOf _ _ _ _)
  | false =>
    simp only [Bool.false_eq_true, ↓reduceIte]
    have hask := run_askForMore ticket s₂
    cases hmissing : (missing ticket).isEmpty with
    | true =>
      rw [hmissing, if_pos rfl] at hask
      rw [Action.run_bind_of_error hask]
      exact .refused _ _
    | false =>
      rw [hmissing, if_neg Bool.false_ne_true] at hask
      rw [Action.run_bind_of_ok hask, if_neg Bool.false_ne_true]
      have hstored := KeyMap.get?_insert_self s₂.tickets s₂.ids.next.1 ticket
      exact @Ends.asked server around ⟨s₂.ids.next.1, missing ticket⟩ _ _ hstored

theorem verdict_eq_asked {scopes : List String} {ticket stored : Ticket}
    {wanted : List WantedClaim} (h : server.verdict s scopes ticket = .asked wanted stored) :
    ticket = stored := by
  rw [verdict] at h
  split at h
  · cases h
  · split at h
    · cases h
    · exact (Ending.asked.inj h).2

theorem verdict_eq_refused {scopes : List String} {ticket : Ticket} {e : Error}
    (h : server.verdict s scopes ticket = .refused e) : e = .forbidden := by
  rw [verdict] at h
  split at h
  · cases h
  · split at h
    · exact (Ending.refused.inj h).symm
    · cases h

theorem verdict_eq_granted_iff {scopes : List String} {ticket : Ticket}
    {permissions : List Permission} {withHandle : Bool} :
    server.verdict s scopes ticket = .granted permissions withHandle ↔
      server.settles s ticket = true ∧ ticket.permissions = permissions ∧
        scopes.contains Scope.derivationCreation = withHandle := by
  rw [verdict]
  split
  · next hsettles => simp [hsettles]
  · next hsettles => split <;> simp [hsettles]

theorem permissions_verdict {scopes : List String} {ticket : Ticket}
    {permissions : List Permission}
    (h : (server.verdict s scopes ticket).permissions? = some permissions) :
    permissions = ticket.permissions := by
  rw [verdict] at h
  split at h
  · exact (Option.some.inj h).symm
  · split at h
    · cases h
    · exact (Option.some.inj h).symm

theorem withoutHandle_verdict (s : ServerState) (scopes : List String) (ticket : Ticket) :
    (server.verdict s scopes ticket).withoutHandle = server.verdict s [] ticket := by
  rw [verdict, verdict]
  split
  · rfl
  · split <;> rfl

/-- Of requests that are valid, only the credentials are looked at before a round begins. -/
theorem accept_congr {request request' : TokenRequest} (hvalid : request.validate = .ok ())
    (hvalid' : request'.validate = .ok ()) (h : request.credentials = request'.credentials) :
    server.accept request = server.accept request' := by
  rw [accept, accept, hvalid, hvalid', h]

variable {request : TokenRequest}

section
variable [Url.DomainRules]

/-- Every round ends in the way that its ticket decides. -/
theorem ends_negotiate (server : Server) (around : Surroundings) (s : ServerState)
    (request : TokenRequest) :
    server.Ends around (server.ending around s request)
      ((server.negotiate around request).run s) := by
  -- the ticket is decided on in a later state, in which the policy finds the same
  obtain ⟨s₁, hs₁, -, hrun⟩ := server.run_negotiate around request s
  rw [hrun, ending]
  cases server.weighed around s request with
  | error e => exact .refused e s₁
  | ok ticket => exact ends_verdict hs₁.snapshot_eq

/-! ## What an ending says -/

theorem ends_iff {ending : Ending} :
    server.Ends around ending ((server.negotiate around request).run s) ↔
      server.ending around s request = ending :=
  ⟨(server.ends_negotiate around s request).unique,
    fun h => h ▸ server.ends_negotiate around s request⟩

theorem ending_of_needInfo {demand : Demand}
    (h : (server.negotiate around request).run s = (.ok (.needInfo demand), s')) :
    ∃ ticket, server.ending around s request = .asked demand.wantedClaims ticket ∧
      s'.tickets.get? demand.ticket = some ticket := by
  have hends := server.ends_negotiate around s request
  rw [h] at hends
  cases hending : server.ending around s request with
  | refused | granted =>
    rw [hending] at hends
    cases hends
  | asked wanted ticket =>
    rw [hending] at hends
    cases hends with
    | asked hstored => exact ⟨ticket, rfl, hstored⟩

theorem result_eq_error_iff {e : Error} :
    ((server.negotiate around request).run s).1 = .error e ↔
      server.ending around s request = .refused e := by
  have hends := server.ends_negotiate around s request
  generalize (server.negotiate around request).run s = done at hends ⊢
  generalize server.ending around s request = ending at hends ⊢
  cases hends <;> simp

theorem exists_granted_iff :
    (∃ grant, ((server.negotiate around request).run s).1 = .ok (.granted grant)) ↔
      ∃ permissions withHandle,
        server.ending around s request = .granted permissions withHandle := by
  have hends := server.ends_negotiate around s request
  generalize (server.negotiate around request).run s = done at hends ⊢
  generalize server.ending around s request = ending at hends ⊢
  cases hends <;> simp

/-! ## What an ending depends on -/

theorem ending_of_accept_eq_error {e : Error} (h : server.accept request = .error e) :
    server.ending around s request = .refused e := by
  rw [ending, weighed, h]
  rfl

/-- Of the state, only what the policy finds there matters to a ticket that is decided on. -/
theorem endingFrom_congr (h : s'.snapshot = s.snapshot) (scopes : List String) (ticket : Ticket)
    (credentials : List Credential) :
    server.endingFrom around s' scopes ticket credentials =
      server.endingFrom around s scopes ticket credentials := by
  simp only [endingFrom, verdict, settles_congr h]

theorem permissions_endingFrom {scopes : List String} {ticket : Ticket}
    {credentials : List Credential} {permissions : List Permission}
    (h : (server.endingFrom around s scopes ticket credentials).permissions? = some permissions) :
    permissions = ticket.permissions := by
  rw [endingFrom] at h
  split at h
  · rw [permissions_verdict h, permissions_credited]
  · cases h

theorem withoutHandle_endingFrom (around : Surroundings) (s : ServerState) (scopes : List String)
    (ticket : Ticket) (credentials : List Credential) :
    (server.endingFrom around s scopes ticket credentials).withoutHandle =
      server.endingFrom around s [] ticket credentials := by
  rw [endingFrom, endingFrom]
  split
  · exact withoutHandle_verdict _ _ _
  · rfl

theorem ending_of_opening {credentials : List Credential} {ticket : Ticket}
    (haccept : server.accept request = .ok credentials)
    (hopening : server.opening s request = .ok ticket) :
    server.ending around s request = server.endingFrom around s request.scopeWords
      (server.widened s request.scopeWords ticket) credentials := by
  rw [ending, weighed_of_opening haccept hopening, endingFrom]
  cases server.provenClaims around credentials <;> rfl

end

end Server

end UserManagedAccess
