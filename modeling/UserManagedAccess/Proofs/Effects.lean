import UserManagedAccess.Proofs.RequestFlaws
import UserManagedAccess.Proofs.Stores
import UserManagedAccess.Server.Startup

/-! What operations do to the stores, whether they succeed or fail. A request with a flaw changes
nothing; any other request uses its ticket up, and what it adds, it adds under ids that were
free. -/
namespace UserManagedAccess

namespace ServerState

theorem Issued.free_next {s : ServerState} (h : s.Issued) : s.stores.Free s.ids.next.1 where
  tickets := h.tickets.get?_next_eq_none
  resources := h.resources.get?_next_eq_none
  tokens := h.tokens.get?_next_eq_none

theorem Issued.free_next_next {s : ServerState} (h : s.Issued) :
    s.stores.Free s.ids.next.2.next.1 where
  tickets := h.tickets.next.get?_next_eq_none
  resources := h.resources.next.get?_next_eq_none
  tokens := h.tokens.next.get?_next_eq_none

theorem SameButTickets.stores_eq {s s' : ServerState} (h : s.SameButTickets s') :
    s'.stores = { s.stores with tickets := s'.tickets } := by
  simp [stores, h.resources_eq, h.tokens_eq]

theorem Consulted.stores_eq {s s' : ServerState} (h : s.Consulted s') : s'.stores = s.stores := by
  simp [stores, h.tickets_eq, h.resources_eq, h.tokens_eq]

end ServerState

/-- The stores once a request has used its ticket up. -/
def TokenRequest.spend (request : TokenRequest) (stores : Stores) : Stores :=
  { stores with tickets := request.remaining stores.tickets }

theorem Resource.failsWith_validate [Url.DomainRules] (description : Resource) :
    FailsWith Error.IsBadRequest description.validate := by
  rw [validate]
  split
  · exact .error ⟨_, rfl⟩
  · split
    · exact .error ⟨_, rfl⟩
    · refine .forM (fun source => ?_) description.sources
      rw [validateSource]
      repeat' split
      all_goals first | exact .ok _ | exact .error ⟨_, rfl⟩

namespace Server
variable {server : Server} {around : Surroundings} {request : TokenRequest} {s : ServerState}

/-! ## How a round fails -/

theorem fst_run_of_weighed_eq_error [Url.DomainRules] {e : Error}
    (h : server.weighed around s request = .error e) :
    ((server.negotiate around request).run s).1 = .error e := by
  obtain ⟨s', -, -, hrun⟩ := server.run_negotiate around request s
  rw [hrun, h]

theorem eq_forbidden_of_conclude {scopes : List String} {ticket : Ticket} {e : Error}
    (h : ((server.conclude around scopes ticket).run s).1 = .error e) : e = .forbidden := by
  obtain ⟨s', hresolves, -⟩ := server.run_resolves ticket s
  rw [conclude, Action.run_bind_of_ok hresolves] at h
  split at h
  · rw [Action.run_bind_of_ok (server.run_grant around ticket.permissions scopes s')] at h
    cases h
  · have hask := run_askForMore ticket s'
    split at hask
    · rw [Action.run_bind_of_error hask] at h
      cases h
      rfl
    · rw [Action.run_bind_of_ok hask] at h
      cases h

section
variable [Url.DomainRules]

/-- A round fails on the way to a decision, or because the decision is against it. -/
theorem weighed_eq_error_or_eq_forbidden {e : Error}
    (h : ((server.negotiate around request).run s).1 = .error e) :
    server.weighed around s request = .error e ∨ e = .forbidden := by
  obtain ⟨s', -, -, hrun⟩ := server.run_negotiate around request s
  rw [hrun] at h
  cases hweighed : server.weighed around s request with
  | error e' =>
    rw [hweighed] at h
    cases h
    exact .inl rfl
  | ok ticket =>
    rw [hweighed] at h
    exact .inr (eq_forbidden_of_conclude h)

/-- A flaw is found before a ticket is weighed, and named. -/
theorem weighed_of_flaw (around : Surroundings) (h : request.Flaw server.verifier s.tickets) :
    ∃ fault, server.weighed around s request = .error (.badRequest fault) := by
  cases haccept : server.accept request with
  | error e =>
    obtain ⟨fault, rfl⟩ := server.failsWith_accept request e haccept
    exact ⟨fault, by rw [weighed, haccept]; rfl⟩
  | ok credentials =>
    cases hopening : server.opening s request with
    | error e =>
      have hfails : FailsWith Error.IsBadRequest (server.opening s request) := by
        rw [opening]
        repeat' split
        all_goals first | exact .ok _ | exact .error ⟨_, rfl⟩
      obtain ⟨fault, rfl⟩ := hfails e hopening
      exact ⟨fault, by rw [weighed, haccept, hopening]; rfl⟩
    | ok ticket =>
      obtain ⟨hvalid, -⟩ := accept_eq_ok_iff.mp haccept
      have hstored := (opening_isOk_iff hvalid).mp ⟨ticket, hopening⟩
      exact absurd h (not_flaw_iff.mpr ⟨⟨credentials, haccept⟩, hstored⟩)

/-- Without a flaw, it is at most the credentials that keep a ticket from being weighed. -/
theorem failsWith_weighed (hverifier : server.AsksByFormat)
    (h : ¬ request.Flaw server.verifier s.tickets) :
    FailsWith Error.IsInvalidCredential (server.weighed around s request) := by
  obtain ⟨⟨credentials, haccept⟩, hstored⟩ := not_flaw_iff.mp h
  obtain ⟨hvalid, -, hsupported⟩ := accept_eq_ok_iff.mp haccept
  obtain ⟨ticket, hopening⟩ := (opening_isOk_iff hvalid).mpr hstored
  rw [weighed_of_opening haccept hopening]
  exact ((failsWith_verifyEach hverifier around.now hsupported around.fetcher).map _).map _

end

theorem left_of_flaw (h : request.Flaw server.verifier s.tickets) :
    (if (server.accept request).isOk then request.remaining s.tickets else s.tickets) =
      s.tickets := by
  cases haccept : server.accept request with
  | error e => rfl
  | ok credentials =>
    change request.remaining s.tickets = s.tickets
    rw [TokenRequest.remaining]
    split
    · next id hticket =>
      apply KeyMap.erase_of_get?_eq_none
      cases hget : s.tickets.get? id with
      | none => rfl
      | some ticket =>
        refine absurd h (not_flaw_iff.mpr ⟨⟨credentials, haccept⟩, fun id' hticket' => ?_⟩)
        cases hticket.symm.trans hticket'
        simp [hget]
    · rfl

theorem left_of_not_flaw (h : ¬ request.Flaw server.verifier s.tickets) :
    (if (server.accept request).isOk then request.remaining s.tickets else s.tickets) =
      request.remaining s.tickets := by
  obtain ⟨⟨credentials, haccept⟩, -⟩ := not_flaw_iff.mp h
  rw [haccept]
  rfl

/-! ## What a round does -/

/-- How a round may end, and what it leaves in the stores then. -/
inductive NegotiationEffect (server : Server) (request : TokenRequest) (s : ServerState) :
    Except Error Outcome × ServerState → Prop
  | refused (fault : RequestFault) (s' : ServerState)
      (flaw : request.Flaw server.verifier s.tickets) (stores_eq : s'.stores = s.stores) :
      NegotiationEffect server request s (.error (.badRequest fault), s')
  | rejected (fault : CredentialFault) (s' : ServerState)
      (sound : ¬ request.Flaw server.verifier s.tickets)
      (stores_eq : s'.stores = request.spend s.stores) :
      NegotiationEffect server request s (.error (.invalidCredential fault), s')
  | denied (s' : ServerState) (sound : ¬ request.Flaw server.verifier s.tickets)
      (stores_eq : s'.stores = request.spend s.stores) :
      NegotiationEffect server request s (.error .forbidden, s')
  /-- One ticket is stored. -/
  | asked (demand : Demand) (ticket : Ticket) (s' : ServerState)
      (sound : ¬ request.Flaw server.verifier s.tickets) (fresh : s.stores.Free demand.ticket)
      (stores_eq : s'.stores = { request.spend s.stores with
        tickets := (request.remaining s.tickets).insert demand.ticket ticket }) :
      NegotiationEffect server request s (.ok (.needInfo demand), s')
  /-- A token is stored if it is not a signed one, and a resource if a handle was made. -/
  | granted (grant : Grant) (s' : ServerState)
      (sound : ¬ request.Flaw server.verifier s.tickets)
      (tickets_eq : s'.tickets = request.remaining s.tickets)
      (kept : server.tokenForm = .kept → s.stores.Free grant.accessToken ∧
        ∃ token, s'.tokens = s.tokens.insert grant.accessToken token)
      (signed : server.tokenForm = .signed → s'.tokens = s.tokens)
      (handle : ∀ id, grant.derivationResource = some id →
        s.stores.Free id ∧ s'.resources = s.resources.insert id .handle)
      (noHandle : grant.derivationResource = none → s'.resources = s.resources) :
      NegotiationEffect server request s (.ok (.granted grant), s')

/-- It is a flaw, and nothing else, that makes a request a bad one. -/
theorem NegotiationEffect.badRequest_iff {done : Except Error Outcome × ServerState}
    (h : server.NegotiationEffect request s done) :
    (∃ fault, done.1 = .error (.badRequest fault)) ↔
      request.Flaw server.verifier s.tickets := by
  cases h with
  | refused fault s' flaw => exact ⟨fun _ => flaw, fun _ => ⟨fault, rfl⟩⟩
  | rejected | denied | asked | granted => simp [*]

theorem NegotiationEffect.stores_eq_of_flaw {done : Except Error Outcome × ServerState}
    (h : server.NegotiationEffect request s done) (hflaw : request.Flaw server.verifier s.tickets) :
    done.2.stores = s.stores := by
  cases h with
  | refused fault s' flaw stores_eq => exact stores_eq
  | rejected | denied | asked | granted => contradiction

/-- What is handed out with a token is all that is stored. -/
private theorem NegotiationEffect.of_grant {s' : ServerState} (hissued : s.Issued)
    (hs : s.SameButTickets s') (hsound : ¬ request.Flaw server.verifier s.tickets)
    (htickets : s'.tickets = request.remaining s.tickets) (around : Surroundings)
    (permissions : List Permission) (scopes : List String) :
    server.NegotiationEffect request s
      (.ok (.granted (server.grantOf around s' permissions scopes)),
        server.stateWith around s' permissions scopes) := by
  apply NegotiationEffect.granted _ _ hsound
  · rw [tickets_stateWith, htickets]
  · intro hform
    rw [tokens_stateWith, tokensWith, hform, hs.tokens_eq]
    simp only [grantOf, tokenText, hform]
    exact ⟨hs.ids_eq ▸ hissued.free_next, _, rfl⟩
  · intro hform
    rw [tokens_stateWith, tokensWith, hform, hs.tokens_eq]
  · intro id hid
    simp only [grantOf] at hid
    constructor
    · rw [handle?] at hid
      split at hid <;> cases hid
      exact hs.ids_eq ▸ hissued.free_next_next
    · simp only [stateWith, hid, hs.resources_eq]
  · intro hnone
    simp only [grantOf] at hnone
    simp only [stateWith, hnone, hs.resources_eq]

section
variable [Url.DomainRules]

theorem negotiationEffect_run (hverifier : server.AsksByFormat) (hissued : s.Issued)
    (around : Surroundings) (request : TokenRequest) :
    server.NegotiationEffect request s ((server.negotiate around request).run s) := by
  obtain ⟨s', hs, htickets, hcases⟩ := server.negotiate_cases around request s
  by_cases hflaw : request.Flaw server.verifier s.tickets
  · -- nothing was weighed, so the round has ended with the fault that was found
    obtain ⟨fault, hweighed⟩ := weighed_of_flaw around hflaw
    have hresult := fst_run_of_weighed_eq_error hweighed
    rcases hcases with ⟨e, hrun, -⟩ | ⟨_, h, -⟩ | ⟨_, h, -⟩
    · rw [hrun] at hresult ⊢
      cases hresult
      refine .refused fault s' hflaw ?_
      rw [hs.stores_eq, htickets.trans (left_of_flaw hflaw)]
      rfl
    · cases hweighed.symm.trans h
    · cases hweighed.symm.trans h
  · have hleft : s'.tickets = request.remaining s.tickets :=
      htickets.trans (left_of_not_flaw hflaw)
    have hspent : s'.stores = request.spend s.stores := by
      rw [hs.stores_eq, hleft]
      rfl
    rcases hcases with ⟨e, hrun, -⟩ | ⟨ticket, -, -, hrun⟩ | ⟨ticket, -, -, hrun⟩ <;> rw [hrun]
    · rcases weighed_eq_error_or_eq_forbidden (congrArg Prod.fst hrun) with hweighed | rfl
      · obtain ⟨fault, rfl⟩ := failsWith_weighed hverifier hflaw e hweighed
        exact .rejected fault s' hflaw hspent
      · exact .denied s' hflaw hspent
    · exact .of_grant hissued hs hflaw hleft around ticket.permissions request.scopeWords
    · refine .asked _ ticket _ hflaw (hs.ids_eq ▸ hissued.free_next) ?_
      rw [← hspent, ← hleft]
      rfl

/-! ## What resource servers do -/

/-- How the registration of a resource may end. -/
inductive RegistrationEffect (description : Resource) (s : ServerState) :
    Except Error String × ServerState → Prop
  | refused (fault : RequestFault) (s' : ServerState)
      (invalid : description.validate = .error (.badRequest fault))
      (stores_eq : s'.stores = s.stores) :
      RegistrationEffect description s (.error (.badRequest fault), s')
  | registered (id : String) (s' : ServerState) (valid : description.validate = .ok ())
      (fresh : s.stores.Free id)
      (stores_eq :
        s'.stores = { s.stores with resources := s.resources.insert id description }) :
      RegistrationEffect description s (.ok id, s')

end

/-- How the removal of a resource may end. -/
inductive RemovalEffect (id : String) (s : ServerState) : Except Error Unit × ServerState → Prop
  | refused (s' : ServerState) (absent : s.resources.contains id = false)
      (stores_eq : s'.stores = s.stores) :
      RemovalEffect id s (.error (.notFound (.resource id)), s')
  | removed (s' : ServerState) (present : s.resources.contains id = true)
      (stores_eq : s'.stores = { s.stores with resources := s.resources.erase id }) :
      RemovalEffect id s (.ok (), s')

/-- How a request for a ticket may end. -/
inductive OpeningEffect (permissions : List Permission) (s : ServerState) :
    Except Error (Option String) × ServerState → Prop
  | refused (fault : RequestFault) (s' : ServerState)
      (unfit : Permission.Unfit permissions) (stores_eq : s'.stores = s.stores) :
      OpeningEffect permissions s (.error (.badRequest fault), s')
  | needless (s' : ServerState) (fit : ¬ Permission.Unfit permissions)
      (stores_eq : s'.stores = s.stores) : OpeningEffect permissions s (.ok none, s')
  | opened (id : String) (ticket : Ticket) (s' : ServerState)
      (fit : ¬ Permission.Unfit permissions) (fresh : s.stores.Free id)
      (permissions_eq : ticket.permissions = permissions)
      (stores_eq : s'.stores = { s.stores with tickets := s.tickets.insert id ticket }) :
      OpeningEffect permissions s (.ok (some id), s')

theorem registrationEffect_run [Url.DomainRules] (hissued : s.Issued) (description : Resource) :
    RegistrationEffect description s ((register description).run s) := by
  rw [run_register]
  cases hvalid : description.validate with
  | error e =>
    obtain ⟨fault, rfl⟩ := description.failsWith_validate e hvalid
    exact .refused fault s hvalid rfl
  | ok => exact .registered _ _ hvalid hissued.free_next rfl

theorem removalEffect_run (id : String) (s : ServerState) :
    RemovalEffect id s ((unregister id).run s) := by
  rw [run_unregister]
  cases hget : s.resources.contains id with
  | true => exact .removed _ hget rfl
  | false =>
    have habsent : s.resources.get? id = none := by simpa using hget
    rw [KeyMap.erase_of_get?_eq_none habsent]
    exact .refused s hget rfl

theorem openingEffect_run (hissued : s.Issued) (permissions : List Permission) :
    OpeningEffect permissions s ((server.openTicket permissions).run s) := by
  obtain ⟨s', hs, hcases⟩ := server.openTicket_cases permissions s
  rcases hcases with ⟨result, hrun, ⟨e, hinvalid, rfl⟩ | ⟨hvalid, -, rfl⟩⟩ | ⟨-, hvalid, hrun⟩ <;>
    rw [hrun]
  · obtain ⟨fault, rfl⟩ := Permission.failsWith_validateAll permissions e hinvalid
    refine .refused fault s' (Classical.byContradiction fun hfit => ?_) hs.stores_eq
    cases hinvalid.symm.trans (Permission.validateAll_eq_ok_iff_not_unfit.mpr hfit)
  · exact .needless s' (Permission.validateAll_eq_ok_iff_not_unfit.mp hvalid) hs.stores_eq
  · refine .opened _ (server.freshTicket s permissions) _
      (Permission.validateAll_eq_ok_iff_not_unfit.mp hvalid) (hs.ids_eq ▸ hissued.free_next) rfl ?_
    rw [← hs.stores_eq, ← hs.tickets_eq]
    rfl

/-! ## Every reachable state -/

/-- However its settings are, a server asks one verifier for each format. -/
theorem asksByFormat_ofSettings (settings : Settings) (keys : KeyPair) :
    (ofSettings settings keys).AsksByFormat := by
  have hentry (enabled : Bool) (format : CredentialFormat) {verifier : Verifier}
      (hleaf : verifier.IsLeaf) :
      ∀ entry ∈ if enabled then [(format, verifier)] else [], entry.2.IsLeaf := by
    cases enabled with
    | false => exact fun _ h => absurd h List.not_mem_nil
    | true => exact fun _ h => List.mem_singleton.mp h ▸ hleaf
  refine ⟨_, rfl, ?_⟩
  simp only [List.forall_mem_append]
  exact ⟨⟨⟨hentry _ _ trivial, hentry _ _ trivial⟩, hentry _ _ trivial⟩, hentry _ _ trivial⟩

/-- In every reachable state, each operation does to the stores what its outcome says and nothing
else, and a request for a token is a bad one exactly if it has a flaw. -/
theorem effects_exact [Url.DomainRules] (server : Server) (hverifier : server.AsksByFormat)
    {start : ServerState} (hstart : start.IsInitial) (commands : List Command) :
    let s := (server.history start commands).state
    (∀ around request,
        server.NegotiationEffect request s ((server.negotiate around request).run s) ∧
          ((∃ fault, ((server.negotiate around request).run s).1 = .error (.badRequest fault)) ↔
            request.Flaw server.verifier s.tickets)) ∧
      (∀ description, RegistrationEffect description s ((register description).run s)) ∧
      (∀ id, RemovalEffect id s ((unregister id).run s)) ∧
      ∀ permissions, OpeningEffect permissions s ((server.openTicket permissions).run s) := by
  intro s
  have hissued : s.Issued := server.issued_history hstart commands
  refine ⟨fun around request => ?_, registrationEffect_run hissued,
    fun id => removalEffect_run id s, openingEffect_run hissued⟩
  have heffect := negotiationEffect_run hverifier hissued around request
  exact ⟨heffect, heffect.badRequest_iff⟩

/-- A ticket is good for one round; presented again, it is a flaw and nothing happens. -/
theorem sample_effects :
    let server := sample (.namespaced [])
    let request := sampleResume (sampleId 0) "alice"
    let before := (server.history ∅
      [.negotiate offline (sampleAsk [⟨some "R1", some ["read"]⟩] none)]).state
    let after := (server.history ∅
      [.negotiate offline (sampleAsk [⟨some "R1", some ["read"]⟩] none),
        .negotiate offline request]).state
    server.AsksByFormat ∧ (∅ : ServerState).IsInitial ∧
      ¬ request.Flaw server.verifier before.tickets ∧
      server.NegotiationEffect request before ((server.negotiate offline request).run before) ∧
      request.Flaw server.verifier after.tickets ∧
      ((server.negotiate offline request).run after).2.stores = after.stores := by
  have hverifier : (sample (.namespaced [])).AsksByFormat :=
    ⟨_, rfl, fun entry hentry => by cases List.mem_singleton.mp hentry; exact trivial⟩
  have hstart : (∅ : ServerState).IsInitial := ⟨rfl, rfl, rfl⟩
  obtain ⟨hfirst, hgood⟩ := (effects_exact _ hverifier hstart
    [.negotiate offline (sampleAsk [⟨some "R1", some ["read"]⟩] none)]).1 offline
    (sampleResume (sampleId 0) "alice")
  obtain ⟨hsecond, hbad⟩ := (effects_exact _ hverifier hstart
    [.negotiate offline (sampleAsk [⟨some "R1", some ["read"]⟩] none),
      .negotiate offline (sampleResume (sampleId 0) "alice")]).1 offline
    (sampleResume (sampleId 0) "alice")
  have hflaw := hbad.mp ⟨.unknownTicket, rfl⟩
  refine ⟨hverifier, hstart, fun h => ?_, hfirst, hflaw, hsecond.stores_eq_of_flaw hflaw⟩
  obtain ⟨fault, hfault⟩ := hgood.mpr h
  exact absurd hfault nofun

end Server

end UserManagedAccess
