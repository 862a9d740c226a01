import UserManagedAccess.Proofs.DerivedResources
import UserManagedAccess.Proofs.RequestFlaws
import UserManagedAccess.Proofs.TextParts

/-! Tickets in store. Whatever led to it, a ticket that waits there is about valid permissions, is
not settled yet, and lists what its chain has left to prove. -/
namespace UserManagedAccess

namespace Permission

/-- Scopes that are not blank may be added to valid permissions. -/
theorem validateAll_withScopes {ps : List Permission} (h : validateAll ps = .ok ())
    {scopes : List String} (hscopes : ∀ scope ∈ scopes, Text.isBlank scope = false) :
    validateAll (ps.map (·.withScopes scopes)) = .ok () := by
  obtain ⟨hne, hvalid⟩ := validateAll_eq_ok_iff.mp h
  refine validateAll_eq_ok_iff.mpr ⟨by simpa using hne, ?_⟩
  intro _ hmem
  obtain ⟨p, hp, rfl⟩ := List.mem_map.mp hmem
  obtain ⟨hresource, hlisted⟩ := validate_eq_ok_iff.mp (hvalid p hp)
  refine validate_eq_ok_iff.mpr ⟨hresource, fun scope hscope => ?_⟩
  exact (lists_withScopes.mp hscope).elim (hlisted scope) (hscopes scope)

end Permission

/-! ## The scopes of a chain -/

namespace Chain

/-- None of the scopes that the rounds have added is blank. -/
def AddsWords (chain : Chain) : Prop :=
  ∀ scopes ∈ chain.added, ∀ scope ∈ scopes, Text.isBlank scope = false

theorem AddsWords.widen {chain : Chain} (h : chain.AddsWords) (s : ServerState)
    {scopes : List String} (hscopes : ∀ scope ∈ scopes, Text.isBlank scope = false) :
    (chain.widen s scopes).AddsWords := by
  rw [Chain.widen]
  split
  · exact h
  · intro words hwords
    rcases List.mem_append.mp hwords with hwords | hwords
    · exact h words hwords
    · exact List.mem_singleton.mp hwords ▸ hscopes

/-- What a chain has come to stays valid, since it has only grown by scopes. -/
theorem validateAll_permissions {chain : Chain}
    (h : Permission.validateAll chain.requested = .ok ()) (hwords : chain.AddsWords) :
    Permission.validateAll chain.permissions = .ok () := by
  obtain ⟨requested, added, startedIn, pushed⟩ := chain
  simp only [AddsWords] at hwords
  simp only [permissions]
  induction added generalizing requested with
  | nil => exact h
  | cons scopes rest ih =>
    obtain ⟨hscopes, hrest⟩ := List.forall_mem_cons.mp hwords
    exact ih _ (Permission.validateAll_withScopes h hscopes) hrest

end Chain

theorem TokenRequest.isBlank_of_mem_scopeWords {request : TokenRequest} {scope : String}
    (h : scope ∈ request.scopeWords) : Text.isBlank scope = false := by
  rw [scopeWords] at h
  cases hscope : request.scope with
  | none => simp [hscope] at h
  | some text =>
    rw [hscope] at h
    exact Text.isBlank_of_mem_words h

/-- Scopes are added word by word, and no word is blank. -/
theorem addsWords_of_chainOf? {events : List Event} {id : String} {chain : Chain}
    (h : chainOf? events id = some chain) : chain.AddsWords := by
  have hstart (s : ServerState) (permissions : List Permission) :
      (Chain.start s permissions).AddsWords :=
    fun scopes hscopes => absurd hscopes List.not_mem_nil
  induction events generalizing id chain with
  | nil => cases h
  | cons event earlier ih =>
    rw [chainOf?] at h
    split at h
    · simp only [Event.chain?] at h
      split at h
      · next around request _ =>
        simp only [TokenRequest.chain?, Option.bind_eq_bind, Option.bind_eq_some_iff,
          Option.pure_def, Option.some.injEq] at h
        obtain ⟨base, hbase, credentials, -, rfl⟩ := h
        have hwords : base.AddsWords := by
          simp only [TokenRequest.base?] at hbase
          split at hbase
          · exact ih hbase
          · cases hbase
            exact hstart _ _
          · cases hbase
        exact hwords.widen _ fun scope => TokenRequest.isBlank_of_mem_scopeWords
      · cases h
        exact hstart _ _
      · cases h
    · exact ih h

namespace Server
variable {server : Server}

/-! ## What commands store -/

/-- A ticket in store after a command was there before it, or the command did not find it
settled. -/
theorem stored_of_execute [Url.DomainRules] {s : ServerState} {command : Command} {id : String}
    {ticket : Ticket} (h : (server.execute s command).2.tickets.get? id = some ticket) :
    s.tickets.get? id = some ticket ∨ server.settles s ticket = false := by
  cases command with
  | negotiate around request =>
    obtain ⟨s', hs, htickets, hcases⟩ := server.negotiate_cases around request s
    simp only [execute, Prod.map_snd, id_eq] at h
    rcases hcases with ⟨e, hrun, -⟩ | ⟨granted, -, -, hrun⟩ | ⟨fresh, -, hsettles, hrun⟩ <;>
      rw [hrun] at h
    · exact .inl (TokenRequest.get?_of_left htickets h)
    · rw [tickets_stateWith] at h
      exact .inl (TokenRequest.get?_of_left htickets h)
    · simp only [KeyMap.get?_insert] at h
      split at h
      · cases h
        exact .inr hsettles
      · exact .inl (TokenRequest.get?_of_left htickets h)
  | openTicket permissions =>
    obtain ⟨s', hs, hcases⟩ := server.openTicket_cases permissions s
    simp only [execute, Prod.map_snd, id_eq] at h
    rcases hcases with ⟨result, hrun, -⟩ | ⟨hsettles, -, hrun⟩ <;> rw [hrun] at h
    · exact .inl (hs.tickets_eq ▸ h)
    · simp only [KeyMap.get?_insert] at h
      split at h
      · cases h
        exact .inr hsettles
      · exact .inl (hs.tickets_eq ▸ h)
  | register description =>
    simp only [execute, Prod.map_snd, id_eq, run_register] at h
    split at h <;> exact .inl h
  | unregister id =>
    simp only [execute, Prod.map_snd, run_unregister] at h
    exact .inl h
  | introspect around token =>
    obtain ⟨tokens, ids, hstate, -⟩ := server.introspect_cases around token s
    simp only [execute, Prod.map_snd, id_eq, hstate] at h
    exact .inl h
  | changeRules file => exact .inl h

/-- Tickets that are settled are not stored. -/
theorem unsettled_of_stored [Url.DomainRules] (hs : server.strategy = .elimination)
    {start : ServerState} (hstart : start.IsInitial) (commands : List Command) {id : String}
    {ticket : Ticket} (h : (server.history start commands).state.tickets.get? id = some ticket) :
    ticket.isSettled = false := by
  have hall : ∀ id ticket, (server.history start commands).state.tickets.get? id = some ticket →
      ticket.isSettled = false := by
    apply history_induction (motive := fun past => ∀ id ticket,
      past.state.tickets.get? id = some ticket → ticket.isSettled = false)
    · intro id ticket hid
      rw [hstart.tickets_eq] at hid
      cases hid
    · intro past command hpast id ticket hid
      rcases stored_of_execute hid with hbefore | hsettles
      · exact hpast id ticket hbefore
      · exact (settles_of_elimination server past.state hs ticket).symm.trans hsettles
  exact hall id ticket h

/-- What holds of a ticket that waits in store, given the chain that led to it. -/
structure Pending (server : Server) (ticket : Ticket) (chain : Chain) : Prop where
  nonempty : ticket.permissions ≠ []
  valid : Permission.validateAll ticket.permissions = .ok ()
  permissions_eq : ticket.permissions = chain.permissions
  /-- All permissions or none have requirements. -/
  length_eq : ticket.required.length = 0 ∨ ticket.required.length = ticket.permissions.length
  conditions_ne_nil : ∀ r ∈ ticket.required, ∀ name conditions,
    r.claims.get? name = some conditions → conditions ≠ []
  unsettled : ticket.isSettled = false
  unmet : ∀ r ∈ ticket.required, ∀ name, ∀ p ∈ r.conditions name,
    ∀ value ∈ ticket.provided.values name, p.isMetBy value = false
  required_eq : ticket.required = (server.demanded chain).map (·.eliminate ticket.provided)

section
variable [Url.DomainRules]

theorem Follows.validateAll_permissions {ticket : Ticket} {chain : Chain}
    (h : server.Follows ticket chain) (hwords : chain.AddsWords) :
    Permission.validateAll ticket.permissions = .ok () :=
  h.permissions_eq ▸ Chain.validateAll_permissions h.valid hwords

theorem Follows.pending {ticket : Ticket} {chain : Chain} (h : server.Follows ticket chain)
    (hs : server.strategy = .elimination) (hwords : chain.AddsWords)
    (hunsettled : ticket.isSettled = false) : server.Pending ticket chain := by
  have hvalid := h.validateAll_permissions hwords
  have hrequired := h.required_eq hs
  refine
    { nonempty := (Permission.validateAll_eq_ok_iff.mp hvalid).1
      valid := hvalid
      permissions_eq := h.permissions_eq
      length_eq := ?_
      conditions_ne_nil := ?_
      unsettled := hunsettled
      unmet := ?_
      required_eq := hrequired }
  · rw [hrequired, List.length_map, h.permissions_eq]
    rcases server.policy.demands_length_eq_or_eq_nil chain.startedIn chain.permissions with
      hall | hnone
    · exact .inr hall
    · exact .inl (List.length_eq_zero_iff.mpr hnone)
  · intro r hr name conditions hget
    rw [hrequired] at hr
    obtain ⟨demand, -, rfl⟩ := List.mem_map.mp hr
    exact Requirements.conditions_ne_nil (Requirements.tidy_eliminate demand _) hget
  · intro r hr name p hp value hvalue
    rw [hrequired] at hr
    obtain ⟨demand, -, rfl⟩ := List.mem_map.mp hr
    rw [Requirements.conditions_eliminate] at hp
    have hunmet : p.isMetByAny (ticket.provided.values name) = false := by
      simpa using (List.mem_filter.mp hp).2
    exact Bool.eq_false_iff.mpr (List.any_eq_false.mp hunmet value hvalue)

/-- In every history, each ticket in store has a chain that led to it and is pending: its
permissions are valid, and its requirements are what is left, of those that the policy had when the
chain began or began anew, after what was proven since then. -/
theorem pending_of_stored (server : Server) (hs : server.strategy = .elimination)
    {start : ServerState} (hstart : start.IsInitial) (commands : List Command) (id : String)
    (ticket : Ticket)
    (hstored : (server.history start commands).state.tickets.get? id = some ticket) :
    ∃ chain, chainOf? (server.history start commands).events id = some chain ∧
      server.Pending ticket chain := by
  obtain ⟨chain, hchain, hfollows⟩ := server.traced_history hstart commands id ticket hstored
  have hunsettled := unsettled_of_stored hs hstart commands hstored
  exact ⟨chain, hchain, hfollows.pending hs (addsWords_of_chainOf? hchain) hunsettled⟩

end

/-- Half of what was demanded is proven: the identity, but not the access to the source. -/
theorem sample_source_pending :
    let server := sample (.derived (.namespaced []))
    let past := server.history ∅ [.register sampleDerived,
      .negotiate offline (sampleAsk [⟨some (sampleId 0), some ["read"]⟩] (some "write")),
      .negotiate offline (sampleResume (sampleId 1) "alice")]
    server.strategy = .elimination ∧ (∅ : ServerState).IsInitial ∧
      ∃ ticket chain, past.state.tickets.get? (sampleId 2) = some ticket ∧
        ticket.permissions = [⟨some (sampleId 0), some ["read", "write"]⟩] ∧
        ticket.required.map Requirements.names = [[ClaimName.sourceAccess]] ∧
        chainOf? past.events (sampleId 2) = some chain ∧ server.Pending ticket chain := by
  obtain ⟨chain, hchain, hpending⟩ := pending_of_stored (sample (.derived (.namespaced []))) rfl
    (⟨rfl, rfl, rfl⟩ : (∅ : ServerState).IsInitial)
    [.register sampleDerived,
      .negotiate offline (sampleAsk [⟨some (sampleId 0), some ["read"]⟩] (some "write")),
      .negotiate offline (sampleResume (sampleId 1) "alice")] (sampleId 2) _ (by rfl)
  exact ⟨rfl, ⟨rfl, rfl, rfl⟩, _, chain, rfl, rfl, by decide +kernel, hchain, hpending⟩

end Server

end UserManagedAccess
