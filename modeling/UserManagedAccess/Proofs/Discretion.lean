import Mathlib.Data.List.Induction
import UserManagedAccess.Proofs.Resemblance
import UserManagedAccess.Proofs.ScopeExpansion

/-! Replies do not tell who is on the list. Two servers that differ in their rules reply alike for
as long as nobody shows an identity that only one of the tables names. Their tickets differ all the
while, and the requester never gets to see in what. -/
namespace UserManagedAccess

namespace ServerState

/-- The state with another file of rules, and other rules that were read from it. -/
def withRules (s : ServerState) (file : FileState) (cache : Option RulesCache) : ServerState :=
  { s with rulesFile := file, rulesCache := cache }

/-- Two states that differ in their rules, and in tickets that resemble each other. -/
structure Resembles (known : String → Prop) (table table' : RuleTable) (s s' : ServerState) :
    Prop where
  tickets : ∀ id, Option.Rel (Ticket.Resembles known) (s.tickets.get? id) (s'.tickets.get? id)
  resources_eq : s'.resources = s.resources
  tokens_eq : s'.tokens = s.tokens
  ids_eq : s'.ids = s.ids
  rules_eq : s.rulesInForce = table
  rules_eq' : s'.rulesInForce = table'

namespace Resembles
variable {known : String → Prop} {table table' : RuleTable} {s s' t t' : ServerState}

/-- After steps that touch nothing but tickets, the tickets decide. -/
theorem of_sameButTickets (h : Resembles known table table' s s') (hs : s.SameButTickets t)
    (hs' : s'.SameButTickets t')
    (htickets : ∀ id, Option.Rel (Ticket.Resembles known) (t.tickets.get? id)
      (t'.tickets.get? id)) :
    Resembles known table table' t t' where
  tickets := htickets
  resources_eq := by rw [hs'.resources_eq, hs.resources_eq, h.resources_eq]
  tokens_eq := by rw [hs'.tokens_eq, hs.tokens_eq, h.tokens_eq]
  ids_eq := by rw [hs'.ids_eq, hs.ids_eq, h.ids_eq]
  rules_eq := hs.rulesInForce_eq.trans h.rules_eq
  rules_eq' := hs'.rulesInForce_eq.trans h.rules_eq'

theorem consulted (h : Resembles known table table' s s') (hs : s.Consulted t)
    (hs' : s'.Consulted t') : Resembles known table table' t t' :=
  h.of_sameButTickets hs.sameButTickets hs'.sameButTickets fun id => by
    rw [hs.tickets_eq, hs'.tickets_eq]
    exact h.tickets id

theorem rel_remaining (h : Resembles known table table' s s') (request : TokenRequest)
    (id : String) : Option.Rel (Ticket.Resembles known)
      ((request.remaining s.tickets).get? id) ((request.remaining s'.tickets).get? id) := by
  rw [TokenRequest.remaining, TokenRequest.remaining]
  split
  · simp only [KeyMap.get?_erase]
    split
    · exact .none
    · exact h.tickets id
  · exact h.tickets id

theorem storeTicket (h : Resembles known table table' s s') {ticket ticket' : Ticket}
    (hticket : ticket.Resembles known ticket') :
    Resembles known table table'
      { s with ids := s.ids.next.2, tickets := s.tickets.insert s.ids.next.1 ticket }
      { s' with ids := s'.ids.next.2, tickets := s'.tickets.insert s'.ids.next.1 ticket' } where
  tickets id := by
    simp only [h.ids_eq, KeyMap.get?_insert]
    split
    · exact .some hticket
    · exact h.tickets id
  resources_eq := h.resources_eq
  tokens_eq := h.tokens_eq
  ids_eq := by simp only [h.ids_eq]
  rules_eq := by simpa only [rulesInForce_eq] using h.rules_eq
  rules_eq' := by simpa only [rulesInForce_eq] using h.rules_eq'

/-- What is done to the other stores is done to both. -/
theorem withStores (h : Resembles known table table' s s') (resources : KeyMap Resource)
    (tokens : KeyMap KeptToken) (ids : IdSupply) :
    Resembles known table table' { s with resources, tokens, ids }
      { s' with resources, tokens, ids } where
  tickets := h.tickets
  resources_eq := rfl
  tokens_eq := rfl
  ids_eq := rfl
  rules_eq := by simpa only [rulesInForce_eq] using h.rules_eq
  rules_eq' := by simpa only [rulesInForce_eq] using h.rules_eq'

end Resembles

end ServerState

/-- The operations on resources, tokens and ids. -/
def Operation.IsOnOtherStores : Operation → Prop
  | .takeTicket _ | .putTicket _ _ | .currentRules | .note _ => False
  | _ => True

namespace Server

/-- The lists of permissions about which a command has the policy asked what they take. -/
def questions (server : Server) (s : ServerState) : Command → List (List Permission)
  | .openTicket permissions =>
    if (Permission.validateAll permissions).isOk then [permissions] else []
  | .negotiate _ request =>
    match server.accept request, server.opening s request with
    | .ok _, .ok opened =>
      (if request.ticket.isNone then [opened.permissions] else []) ++
        if request.scopeWords.isEmpty then [] else [expanded opened request]
    | _, _ => []
  | _ => []

/-- The identities that are verified by a command, as far as a ticket takes them in. -/
def identities [Url.DomainRules] (server : Server) (s : ServerState) : Command → List String
  | .negotiate around request =>
    match server.accept request, server.weighed around s request with
    | .ok credentials, .ok _ =>
      (credentials.flatMap (server.valuesProven around ClaimName.webid)).filterMap Json.string?
    | _, _ => []
  | _ => []

variable {server : Server} {known : String → Prop} {table table' : RuleTable} {s s' : ServerState}

/-- Both have come to the same result, and to states that resemble each other. -/
def InStep {α : Type} (known : String → Prop) (table table' : RuleTable)
    (done done' : α × ServerState) : Prop :=
  done.1 = done'.1 ∧ done.2.Resembles known table table' done'.2

theorem InStep.map {α β : Type} {done done' : α × ServerState}
    (h : InStep known table table' done done') (f : α → β) :
    InStep known table table' (done.map f id) (done'.map f id) :=
  ⟨congrArg f h.1, h.2⟩

theorem InStep.bind {α β : Type} {x y : Action α}
    (h : InStep known table table' (x.run s) (y.run s')) {f g : α → Action β}
    (hfg : ∀ a t t', t.Resembles known table table' t' →
      InStep known table table' ((f a).run t) ((g a).run t')) :
    InStep known table table' ((x >>= f).run s) ((y >>= g).run s') := by
  obtain ⟨hresult, hleft⟩ := h
  cases hx : x.run s with
  | mk result t =>
    cases hy : y.run s' with
    | mk result' t' =>
      rw [hx, hy] at hresult hleft
      cases hresult
      cases result with
      | error e =>
        rw [Action.run_bind_of_error hx, Action.run_bind_of_error hy]
        exact ⟨rfl, hleft⟩
      | ok a =>
        rw [Action.run_bind_of_ok hx, Action.run_bind_of_ok hy]
        exact hfg a t t' hleft

theorem inStep_liftExcept {α : Type} (h : s.Resembles known table table' s')
    (x : Except Error α) :
    InStep known table table' ((liftM x : Action α).run s) ((liftM x : Action α).run s') := by
  rw [Action.run_liftExcept, Action.run_liftExcept]
  exact ⟨rfl, h⟩

theorem inStep_perform (h : s.Resembles known table table' s') (op : Operation)
    (hop : op.IsOnOtherStores) :
    InStep known table table' ((Action.perform op).run s) ((Action.perform op).run s') := by
  rw [Action.run_perform, Action.run_perform]
  cases op with
  | takeTicket | putTicket | currentRules | note => exact absurd hop not_false
  | findResource | findToken =>
    simp only [Operation.run, h.resources_eq, h.tokens_eq]
    exact ⟨rfl, h⟩
  | putResource | deleteResource | putToken | deleteToken | freshId =>
    simp only [Operation.run, h.resources_eq, h.tokens_eq, h.ids_eq]
    exact ⟨rfl, h.withStores _ _ _⟩

/-! ## The ticket of a round -/

theorem freshTicket_resembles (h : s.Resembles known table table' s')
    {permissions : List Permission} (hagree : table.AgreeAbout known table' permissions) :
    (server.freshTicket s permissions).Resembles known (server.freshTicket s' permissions) := by
  obtain ⟨-, hresources, -, -, rfl, rfl⟩ := h
  refine ⟨rfl, rfl, fun webid hproven => absurd hproven List.not_mem_nil, ?_⟩
  exact server.policy.demands_resemble hresources hagree

theorem opening_resembles (h : s.Resembles known table table' s') {request : TokenRequest}
    (hagree : ∀ permissions, request.ticket = none → request.permissions = some permissions →
      table.AgreeAbout known table' permissions) :
    (∃ e, server.opening s request = .error e ∧ server.opening s' request = .error e) ∨
      ∃ ticket ticket', server.opening s request = .ok ticket ∧
        server.opening s' request = .ok ticket' ∧ ticket.Resembles known ticket' := by
  rw [opening, opening]
  cases hticket : request.ticket with
  | some id =>
    have hfound := h.tickets id
    simp only
    generalize s.tickets.get? id = found at hfound ⊢
    generalize s'.tickets.get? id = found' at hfound ⊢
    cases hfound with
    | none => exact .inl ⟨_, rfl, rfl⟩
    | some hstored => exact .inr ⟨_, _, rfl, rfl, hstored⟩
  | none =>
    cases hpermissions : request.permissions with
    | some permissions =>
      exact .inr ⟨_, _, rfl, rfl, freshTicket_resembles h (hagree _ hticket hpermissions)⟩
    | none => exact .inl ⟨_, rfl, rfl⟩

theorem widened_resembles (h : s.Resembles known table table' s') {ticket ticket' : Ticket}
    (hticket : ticket.Resembles known ticket') {request : TokenRequest}
    (hagree : request.scopeWords ≠ [] → table.AgreeAbout known table' (expanded ticket request)) :
    (server.widened s request.scopeWords ticket).Resembles known
      (server.widened s' request.scopeWords ticket') := by
  rw [widened, widened, hticket.permissions_eq]
  split
  · exact hticket
  · next hscopes => exact freshTicket_resembles h (hagree (by simpa using hscopes))

theorem credited_resembles (hs : server.strategy = .elimination) {ticket ticket' : Ticket}
    (h : ticket.Resembles known ticket') {claims : Claims} (hshows : claims.Shows known) :
    (server.credited ticket claims).Resembles known (server.credited ticket' claims) := by
  rw [credited, credited, hs]
  split
  · exact h
  · exact h.absorb hshows

section
variable [Url.DomainRules]

theorem weighed_of_accept_eq_error {around : Surroundings} {request : TokenRequest} {e : Error}
    (haccept : server.accept request = .error e) :
    server.weighed around s request = .error e := by
  rw [weighed, haccept]
  rfl

theorem weighed_of_opening_eq_error {around : Surroundings} {request : TokenRequest}
    {credentials : List Credential} {e : Error} (haccept : server.accept request = .ok credentials)
    (hopening : server.opening s request = .error e) :
    server.weighed around s request = .error e := by
  rw [weighed, haccept, hopening]
  rfl

/-- Both rounds are refused alike, or come to tickets that resemble each other. -/
theorem weighed_resembles (hs : server.strategy = .elimination)
    (h : s.Resembles known table table' s') {around : Surroundings} {request : TokenRequest}
    (hagree : ∀ permissions ∈ server.questions s (.negotiate around request),
      table.AgreeAbout known table' permissions)
    (hknown : ∀ webid ∈ server.identities s (.negotiate around request), known webid) :
    (∃ e, server.weighed around s request = .error e ∧
        server.weighed around s' request = .error e) ∨
      ∃ ticket ticket', server.weighed around s request = .ok ticket ∧
        server.weighed around s' request = .ok ticket' ∧ ticket.Resembles known ticket' := by
  cases haccept : server.accept request with
  | error e =>
    exact .inl ⟨e, weighed_of_accept_eq_error haccept, weighed_of_accept_eq_error haccept⟩
  | ok credentials =>
    have hfirst : ∀ permissions, request.ticket = none → request.permissions = some permissions →
        table.AgreeAbout known table' permissions := by
      intro permissions hticket hpermissions
      apply hagree
      have hopening : server.opening s request = .ok (server.freshTicket s permissions) := by
        simp [opening, hticket, hpermissions]
      simp [questions, haccept, hopening, hticket, freshTicket]
    rcases opening_resembles h hfirst with ⟨e, hopening, hopening'⟩ |
      ⟨opened, opened', hopening, hopening', hopened⟩
    · exact .inl ⟨e, weighed_of_opening_eq_error haccept hopening,
        weighed_of_opening_eq_error haccept hopening'⟩
    · have hweighed : server.weighed around s request = _ := weighed_of_opening haccept hopening
      have hweighed' : server.weighed around s' request = _ := weighed_of_opening haccept hopening'
      -- what credentials prove does not depend on the state, so both rounds take in the same
      cases hclaims : server.provenClaims around credentials with
      | error e =>
        rw [hclaims] at hweighed hweighed'
        exact .inl ⟨e, hweighed, hweighed'⟩
      | ok claims =>
        rw [hclaims] at hweighed hweighed'
        have hwidened : (server.widened s request.scopeWords opened).Resembles known
            (server.widened s' request.scopeWords opened') :=
          widened_resembles h hopened fun hscopes =>
            hagree _ (by simp [questions, haccept, hopening, hscopes])
        have hshows : claims.Shows known := by
          intro webid hproven
          apply hknown
          rw [values_provenClaims server around hclaims] at hproven
          simp only [identities, haccept, hweighed, Except.map]
          exact List.mem_filterMap.mpr ⟨_, hproven, rfl⟩
        exact .inr ⟨_, _, hweighed, hweighed', credited_resembles hs hwidened hshows⟩

end

/-! ## The end of a round -/

theorem inStep_resolves (hs : server.strategy = .elimination)
    (h : s.Resembles known table table' s') {ticket ticket' : Ticket}
    (hticket : ticket.Resembles known ticket') :
    InStep known table table' ((server.resolves ticket).run s)
      ((server.resolves ticket').run s') := by
  obtain ⟨t, hrun, ht⟩ := server.run_resolves ticket s
  obtain ⟨t', hrun', ht'⟩ := server.run_resolves ticket' s'
  rw [hrun, hrun', settles_of_elimination _ _ hs, settles_of_elimination _ _ hs,
    hticket.isSettled_eq]
  exact ⟨rfl, h.consulted ht ht'⟩

theorem inStep_grant (h : s.Resembles known table table' s') (around : Surroundings)
    (permissions : List Permission) (scopes : List String) :
    InStep known table table' ((server.grant around permissions scopes).run s)
      ((server.grant around permissions scopes).run s') := by
  have htokens :
      server.tokensWith around s' permissions = server.tokensWith around s permissions := by
    simp only [tokensWith, h.tokens_eq, h.ids_eq]
  have hhandle : handle? s' scopes = handle? s scopes := by simp only [handle?, h.ids_eq]
  rw [run_grant, run_grant]
  constructor
  · simp only [grantOf, tokenText, hhandle, h.ids_eq]
  · simp only [stateWith, hhandle, htokens, h.ids_eq, h.resources_eq]
    split <;> exact h.withStores _ _ _

theorem inStep_storeTicket (h : s.Resembles known table table' s') {ticket ticket' : Ticket}
    (hticket : ticket.Resembles known ticket') :
    InStep known table table' ((storeTicket ticket).run s) ((storeTicket ticket').run s') := by
  rw [run_storeTicket, run_storeTicket]
  exact ⟨by rw [h.ids_eq], h.storeTicket hticket⟩

theorem inStep_askForMore (h : s.Resembles known table table' s') {ticket ticket' : Ticket}
    (hticket : ticket.Resembles known ticket') :
    InStep known table table' ((askForMore ticket).run s) ((askForMore ticket').run s') := by
  rw [run_askForMore, run_askForMore, hticket.missing_eq]
  split
  · exact ⟨rfl, h⟩
  · exact ⟨by rw [h.ids_eq], h.storeTicket hticket⟩

theorem inStep_conclude (hs : server.strategy = .elimination)
    (h : s.Resembles known table table' s') {ticket ticket' : Ticket}
    (hticket : ticket.Resembles known ticket') (around : Surroundings) (scopes : List String) :
    InStep known table table' ((server.conclude around scopes ticket).run s)
      ((server.conclude around scopes ticket').run s') := by
  refine (inStep_resolves hs h hticket).bind fun settled t t' ht => ?_
  cases settled with
  | true =>
    rw [hticket.permissions_eq]
    exact (inStep_grant ht around ticket.permissions scopes).bind fun _ _ _ hleft => ⟨rfl, hleft⟩
  | false => exact (inStep_askForMore ht hticket).bind fun _ _ _ hleft => ⟨rfl, hleft⟩

/-! ## Commands -/

theorem inStep_negotiate [Url.DomainRules] (hs : server.strategy = .elimination)
    (h : s.Resembles known table table' s') {around : Surroundings} {request : TokenRequest}
    (hagree : ∀ permissions ∈ server.questions s (.negotiate around request),
      table.AgreeAbout known table' permissions)
    (hknown : ∀ webid ∈ server.identities s (.negotiate around request), known webid) :
    InStep known table table' ((server.negotiate around request).run s)
      ((server.negotiate around request).run s') := by
  obtain ⟨s₁, hs₁, htickets, hrun⟩ := server.run_negotiate around request s
  obtain ⟨s₁', hs₁', htickets', hrun'⟩ := server.run_negotiate around request s'
  have h₁ : s₁.Resembles known table table' s₁' := by
    refine h.of_sameButTickets hs₁ hs₁' fun id => ?_
    rw [htickets, htickets']
    split
    · exact h.rel_remaining request id
    · exact h.tickets id
  rw [hrun, hrun']
  rcases weighed_resembles hs h hagree hknown with ⟨e, hweighed, hweighed'⟩ |
    ⟨ticket, ticket', hweighed, hweighed', hticket⟩ <;> rw [hweighed, hweighed']
  · exact ⟨rfl, h₁⟩
  · exact inStep_conclude hs h₁ hticket around request.scopeWords

theorem inStep_openTicket (hs : server.strategy = .elimination)
    (h : s.Resembles known table table' s') {permissions : List Permission}
    (hagree : ∀ asked ∈ server.questions s (.openTicket permissions),
      table.AgreeAbout known table' asked) :
    InStep known table table' ((server.openTicket permissions).run s)
      ((server.openTicket permissions).run s') := by
  rw [openTicket]
  cases hvalid : Permission.validateAll permissions with
  | error e =>
    rw [Action.run_bind_of_error (Action.run_liftExcept_of_eq rfl s),
      Action.run_bind_of_error (Action.run_liftExcept_of_eq rfl s')]
    exact ⟨rfl, h⟩
  | ok =>
    have hticket : (server.freshTicket s permissions).Resembles known
        (server.freshTicket s' permissions) :=
      freshTicket_resembles h
        (hagree permissions (by simp [questions, hvalid, Except.isOk, Except.toBool]))
    obtain ⟨s₁, hrun, hs₁⟩ := server.run_newTicket permissions s
    obtain ⟨s₁', hrun', hs₁'⟩ := server.run_newTicket permissions s'
    -- the tickets differ, so this step is taken apart from the others
    rw [Action.run_bind_of_ok (Action.run_liftExcept_of_eq rfl s), Action.run_bind_of_ok hrun,
      Action.run_bind_of_ok (Action.run_liftExcept_of_eq rfl s'), Action.run_bind_of_ok hrun']
    refine (inStep_resolves hs (h.consulted hs₁ hs₁') hticket).bind fun settled t t' ht => ?_
    cases settled with
    | true => exact ⟨rfl, ht⟩
    | false => exact (inStep_storeTicket ht hticket).bind fun _ _ _ hleft => ⟨rfl, hleft⟩

theorem inStep_register [Url.DomainRules] (h : s.Resembles known table table' s')
    (description : Resource) :
    InStep known table table' ((register description).run s) ((register description).run s') := by
  refine (inStep_liftExcept h description.validate).bind fun _ t t' ht => ?_
  refine (inStep_perform ht .freshId trivial).bind fun id t t' ht => ?_
  refine (inStep_perform ht (.putResource id description) trivial).bind fun _ t t' ht => ?_
  exact ⟨rfl, ht⟩

theorem inStep_unregister (h : s.Resembles known table table' s') (id : String) :
    InStep known table table' ((unregister id).run s) ((unregister id).run s') := by
  refine (inStep_perform h (.deleteResource id) trivial).bind fun found t t' ht => ?_
  cases found <;> exact ⟨rfl, ht⟩

theorem inStep_readToken (h : s.Resembles known table table' s') (around : Surroundings)
    (form : TokenForm) (text : String) :
    InStep known table table' ((server.readToken around form text).run s)
      ((server.readToken around form text).run s') := by
  cases form with
  | signed => exact inStep_liftExcept h _
  | kept =>
    refine (inStep_perform h (.findToken text) trivial).bind fun found t t' ht => ?_
    cases found with
    | none => exact ⟨rfl, ht⟩
    | some kept =>
      simp only
      split
      · exact (inStep_perform ht (.deleteToken text) trivial).bind fun _ _ _ hleft => ⟨rfl, hleft⟩
      · exact ⟨rfl, ht⟩

theorem inStep_introspect (h : s.Resembles known table table' s') (around : Surroundings)
    (text : String) :
    InStep known table table' ((server.introspect around text).run s)
      ((server.introspect around text).run s') := by
  refine (inStep_readToken h around server.tokenForm text).bind fun token t t' ht => ?_
  exact (inStep_perform ht .freshId trivial).bind fun _ _ _ hleft => ⟨rfl, hleft⟩

section
variable [Url.DomainRules]

/-- A command is replied to alike in states that resemble each other, and leaves such states. -/
theorem inStep_execute (hs : server.strategy = .elimination)
    (h : s.Resembles known table table' s') {command : Command}
    (hcommand : ∀ file, command ≠ .changeRules file)
    (hagree : ∀ permissions ∈ server.questions s command,
      table.AgreeAbout known table' permissions)
    (hknown : ∀ webid ∈ server.identities s command, known webid) :
    InStep known table table' (server.execute s command) (server.execute s' command) := by
  cases command with
  | negotiate around request => exact (inStep_negotiate hs h hagree hknown).map _
  | openTicket permissions => exact (inStep_openTicket hs h hagree).map _
  | register description => exact (inStep_register h description).map _
  | unregister id => exact (inStep_unregister h id).map _
  | introspect around text => exact (inStep_introspect h around text).map _
  | changeRules file => exact absurd rfl (hcommand file)

/-! ## Histories -/

theorem history_append (server : Server) (start : ServerState) (commands : List Command)
    (command : Command) :
    server.history start (commands ++ [command]) =
      server.serve (server.history start commands) command := by
  rw [history, history, List.foldl_append]
  rfl

/-- The identities that are verified at any time. -/
def Verified (server : Server) (past : History) (webid : String) : Prop :=
  ∃ event ∈ past.events, webid ∈ server.identities event.before event.command

end

/-- Two tables agree, as far as the known identities go, on all that the first of them is asked
about. -/
def AgreeThroughout (server : Server) (past : History) (known : String → Prop)
    (table table' : RuleTable) : Prop :=
  ∀ event ∈ past.events, ∀ permissions ∈ server.questions event.before event.command,
    table.AgreeAbout known table' permissions

/-- Step by step, states that resemble each other give the same replies, as long as no identity is
verified that is not known. -/
theorem inStep_history [Url.DomainRules] (hs : server.strategy = .elimination)
    (h : s.Resembles known table table' s') {commands : List Command}
    (hcommands : ∀ command ∈ commands, ∀ file, command ≠ .changeRules file)
    (hagree : server.AgreeThroughout (server.history s commands) known table table')
    (hknown : ∀ webid, server.Verified (server.history s commands) webid → known webid) :
    (server.history s commands).events.map (·.reply) =
        (server.history s' commands).events.map (·.reply) ∧
      (server.history s commands).state.Resembles known table table'
        (server.history s' commands).state := by
  -- on the commands from the end, as the state that a command meets comes from all before it
  induction commands using List.reverseRecOn with
  | nil => exact ⟨rfl, h⟩
  | append_singleton commands command ih =>
    rw [history_append] at hagree hknown ⊢
    rw [history_append]
    obtain ⟨hlast, hearlier⟩ := List.forall_mem_cons.mp hagree
    rw [List.forall_mem_append] at hcommands
    obtain ⟨hreplies, hpast⟩ := ih hcommands.1 hearlier
      fun webid ⟨event, hevent, hwebid⟩ =>
        hknown webid ⟨event, List.mem_cons_of_mem _ hevent, hwebid⟩
    obtain ⟨hreply, hstate⟩ := inStep_execute hs hpast
      (hcommands.2 command (List.mem_singleton_self command)) hlast
      fun webid hwebid => hknown webid ⟨_, List.mem_cons_self, hwebid⟩
    exact ⟨by simp only [serve, List.map_cons, hreplies, hreply], hstate⟩

/-- Two servers of one setup start without tickets and with different rules, and execute the same
commands, none of which changes the rules. If on every permission that the rules of the first are
asked about, both tables agree whether it is open to everybody, whether anybody else qualifies for
it, and which identities do of those that are verified at any time, then both servers reply the same
throughout: with the same outcomes, errors and hints, under the same ids. -/
theorem answers_reveal_no_principal [Url.DomainRules] (server : Server)
    (hs : server.strategy = .elimination)
    (start : ServerState) (hstart : start.tickets = ∅) (file : FileState)
    (cache : Option RulesCache) (commands : List Command)
    (hcommands : ∀ command ∈ commands, ∀ file, command ≠ .changeRules file)
    (hagree : server.AgreeThroughout (server.history start commands)
      (server.Verified (server.history start commands)) start.rulesInForce
      (start.withRules file cache).rulesInForce) :
    (server.history (start.withRules file cache) commands).events.map (·.reply) =
      (server.history start commands).events.map (·.reply) := by
  have hresembles : start.Resembles (server.Verified (server.history start commands))
      start.rulesInForce (start.withRules file cache).rulesInForce
      (start.withRules file cache) := by
    refine ⟨fun id => ?_, rfl, rfl, rfl, rfl, rfl⟩
    rw [ServerState.withRules, hstart]
    exact .none
  exact (inStep_history hs hresembles hcommands hagree fun _ => id).1.symm

/-- Two people may read. -/
def sampleReaders (first second : String) : RulesCache :=
  ⟨⟨.ofList [("R1", .ofList [(first, ["read"]), (second, ["read"])])]⟩, ⟨0, 0⟩, 0⟩

/-- Nobody can tell who the second reader is without being one. -/
theorem sample_readers_agree {known : String → Prop} (hbob : ¬known "bob")
    (hcarol : ¬known "carol") :
    (sampleReaders "alice" "bob").rules.AgreeOn known (sampleReaders "alice" "carol").rules
      ⟨some "R1", some ["read"]⟩ := by
  have hentry : (sampleReaders "alice" "bob").rules.listed? ⟨some "R1", some ["read"]⟩ =
      some (.ofList [("alice", ["read"]), ("bob", ["read"])]) := rfl
  have hentry' : (sampleReaders "alice" "carol").rules.listed? ⟨some "R1", some ["read"]⟩ =
      some (.ofList [("alice", ["read"]), ("carol", ["read"])]) := rfl
  have hqualified : RuleTable.qualified (.ofList [("alice", ["read"]), ("bob", ["read"])])
      ["read"] = ["alice", "bob"] := by decide +kernel
  have hqualified' : RuleTable.qualified (.ofList [("alice", ["read"]), ("carol", ["read"])])
      ["read"] = ["alice", "carol"] := by decide +kernel
  refine ⟨?_, ?_, fun webid hwebid => ?_⟩
  · rw [RuleTable.isOpen_iff hentry rfl, RuleTable.isOpen_iff hentry' rfl]
    decide +kernel
  · simp only [RuleTable.qualifies_iff hentry rfl, RuleTable.qualifies_iff hentry' rfl,
      hqualified, hqualified']
    exact iff_of_true ⟨"alice", List.mem_cons_self⟩ ⟨"alice", List.mem_cons_self⟩
  · have hnotBob : webid ≠ "bob" := fun h => hbob (h ▸ hwebid)
    have hnotCarol : webid ≠ "carol" := fun h => hcarol (h ▸ hwebid)
    simp [RuleTable.qualifies_iff hentry rfl, RuleTable.qualifies_iff hentry' rfl, hqualified,
      hqualified', hnotBob, hnotCarol]

/-- One reader asks and is granted, in the same words whoever the other reader is. -/
theorem sample_answers :
    let server := sample (.derived .rules)
    let commands := [.openTicket [⟨some "R1", some ["read"]⟩],
      .negotiate offline (sampleResume (sampleId 0) "alice")]
    let start := (∅ : ServerState).withRules .absent (sampleReaders "alice" "bob")
    let other := start.withRules .absent (sampleReaders "alice" "carol")
    let past := server.history start commands
    server.strategy = .elimination ∧ start.tickets = ∅ ∧
      (∀ command ∈ commands, ∀ file, command ≠ .changeRules file) ∧
      server.AgreeThroughout past (server.Verified past) start.rulesInForce other.rulesInForce ∧
      (server.history other commands).events.map (·.reply) = past.events.map (·.reply) := by
  intro server commands start other past
  have hcommands : ∀ command ∈ commands, ∀ file, command ≠ .changeRules file := by
    simp [commands]
  have hverified : past.events.flatMap (fun e => server.identities e.before e.command) =
      ["alice"] := by decide +kernel
  have hquestions : past.events.flatMap (fun e => server.questions e.before e.command) =
      [[⟨some "R1", some ["read"]⟩]] := by decide +kernel
  have hagree : server.AgreeThroughout past (server.Verified past) start.rulesInForce
      other.rulesInForce := by
    rintro event hevent permissions hpermissions p ⟨before, after, heq, -⟩
    have hasked : permissions ∈ past.events.flatMap fun e => server.questions e.before e.command :=
      List.mem_flatMap.mpr ⟨event, hevent, hpermissions⟩
    rw [hquestions, List.mem_singleton] at hasked
    have hmem : p ∈ permissions := heq ▸ List.mem_append_right _ List.mem_cons_self
    rw [hasked, List.mem_singleton] at hmem
    rw [hmem]
    refine sample_readers_agree ?_ ?_ <;> intro hknown <;>
      simpa [hverified] using List.mem_flatMap.mpr hknown
  exact ⟨rfl, rfl, hcommands, hagree,
    answers_reveal_no_principal server rfl start rfl .absent _ commands hcommands hagree⟩

end Server

end UserManagedAccess
