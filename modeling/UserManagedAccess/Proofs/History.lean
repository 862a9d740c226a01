import UserManagedAccess.Proofs.FreshIds
import UserManagedAccess.Proofs.Round

/-! Histories of a server: commands that are executed one after the other, and the replies to them.
All ids under which a server stores something are its own. -/
namespace UserManagedAccess

/-- What a server may be asked to do, and what may happen to its file with the rules. -/
inductive Command where
  | negotiate (around : Surroundings) (request : TokenRequest)
  | openTicket (permissions : List Permission)
  | register (description : Resource)
  | unregister (id : String)
  | introspect (around : Surroundings) (token : String)
  | changeRules (file : FileState)

inductive Reply where
  | negotiated (result : Except Error Outcome)
  | opened (result : Except Error (Option String))
  | registered (result : Except Error String)
  | unregistered (result : Except Error Unit)
  | introspected (result : Except Error BearerToken)
  | none

/-- A command, the state that it met, and the reply. -/
structure Event where
  before : ServerState
  command : Command
  reply : Reply

/-- The state that was reached and how, the latest event first. -/
structure History where
  state : ServerState
  events : List Event

namespace Server

section
variable [Url.DomainRules]

def execute (server : Server) (s : ServerState) : Command → Reply × ServerState
  | .negotiate around request => ((server.negotiate around request).run s).map .negotiated id
  | .openTicket permissions => ((server.openTicket permissions).run s).map .opened id
  | .register description => ((register description).run s).map .registered id
  | .unregister id => ((unregister id).run s).map .unregistered fun s' => s'
  | .introspect around token => ((server.introspect around token).run s).map .introspected id
  | .changeRules file => (.none, { s with rulesFile := file })

def serve (server : Server) (past : History) (command : Command) : History :=
  let done := server.execute past.state command
  ⟨done.2, ⟨past.state, command, done.1⟩ :: past.events⟩

/-- The history of a server that starts in a state and executes commands. -/
def history (server : Server) (start : ServerState) (commands : List Command) : History :=
  commands.foldl server.serve ⟨start, []⟩

/-- What holds at the start and is kept by every command holds in every history. -/
theorem history_induction {server : Server} {start : ServerState} {motive : History → Prop}
    (base : motive ⟨start, []⟩)
    (step : ∀ past command, motive past → motive (server.serve past command))
    (commands : List Command) : motive (server.history start commands) := by
  rw [history]
  generalize (⟨start, []⟩ : History) = past at base
  induction commands generalizing past with
  | nil => exact base
  | cons command rest ih => exact ih _ (step past command base)

end

/-! ## What the other commands do to the state -/

/-- A ticket is opened under a fresh id unless its permissions are not valid or granted as they
are. -/
theorem openTicket_cases (server : Server) (permissions : List Permission) (s : ServerState) :
    ∃ s', s.Consulted s' ∧
      ((∃ result, (server.openTicket permissions).run s = (result, s') ∧
          ((∃ e, Permission.validateAll permissions = .error e ∧ result = .error e) ∨
            Permission.validateAll permissions = .ok () ∧
              server.settles s (server.freshTicket s permissions) = true ∧ result = .ok none)) ∨
        server.settles s (server.freshTicket s permissions) = false ∧
          Permission.validateAll permissions = .ok () ∧
          (server.openTicket permissions).run s =
            (.ok (some s'.ids.next.1),
              { s' with
                ids := s'.ids.next.2
                tickets :=
                  s'.tickets.insert s'.ids.next.1 (server.freshTicket s permissions) })) := by
  cases hvalid : Permission.validateAll permissions with
  | error e =>
    exact ⟨s, .same, .inl ⟨.error e,
      Action.run_bind_of_error (Action.run_liftExcept_of_eq hvalid s), .inl ⟨e, rfl, rfl⟩⟩⟩
  | ok =>
    obtain ⟨s₁, hrun₁, hs₁⟩ := server.run_newTicket permissions s
    obtain ⟨s₂, hrun₂, hs₂⟩ := server.run_resolves (server.freshTicket s permissions) s₁
    rw [settles_congr hs₁.snapshot_eq] at hrun₂
    have hrun : (server.openTicket permissions).run s = _ :=
      (Action.run_bind_of_ok (Action.run_liftExcept_of_eq hvalid s)).trans
        ((Action.run_bind_of_ok hrun₁).trans (Action.run_bind_of_ok hrun₂))
    refine ⟨s₂, hs₁.trans hs₂, ?_⟩
    cases hsettles : server.settles s (server.freshTicket s permissions) with
    | true =>
      rw [hsettles] at hrun
      exact .inl ⟨.ok none, hrun, .inr ⟨rfl, rfl, rfl⟩⟩
    | false =>
      rw [hsettles] at hrun
      exact .inr ⟨rfl, rfl, hrun.trans (Action.run_bind_of_ok (run_storeTicket _ s₂))⟩

theorem run_register [Url.DomainRules] (description : Resource) (s : ServerState) :
    (register description).run s =
      match description.validate with
      | .ok () =>
        (.ok s.ids.next.1,
          { s with
            ids := s.ids.next.2
            resources := s.resources.insert s.ids.next.1 description })
      | .error e => (.error e, s) := by
  rw [register]
  cases hvalid : description.validate with
  | error e => exact Action.run_bind_of_error (Action.run_liftExcept_of_eq rfl s)
  | ok =>
    exact (Action.run_bind_of_ok (Action.run_liftExcept_of_eq rfl s)).trans
      (run_storeResource description s)

theorem run_unregister (id : String) (s : ServerState) :
    (unregister id).run s =
      (if s.resources.contains id then .ok () else .error (.notFound (.resource id)),
        { s with resources := s.resources.erase id }) := by
  rw [unregister, Action.run_bind_of_ok (Action.run_perform (.deleteResource id) s)]
  change Action.run (if !s.resources.contains id then throw (.notFound (.resource id)) else pure ())
    { s with resources := s.resources.erase id } = _
  cases s.resources.contains id <;> rfl

/-- Reading a token may throw it away, and touches nothing else. -/
theorem readToken_cases (server : Server) (around : Surroundings) (form : TokenForm)
    (text : String) (s : ServerState) :
    ∃ result tokens, (server.readToken around form text).run s = (result, { s with tokens }) ∧
      (tokens = s.tokens ∨ tokens = s.tokens.erase text) := by
  cases form with
  | signed => exact ⟨_, s.tokens, Action.run_liftExcept _ s, .inl rfl⟩
  | kept =>
    simp only [readToken]
    rw [Action.run_bind_of_ok (Action.run_perform (.findToken text) s)]
    simp only [Operation.run]
    cases s.tokens.get? text with
    | none => exact ⟨_, s.tokens, rfl, .inl rfl⟩
    | some kept =>
      simp only
      split
      · exact ⟨_, s.tokens.erase text, rfl, .inr rfl⟩
      · exact ⟨_, s.tokens, rfl, .inl rfl⟩

/-- Looking into a token takes an id at most, besides what reading it does. -/
theorem introspect_cases (server : Server) (around : Surroundings) (text : String)
    (s : ServerState) :
    ∃ tokens ids, ((server.introspect around text).run s).2 = { s with tokens, ids } ∧
      (ids = s.ids ∨ ids = s.ids.next.2) ∧ (tokens = s.tokens ∨ tokens = s.tokens.erase text) := by
  obtain ⟨result, tokens, hread, htokens⟩ :=
    server.readToken_cases around server.tokenForm text s
  cases result with
  | error e =>
    exact ⟨tokens, s.ids, by rw [introspect, Action.run_bind_of_error hread], .inl rfl, htokens⟩
  | ok token =>
    refine ⟨tokens, s.ids.next.2, ?_, .inr rfl, htokens⟩
    rw [introspect, Action.run_bind_of_ok hread]
    rfl

end Server

/-! ## Ids -/

namespace ServerState

/-- Nothing has been stored yet. -/
structure IsInitial (s : ServerState) : Prop where
  tickets_eq : s.tickets = ∅
  resources_eq : s.resources = ∅
  tokens_eq : s.tokens = ∅

/-- Everything is stored under ids that were handed out. -/
structure Issued (s : ServerState) : Prop where
  tickets : s.ids.HasIssuedKeys s.tickets
  resources : s.ids.HasIssuedKeys s.resources
  tokens : s.ids.HasIssuedKeys s.tokens

theorem IsInitial.issued {s : ServerState} (h : s.IsInitial) : s.Issued where
  tickets := h.tickets_eq ▸ .empty s.ids
  resources := h.resources_eq ▸ .empty s.ids
  tokens := h.tokens_eq ▸ .empty s.ids

theorem Issued.consulted {s s' : ServerState} (h : s.Issued) (hs : s.Consulted s') :
    s'.Issued where
  tickets := by rw [hs.ids_eq, hs.tickets_eq]; exact h.tickets
  resources := by rw [hs.ids_eq, hs.resources_eq]; exact h.resources
  tokens := by rw [hs.ids_eq, hs.tokens_eq]; exact h.tokens

theorem Issued.openTicket {s : ServerState} (h : s.Issued) (ticket : Ticket) :
    { s with
      ids := s.ids.next.2
      tickets := s.tickets.insert s.ids.next.1 ticket }.Issued :=
  ⟨h.tickets.insert_next ticket, h.resources.next, h.tokens.next⟩

theorem Issued.grant {s : ServerState} (h : s.Issued) (server : Server) (around : Surroundings)
    (permissions : List Permission) (scopes : List String) :
    (server.stateWith around s permissions scopes).Issued := by
  have htokens : s.ids.next.2.HasIssuedKeys (server.tokensWith around s permissions) := by
    rw [Server.tokensWith]
    split
    · exact h.tokens.next
    · exact h.tokens.insert_next _
  simp only [Server.stateWith, Server.handle?]
  split
  · next id hid =>
    split at hid
    · cases hid
      exact ⟨h.tickets.next.next, h.resources.next.insert_next _, htokens.next⟩
    · cases hid
  · exact ⟨h.tickets.next, h.resources.next, htokens⟩

end ServerState

private theorem TokenRequest.get?_remaining {request : TokenRequest} {tickets : KeyMap Ticket}
    {id : String} {ticket : Ticket} (h : (request.remaining tickets).get? id = some ticket) :
    tickets.get? id = some ticket := by
  rw [remaining] at h
  split at h
  · rw [KeyMap.get?_erase] at h
    split at h
    · cases h
    · exact h
  · exact h

/-- Tickets that are left by a request, whether it was acceptable or not, were there before. -/
theorem TokenRequest.get?_of_left {request : TokenRequest} {accepted : Bool}
    {tickets left : KeyMap Ticket}
    (hleft : left = if accepted then request.remaining tickets else tickets) {id : String}
    {ticket : Ticket} (h : left.get? id = some ticket) : tickets.get? id = some ticket := by
  rw [hleft] at h
  split at h
  · exact get?_remaining h
  · exact h

namespace Server
variable [Url.DomainRules]

theorem issued_execute (server : Server) {s : ServerState} (h : s.Issued) (command : Command) :
    (server.execute s command).2.Issued := by
  cases command with
  | negotiate around request =>
    obtain ⟨s', hs, htickets, hcases⟩ := server.negotiate_cases around request s
    have h' : s'.Issued := by
      refine ⟨?_, by rw [hs.ids_eq, hs.resources_eq]; exact h.resources,
        by rw [hs.ids_eq, hs.tokens_eq]; exact h.tokens⟩
      intro id ticket hid
      rw [hs.ids_eq]
      exact h.tickets id ticket (TokenRequest.get?_of_left htickets hid)
    simp only [execute, Prod.map_snd, id_eq]
    rcases hcases with ⟨e, hrun, -⟩ | ⟨ticket, -, -, hrun⟩ | ⟨ticket, -, -, hrun⟩ <;> rw [hrun]
    · exact h'
    · exact h'.grant server around ticket.permissions request.scopeWords
    · exact h'.openTicket ticket
  | openTicket permissions =>
    obtain ⟨s', hs, hcases⟩ := server.openTicket_cases permissions s
    simp only [execute, Prod.map_snd, id_eq]
    rcases hcases with ⟨_, hrun, -⟩ | ⟨-, -, hrun⟩ <;> rw [hrun]
    · exact h.consulted hs
    · exact (h.consulted hs).openTicket _
  | register description =>
    simp only [execute, Prod.map_snd, id_eq, run_register]
    split
    · exact ⟨h.tickets.next, h.resources.insert_next description, h.tokens.next⟩
    · exact h
  | unregister id =>
    simp only [execute, Prod.map_snd, run_unregister]
    exact ⟨h.tickets, h.resources.erase id, h.tokens⟩
  | introspect around token =>
    obtain ⟨tokens, ids, hstate, hids, hleft⟩ := server.introspect_cases around token s
    have htokens : s.ids.HasIssuedKeys tokens := by
      rcases hleft with rfl | rfl
      · exact h.tokens
      · exact h.tokens.erase token
    simp only [execute, Prod.map_snd, id_eq, hstate]
    rcases hids with rfl | rfl
    · exact ⟨h.tickets, h.resources, htokens⟩
    · exact ⟨h.tickets.next, h.resources.next, htokens.next⟩
  | changeRules file => exact ⟨h.tickets, h.resources, h.tokens⟩

theorem issued_history (server : Server) {start : ServerState} (h : start.IsInitial)
    (commands : List Command) : (server.history start commands).state.Issued :=
  history_induction (motive := fun past => past.state.Issued) h.issued
    (fun _ command hpast => server.issued_execute hpast command) commands

end Server

end UserManagedAccess
