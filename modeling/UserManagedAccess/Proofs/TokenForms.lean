import UserManagedAccess.Proofs.Grants
import UserManagedAccess.Proofs.History
import UserManagedAccess.Proofs.MintedTokens
import UserManagedAccess.Proofs.RsaSignatures
import UserManagedAccess.Server.Startup

/-! The two forms of tokens. A server that keeps its tokens does step by step what it would do if it
signed them, but for the texts of the tokens. Asked about a token that is good, it makes the same
signed statement in both forms. -/
namespace UserManagedAccess

/-! ## What is seen without the tokens -/

def ServerState.withoutTokens (s : ServerState) : ServerState := { s with tokens := ∅ }

def Grant.withoutToken (grant : Grant) : Grant := { grant with accessToken := "" }

def Outcome.withoutToken : Outcome → Outcome
  | .granted grant => .granted grant.withoutToken
  | .needInfo demand => .needInfo demand

def Reply.withoutToken : Reply → Reply
  | .negotiated result => .negotiated (result.map Outcome.withoutToken)
  | reply => reply

def Event.withoutTokens (event : Event) : Event :=
  ⟨event.before.withoutTokens, event.command, event.reply.withoutToken⟩

/-- All states and replies, but for the tokens that are kept and the texts of those handed out. -/
def History.withoutTokens (past : History) : History :=
  ⟨past.state.withoutTokens, past.events.map Event.withoutTokens⟩

theorem ServerState.eq_of_withoutTokens_eq {s s' : ServerState}
    (h : s.withoutTokens = s'.withoutTokens) :
    s' = { s with tokens := s'.tokens } := by
  cases s
  cases s'
  simp only [withoutTokens, mk.injEq] at h ⊢
  simp [h]

/-- The operations on the tokens that are kept. -/
def Operation.IsOnTokens : Operation → Prop
  | .findToken _ | .putToken _ _ | .deleteToken _ => True
  | _ => False

/-- Of the other operations none tells states apart that differ in tokens only. -/
theorem Operation.run_congr (op : Operation) (hop : ¬ op.IsOnTokens) {s s' : ServerState}
    (hs : s.withoutTokens = s'.withoutTokens) :
    (op.run s).1 = (op.run s').1 ∧ (op.run s).2.withoutTokens = (op.run s').2.withoutTokens := by
  rw [ServerState.eq_of_withoutTokens_eq hs]
  cases op with
  | currentRules =>
    constructor
    · simp only [run]
      split <;> rfl
    · cases hcache : s.rulesCache <;> simp [run, hcache, ServerState.withoutTokens]
  | findToken | putToken | deleteToken => exact absurd trivial hop
  | _ => exact ⟨rfl, rfl⟩

/-- A policy decides alike in states that differ in tokens only. -/
theorem Program.Reads.run_congr {α : Type} {data : PolicyData Id} {p : Program α} {a : α}
    (hp : p.Reads data a) {s s' : ServerState} (hdata : s.snapshot = data)
    (hs : s.withoutTokens = s'.withoutTokens) :
    (p.run s).1 = (p.run s').1 ∧ (p.run s).2.withoutTokens = (p.run s').2.withoutTokens := by
  induction hp generalizing s s' with
  | done a => exact ⟨rfl, hs⟩
  | @rules next a _ ih =>
    -- both runs go on with the rules of the first state
    subst hdata
    obtain ⟨hrules, hleft⟩ := Operation.run_congr .currentRules not_false hs
    have hanswer : ((next s'.rulesInForce).run s'.refreshed) =
        (next s.rulesInForce).run s'.refreshed := by
      rw [ServerState.rulesInForce, ServerState.rulesInForce, hrules]
    have hsnapshot : s.refreshed.snapshot = s.snapshot :=
      ServerState.Consulted.snapshot_eq (.refreshed : s.Consulted s.refreshed)
    change ((next s.rulesInForce).run s.refreshed).1 = ((next s'.rulesInForce).run s'.refreshed).1 ∧
      ((next s.rulesInForce).run s.refreshed).2.withoutTokens =
        ((next s'.rulesInForce).run s'.refreshed).2.withoutTokens
    rw [hanswer]
    exact ih hsnapshot hleft
  | @resource id next a _ ih =>
    subst hdata
    have hfound : s'.resources = s.resources := by rw [ServerState.eq_of_withoutTokens_eq hs]
    change ((next (s.resources.get? id)).run s).1 = ((next (s'.resources.get? id)).run s').1 ∧
      ((next (s.resources.get? id)).run s).2.withoutTokens =
        ((next (s'.resources.get? id)).run s').2.withoutTokens
    rw [hfound]
    exact ih _ rfl rfl hs

/-! ## Actions that agree -/

namespace Action
variable {α β γ δ : Type}

/-- From states that differ in tokens only, both actions lead to such states, and what is seen of
their results is the same. -/
def Agree (seen : α → β) (x y : Action α) : Prop :=
  ∀ s s' : ServerState, s.withoutTokens = s'.withoutTokens →
    (x.run s).1.map seen = (y.run s').1.map seen ∧
      (x.run s).2.withoutTokens = (y.run s').2.withoutTokens

theorem Agree.bind {seen : α → β} {seen' : γ → δ} {x y : Action α} {f g : α → Action γ}
    (h : x.Agree seen y) (hfg : ∀ a b, seen a = seen b → (f a).Agree seen' (g b)) :
    (x >>= f).Agree seen' (y >>= g) := by
  intro s s' hs
  have hstep := h s s' hs
  rw [run_bind, run_bind]
  generalize x.run s = done at hstep ⊢
  generalize y.run s' = done' at hstep ⊢
  obtain ⟨result, left⟩ := done
  obtain ⟨result', left'⟩ := done'
  obtain ⟨hresult, hleft⟩ := hstep
  cases result with
  | error e =>
    cases result' with
    | error e' =>
      cases hresult
      exact ⟨rfl, hleft⟩
    | ok b => cases hresult
  | ok a =>
    cases result' with
    | error e' => cases hresult
    | ok b => exact hfg a b (Except.ok.inj hresult) left left' hleft

/-- An action with which states that differ in tokens only go on as such. -/
def IgnoresTokens (x : Action α) : Prop := x.Agree id x

theorem IgnoresTokens.bind {seen : γ → δ} {x : Action α} (h : x.IgnoresTokens)
    {f g : α → Action γ} (hfg : ∀ a, (f a).Agree seen (g a)) :
    (x >>= f).Agree seen (x >>= g) :=
  Agree.bind h fun a b hab => by
    cases (hab : a = b)
    exact hfg a

theorem IgnoresTokens.run_congr {x : Action α} (h : x.IgnoresTokens) {s s' : ServerState}
    (hs : s.withoutTokens = s'.withoutTokens) :
    (x.run s).1 = (x.run s').1 ∧ (x.run s).2.withoutTokens = (x.run s').2.withoutTokens := by
  obtain ⟨hresult, hleft⟩ := h s s' hs
  rw [Except.map_id, id, id] at hresult
  exact ⟨hresult, hleft⟩

theorem agree_pure {seen : α → β} {a b : α} (h : seen a = seen b) :
    (pure a : Action α).Agree seen (pure b) :=
  fun _ _ hs => ⟨congrArg Except.ok h, hs⟩

theorem ignoresTokens_pure (a : α) : (pure a : Action α).IgnoresTokens := agree_pure rfl

theorem ignoresTokens_throw (e : Error) : (throw e : Action α).IgnoresTokens :=
  fun _ _ hs => ⟨rfl, hs⟩

theorem ignoresTokens_liftExcept (x : Except Error α) : (liftM x : Action α).IgnoresTokens := by
  intro s s' hs
  rw [run_liftExcept, run_liftExcept]
  exact ⟨rfl, hs⟩

theorem ignoresTokens_perform (op : Operation) (hop : ¬ op.IsOnTokens) :
    (perform op).IgnoresTokens := by
  intro s s' hs
  obtain ⟨hanswer, hleft⟩ := op.run_congr hop hs
  exact ⟨congrArg Except.ok hanswer, hleft⟩

theorem ignoresTokens_lift {p : Program α} (hp : ∀ data, ∃ a, p.Reads data a) :
    (lift p).IgnoresTokens := by
  intro s s' hs
  obtain ⟨a, ha⟩ := hp s.snapshot
  obtain ⟨hanswer, hleft⟩ := ha.run_congr rfl hs
  rw [run_lift, run_lift]
  exact ⟨congrArg Except.ok hanswer, hleft⟩

theorem ignoresTokens_fetch (fetcher : Fetcher) (m : Fetching α) :
    (fetch fetcher m).IgnoresTokens := by
  intro s s' hs
  obtain ⟨-, hleft⟩ := Operation.run_congr (.note (m fetcher).requested) not_false hs
  rw [run_fetch, run_fetch]
  exact ⟨rfl, hleft⟩

end Action

namespace Server
open UserManagedAccess.Action
variable (server : Server)

/-! ## No part of a server sees the form of its tokens -/

theorem ignoresTokens_newTicket (permissions : List Permission) :
    (server.newTicket permissions).IgnoresTokens :=
  ignoresTokens_lift fun data => ⟨_, Strategy.reads_newTicket data server.policy permissions⟩

theorem ignoresTokens_resolves (ticket : Ticket) : (server.resolves ticket).IgnoresTokens :=
  ignoresTokens_lift fun data =>
    ⟨_, Strategy.reads_resolves data server.strategy server.policy ticket⟩

theorem ignoresTokens_startingTicket (request : TokenRequest) :
    (server.startingTicket request).IgnoresTokens := by
  rw [startingTicket]
  split
  · refine (ignoresTokens_perform (.takeTicket _) not_false).bind fun found => ?_
    cases found with
    | some ticket => exact ignoresTokens_pure ticket
    | none => exact ignoresTokens_throw _
  · exact server.ignoresTokens_newTicket _
  · exact ignoresTokens_throw _

theorem ignoresTokens_expand (scopes : List String) (ticket : Ticket) :
    (server.expand scopes ticket).IgnoresTokens := by
  rw [expand]
  split
  · exact ignoresTokens_pure ticket
  · exact server.ignoresTokens_newTicket _

theorem ignoresTokens_takeCredentials [Url.DomainRules] (around : Surroundings)
    (credentials : List Credential) (ticket : Ticket) :
    (server.takeCredentials around credentials ticket).IgnoresTokens := by
  rw [takeCredentials]
  split
  · exact ignoresTokens_pure ticket
  · refine (ignoresTokens_fetch around.fetcher _).bind fun verified => ?_
    dsimp only
    split <;> exact ignoresTokens_pure _

theorem ignoresTokens_storeTicket (ticket : Ticket) : (storeTicket ticket).IgnoresTokens :=
  (ignoresTokens_perform .freshId not_false).bind fun id =>
    (ignoresTokens_perform (.putTicket id ticket) not_false).bind fun _ => ignoresTokens_pure id

theorem ignoresTokens_storeResource (description : Resource) :
    (storeResource description).IgnoresTokens :=
  (ignoresTokens_perform .freshId not_false).bind fun id =>
    (ignoresTokens_perform (.putResource id description) not_false).bind fun _ =>
      ignoresTokens_pure id

theorem ignoresTokens_askForMore (ticket : Ticket) : (askForMore ticket).IgnoresTokens := by
  intro s s' hs
  rw [ServerState.eq_of_withoutTokens_eq hs, run_askForMore, run_askForMore]
  split <;> exact ⟨rfl, rfl⟩

theorem ignoresTokens_register [Url.DomainRules] (description : Resource) :
    (register description).IgnoresTokens :=
  (ignoresTokens_liftExcept _).bind fun _ => ignoresTokens_storeResource description

theorem ignoresTokens_unregister (id : String) : (unregister id).IgnoresTokens := by
  refine (ignoresTokens_perform (.deleteResource id) not_false).bind fun found => ?_
  cases found with
  | false => exact ignoresTokens_throw _
  | true => exact ignoresTokens_pure ()

theorem ignoresTokens_openTicket (permissions : List Permission) :
    (server.openTicket permissions).IgnoresTokens := by
  refine (ignoresTokens_liftExcept _).bind fun _ => ?_
  refine (server.ignoresTokens_newTicket permissions).bind fun ticket => ?_
  refine (server.ignoresTokens_resolves ticket).bind fun settled => ?_
  cases settled with
  | true => exact ignoresTokens_pure none
  | false => exact (ignoresTokens_storeTicket ticket).bind fun _ => ignoresTokens_pure _

/-- The server with tokens of the given form. -/
def inForm (form : TokenForm) : Server := { server with tokenForm := form }

/-- The settings choose the form and nothing else by whether tokens are kept. -/
theorem ofSettings_keptByServer (settings : Settings) (keys : KeyPair) (kept : Bool) :
    ofSettings { settings with tokens := { settings.tokens with keptByServer := kept } } keys =
      (ofSettings settings keys).inForm (if kept then .kept else .signed) := rfl

section
variable [Url.DomainRules]

private theorem verifyEach_inForm (form : TokenForm) (now : Nat) (credentials : List Credential) :
    (server.inForm form).verifyEach now credentials = server.verifyEach now credentials := by
  induction credentials with
  | nil => rfl
  | cons c rest ih =>
    rw [verifyEach, verifyEach, ih]
    rfl

private theorem takeCredentials_inForm (form : TokenForm) (around : Surroundings)
    (credentials : List Credential) (ticket : Ticket) :
    (server.inForm form).takeCredentials around credentials ticket =
      server.takeCredentials around credentials ticket := by
  rw [takeCredentials, takeCredentials, verifyEach_inForm]
  rfl

private theorem weighed_inForm (form : TokenForm) (around : Surroundings) (s : ServerState)
    (request : TokenRequest) :
    (server.inForm form).weighed around s request = server.weighed around s request := by
  simp only [weighed, provenClaims, verifyEach_inForm]
  rfl

private theorem weighed_withoutTokens (around : Surroundings) (s : ServerState)
    (request : TokenRequest) :
    server.weighed around s.withoutTokens request = server.weighed around s request := by
  have hsame : s.withoutTokens.withoutTokens = s.withoutTokens := rfl
  have hrules : s.withoutTokens.rulesInForce = s.rulesInForce :=
    (Operation.run_congr .currentRules not_false hsame).1
  have hsnapshot : s.withoutTokens.snapshot = s.snapshot := by
    rw [ServerState.snapshot, hrules]
    rfl
  rw [weighed, weighed, opening]
  simp only [widened_congr hsnapshot, freshTicket_congr hsnapshot]
  rfl

end

/-- A grant takes the same ids in both forms, and the handle is the same. -/
theorem agree_grant (form form' : TokenForm) (around : Surroundings)
    (permissions : List Permission) (scopes : List String) :
    ((server.inForm form).grant around permissions scopes).Agree Grant.withoutToken
      ((server.inForm form').grant around permissions scopes) := by
  intro s s' hs
  rw [ServerState.eq_of_withoutTokens_eq hs, run_grant, run_grant]
  refine ⟨rfl, ?_⟩
  simp only [stateWith, handle?]
  split <;> rfl

theorem agree_negotiate [Url.DomainRules] (form form' : TokenForm) (around : Surroundings)
    (request : TokenRequest) :
    ((server.inForm form).negotiate around request).Agree Outcome.withoutToken
      ((server.inForm form').negotiate around request) := by
  simp only [negotiate, takeCredentials_inForm]
  refine (ignoresTokens_liftExcept (server.accept request)).bind fun credentials => ?_
  refine (server.ignoresTokens_startingTicket request).bind fun ticket => ?_
  refine (server.ignoresTokens_expand request.scopeWords ticket).bind fun ticket => ?_
  refine (server.ignoresTokens_takeCredentials around credentials ticket).bind fun ticket => ?_
  refine (server.ignoresTokens_resolves ticket).bind fun settled => ?_
  -- only a grant depends on the form, and nothing comes after it that could see its text
  cases settled with
  | true =>
    refine (server.agree_grant form form' around ticket.permissions _).bind fun g g' hg => ?_
    exact agree_pure (congrArg Outcome.granted hg)
  | false => exact (ignoresTokens_askForMore ticket).bind fun _ => agree_pure rfl

end Server

/-- The commands that look into a token. -/
def Command.IsIntrospection : Command → Prop
  | .introspect _ _ => True
  | _ => False

namespace Server

section
variable [Url.DomainRules]

/-- A command that does not look into a token is replied to alike in both forms, and leaves states
that differ in tokens only. -/
theorem execute_congr (server : Server) (form form' : TokenForm) {s s' : ServerState}
    (hs : s.withoutTokens = s'.withoutTokens) {command : Command}
    (hcommand : ¬ command.IsIntrospection) :
    ((server.inForm form).execute s command).1.withoutToken =
        ((server.inForm form').execute s' command).1.withoutToken ∧
      ((server.inForm form).execute s command).2.withoutTokens =
        ((server.inForm form').execute s' command).2.withoutTokens := by
  cases command with
  | negotiate around request =>
    obtain ⟨hresult, hleft⟩ := server.agree_negotiate form form' around request s s' hs
    exact ⟨congrArg Reply.negotiated hresult, hleft⟩
  | openTicket permissions =>
    obtain ⟨hresult, hleft⟩ := (server.ignoresTokens_openTicket permissions).run_congr hs
    exact ⟨congrArg Reply.opened hresult, hleft⟩
  | register description =>
    obtain ⟨hresult, hleft⟩ := (ignoresTokens_register description).run_congr hs
    exact ⟨congrArg Reply.registered hresult, hleft⟩
  | unregister id =>
    obtain ⟨hresult, hleft⟩ := (ignoresTokens_unregister id).run_congr hs
    exact ⟨congrArg Reply.unregistered hresult, hleft⟩
  | introspect around token => exact absurd trivial hcommand
  | changeRules file =>
    rw [ServerState.eq_of_withoutTokens_eq hs]
    exact ⟨rfl, rfl⟩

theorem serve_congr (server : Server) (form form' : TokenForm) {past past' : History}
    (h : past.withoutTokens = past'.withoutTokens) {command : Command}
    (hcommand : ¬ command.IsIntrospection) :
    ((server.inForm form).serve past command).withoutTokens =
      ((server.inForm form').serve past' command).withoutTokens := by
  obtain ⟨hstate, hevents⟩ := History.mk.inj h
  obtain ⟨hreply, hleft⟩ := server.execute_congr form form' hstate hcommand
  simp only [serve, History.withoutTokens, List.map_cons, Event.withoutTokens, hreply, hleft,
    hstate, hevents]

/-- Step by step, servers that differ in the form of their tokens do the same. -/
theorem history_congr (server : Server) (form form' : TokenForm) (start : ServerState)
    {commands : List Command} (hcommands : ∀ command ∈ commands, ¬ command.IsIntrospection) :
    ((server.inForm form).history start commands).withoutTokens =
      ((server.inForm form').history start commands).withoutTokens :=
  List.foldl_rel (r := fun past past' : History => past.withoutTokens = past'.withoutTokens) rfl
    fun command hmem _ _ h => server.serve_congr form form' h (hcommands command hmem)

end

/-! ## Tokens that were handed out -/

variable {server : Server} {around : Surroundings} {s : ServerState} {text : String}
  {permissions : List Permission}

section
variable [Url.DomainRules]

/-- Nobody but who looks into it throws a token away. -/
theorem get?_tokens_execute (hissued : s.Issued) {command : Command}
    (hcommand : ¬ command.IsIntrospection) {kept : KeptToken}
    (h : s.tokens.get? text = some kept) :
    (server.execute s command).2.tokens.get? text = some kept := by
  cases command with
  | negotiate around request =>
    obtain ⟨s', hs, -, hcases⟩ := server.negotiate_cases around request s
    have h' : s'.tokens.get? text = some kept := hs.tokens_eq ▸ h
    simp only [execute, Prod.map_snd, id_eq]
    rcases hcases with ⟨e, hrun, -⟩ | ⟨ticket, -, -, hrun⟩ | ⟨ticket, -, -, hrun⟩ <;> rw [hrun]
    · exact h'
    · rw [tokens_stateWith, tokensWith]
      split
      · exact h'
      · -- the token that is kept now has an id of its own
        refine (KeyMap.get?_insert_of_ne _ _ ?_).trans h'
        rintro rfl
        rw [hs.ids_eq, hissued.tokens.get?_next_eq_none] at h
        cases h
    · exact h'
  | openTicket permissions =>
    obtain ⟨s', hs, hcases⟩ := server.openTicket_cases permissions s
    have h' : s'.tokens.get? text = some kept := hs.tokens_eq ▸ h
    simp only [execute, Prod.map_snd, id_eq]
    rcases hcases with ⟨result, hrun, -⟩ | ⟨-, -, hrun⟩ <;> rw [hrun] <;> exact h'
  | register description =>
    simp only [execute, Prod.map_snd, id_eq, run_register]
    split <;> exact h
  | unregister id =>
    simp only [execute, Prod.map_snd, run_unregister]
    exact h
  | introspect around token => exact absurd trivial hcommand
  | changeRules file => exact h

theorem TokenFor.execute (hissued : s.Issued) {command : Command}
    (hcommand : ¬ command.IsIntrospection) (h : server.TokenFor around s text permissions) :
    server.TokenFor around (server.execute s command).2 text permissions := by
  rw [TokenFor] at h ⊢
  cases hform : server.tokenForm with
  | signed =>
    rw [hform] at h
    exact h
  | kept =>
    rw [hform] at h
    exact get?_tokens_execute hissued hcommand h

/-- Every token that was handed out in a history is a token for what was granted. -/
def HonoursGrants (server : Server) (past : History) : Prop :=
  ∀ event ∈ past.events, ∀ around request grant, event.command = .negotiate around request →
    event.reply = .negotiated (.ok (.granted grant)) →
    ∃ ticket, server.weighed around event.before request = .ok ticket ∧
      server.TokenFor around past.state grant.accessToken ticket.permissions

theorem HonoursGrants.serve {past : History} (h : server.HonoursGrants past)
    (hissued : past.state.Issued) {command : Command} (hcommand : ¬ command.IsIntrospection) :
    server.HonoursGrants (server.serve past command) := by
  intro event hevent around request grant hround hreply
  rcases List.mem_cons.mp hevent with rfl | hearlier
  · cases hround
    simp only [Server.execute, Prod.map_fst, Reply.negotiated.injEq] at hreply
    have hrun : (server.negotiate around request).run past.state =
        (.ok (.granted grant), (server.serve past (.negotiate around request)).state) :=
      Prod.ext hreply rfl
    obtain ⟨s', ticket, -, hweighed, -, rfl, hleft⟩ := granted_of_negotiate hrun
    refine ⟨ticket, hweighed, ?_⟩
    rw [hleft]
    exact server.tokenFor_grantOf around s' ticket.permissions request.scopeWords
  · obtain ⟨ticket, hweighed, htoken⟩ := h event hearlier around request grant hround hreply
    exact ⟨ticket, hweighed, htoken.execute hissued hcommand⟩

theorem honoursGrants_history (server : Server) {start : ServerState} (hstart : start.Issued)
    {commands : List Command} (hcommands : ∀ command ∈ commands, ¬ command.IsIntrospection) :
    server.HonoursGrants (server.history start commands) := by
  refine (List.foldlRecOn (motive := fun past => past.state.Issued ∧ server.HonoursGrants past)
    commands server.serve ⟨hstart, fun _ h => absurd h List.not_mem_nil⟩ ?_).2
  rintro past ⟨hissued, hhonours⟩ command hmem
  exact ⟨server.issued_execute hissued command, hhonours.serve hissued (hcommands command hmem)⟩

end

/-! ## What is said about a token that is good -/

/-- A token for permissions that is said to be active. -/
def activeToken (permissions : List Permission) : AccessToken :=
  { AccessToken.ofPermissions permissions with active := some true }

/-- Until the token ends, whoever asks about it gets a signed token for the permissions which says
that it is active, and which the server reads as such until it ends in turn. The times of tokens are
taken to be within 64 bits. -/
def Vouches (server : Server) (s : ServerState) (text : String) (permissions : List Permission)
    (ends : Int) : Prop :=
  ∀ asked : Surroundings, server.signer.Mints asked.now → asked.now < ends →
    ∃ answer, ((server.introspect asked text).run s).1 = .ok answer ∧
      ∀ now : Nat, now ≤ asked.now + server.lifetime + Jose.leeway →
        server.signer.read now answer.token = .ok (activeToken permissions)

theorem TokenFor.run_readToken (hkey : server.keys.key.SignaturesVerify .sha256)
    (hminted : server.signer.Mints around.now) (h : server.TokenFor around s text permissions)
    {asked : Surroundings} (hgood : asked.now < around.now + server.lifetime) :
    (server.readToken asked server.tokenForm text).run s = (.ok (.ofPermissions permissions), s) := by
  rw [TokenFor] at h
  cases hform : server.tokenForm with
  | signed =>
    rw [hform] at h
    obtain ⟨id, rfl⟩ := h
    have hwritable := AccessToken.isWritable_of_contract_eq_none
      (rfl : (AccessToken.ofPermissions permissions).contract = none)
    have hread : server.signer.read asked.now
        (server.signer.mint around.now id (.ofPermissions permissions)).token =
          .ok (.ofPermissions permissions) := by
      rw [TokenSigner.read_mint hminted hkey hwritable, if_neg]
      change ¬ (_ ∧ around.now + server.lifetime + Jose.leeway < asked.now)
      omega
    exact Action.run_liftExcept_of_eq hread s
  | kept =>
    rw [hform] at h
    rw [readToken, Action.run_bind_of_ok (Action.run_perform (.findToken text) s)]
    simp only [Operation.run, h, if_neg (Int.not_le.mpr hgood)]
    rfl

theorem TokenFor.vouches (hkey : server.keys.key.SignaturesVerify .sha256)
    (hminted : server.signer.Mints around.now) (h : server.TokenFor around s text permissions) :
    server.Vouches s text permissions (around.now + server.lifetime) := by
  intro asked hasked hgood
  have hwritable : (activeToken permissions).IsWritable :=
    AccessToken.isWritable_of_contract_eq_none rfl
  have hread := h.run_readToken hkey hminted hgood
  refine ⟨server.signer.mint asked.now s.ids.next.1 (activeToken permissions), ?_,
    fun now hnow => ?_⟩
  · rw [introspect, Action.run_bind_of_ok hread]
    rfl
  · rw [TokenSigner.read_mint hasked hkey hwritable, if_neg]
    change ¬ (_ ∧ asked.now + server.lifetime + Jose.leeway < now)
    omega

/-- A server that keeps its tokens does, command by command, what it does if it signs them: it makes
the same replies but for the texts of tokens, and holds the same tickets, resources, ids and rules.
In both forms it vouches for each token that it has handed out, for as long as the token is good and
with exactly the permissions that the round decided on; no token has a part in that decision. -/
theorem kept_tokens_refine_signed [Url.DomainRules] (server : Server) {start : ServerState}
    (hstart : start.Issued) (hkey : server.keys.key.SignaturesVerify .sha256)
    {commands : List Command} (hcommands : ∀ command ∈ commands, ¬ command.IsIntrospection) :
    let past := fun form => (server.inForm form).history start commands
    (past .kept).withoutTokens = (past .signed).withoutTokens ∧
      ∀ form, ∀ event ∈ (past form).events, ∀ around request grant,
        event.command = .negotiate around request →
        event.reply = .negotiated (.ok (.granted grant)) → server.signer.Mints around.now →
        ∃ ticket, server.weighed around event.before.withoutTokens request = .ok ticket ∧
          (server.inForm form).Vouches (past form).state grant.accessToken ticket.permissions
            (around.now + server.lifetime) := by
  intro past
  refine ⟨server.history_congr .kept .signed start hcommands, ?_⟩
  intro form event hevent around request grant hround hreply hminted
  obtain ⟨ticket, hweighed, htoken⟩ :=
    (server.inForm form).honoursGrants_history hstart hcommands event hevent around request grant
      hround hreply
  rw [weighed_inForm] at hweighed
  exact ⟨ticket, (server.weighed_withoutTokens around event.before request).trans hweighed,
    htoken.vouches hkey hminted⟩

/-- Asked in either form about the token that it has just handed out, a server signs that the token
is active and what it is for. -/
theorem sample_kept_tokens_refine_signed :
    let server := { sample .all with keys := ⟨"as-1", Crypto.Rsa.sampleKey⟩ }
    let permissions := [⟨some "R1", some ["read"]⟩]
    let commands := [.negotiate offline (sampleAsk permissions none)]
    let past := fun form => (server.inForm form).history ∅ commands
    (∅ : ServerState).Issued ∧ server.keys.key.SignaturesVerify .sha256 ∧
      (∀ command ∈ commands, ¬ command.IsIntrospection) ∧
      (past .kept).withoutTokens = (past .signed).withoutTokens ∧
      ∀ form, ∃ event ∈ (past form).events, ∃ grant,
        event.reply = .negotiated (.ok (.granted grant)) ∧
        (server.inForm form).Vouches (past form).state grant.accessToken permissions 1600 := by
  intro server permissions commands past
  have hstart : (∅ : ServerState).Issued := ServerState.IsInitial.issued ⟨rfl, rfl, rfl⟩
  have hkey : server.keys.key.SignaturesVerify .sha256 :=
    Crypto.Rsa.signaturesVerify_sampleKey .sha256
  have hcommands : ∀ command ∈ commands, ¬ command.IsIntrospection := by
    rintro command hcommand
    cases List.mem_singleton.mp hcommand
    exact not_false
  have hminted : server.signer.Mints offline.now := ⟨by decide, by decide⟩
  obtain ⟨hsame, hvouched⟩ := kept_tokens_refine_signed server hstart hkey hcommands
  refine ⟨hstart, hkey, hcommands, hsame, fun form => ?_⟩
  cases form with
  | signed =>
    obtain ⟨ticket, hweighed, hvouches⟩ := hvouched .signed _ List.mem_cons_self offline _ _ rfl
      rfl hminted
    cases hweighed
    exact ⟨_, List.mem_cons_self, _, rfl, hvouches⟩
  | kept =>
    obtain ⟨ticket, hweighed, hvouches⟩ := hvouched .kept _ List.mem_cons_self offline _ _ rfl rfl
      hminted
    cases hweighed
    exact ⟨_, List.mem_cons_self, _, rfl, hvouches⟩

end Server

end UserManagedAccess
