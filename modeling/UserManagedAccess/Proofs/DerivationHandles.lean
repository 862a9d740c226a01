import UserManagedAccess.Proofs.Grants

/-! Derivation handles. A scope that was asked for stays with the permissions from round to round; a
handle is made only in the round in which it is asked for. -/
namespace UserManagedAccess

namespace Permission

/-- The scope is on the list; an absent list has none. -/
def Lists (p : Permission) (scope : String) : Prop := scope ∈ p.scopes.getD []

private theorem mem_foldl_addScope {words listed : List String} {scope : String} :
    scope ∈ words.foldl addScope listed ↔ scope ∈ listed ∨ scope ∈ words := by
  induction words generalizing listed with
  | nil => simp
  | cons word rest ih =>
    rw [List.foldl_cons, ih, addScope, List.mem_cons]
    split
    · next hlisted =>
      have hword := List.contains_iff_mem.mp hlisted
      constructor
      · exact Or.imp id .inr
      · rintro (h | rfl | h)
        · exact .inl h
        · exact .inl hword
        · exact .inr h
    · simp [or_assoc]

theorem lists_withScopes {p : Permission} {words : List String} {scope : String} :
    (p.withScopes words).Lists scope ↔ p.Lists scope ∨ scope ∈ words := by
  simp [Lists, withScopes, mem_foldl_addScope]

private theorem exists_lists_map_withScopes {ps : List Permission} (hne : ps ≠ [])
    {words : List String} {scope : String} :
    (∃ p ∈ ps.map (·.withScopes words), p.Lists scope) ↔
      (∃ p ∈ ps, p.Lists scope) ∨ scope ∈ words := by
  constructor
  · rintro ⟨_, hmem, hlists⟩
    obtain ⟨p, hp, rfl⟩ := List.mem_map.mp hmem
    exact (lists_withScopes.mp hlists).imp (fun h => ⟨p, hp, h⟩) id
  · rintro (⟨p, hp, hlists⟩ | hword)
    · exact ⟨_, List.mem_map_of_mem hp, lists_withScopes.mpr (.inl hlists)⟩
    · obtain ⟨p, hp⟩ := List.exists_mem_of_ne_nil ps hne
      exact ⟨_, List.mem_map_of_mem hp, lists_withScopes.mpr (.inr hword)⟩

end Permission

namespace Chain

/-- The scope was on a list of the permissions to begin with, or a round added it. -/
def AsksFor (chain : Chain) (scope : String) : Prop :=
  (∃ p ∈ chain.requested, p.Lists scope) ∨ ∃ words ∈ chain.added, scope ∈ words

/-- What was asked for is listed, however many rounds ago that was. -/
theorem exists_lists_permissions_iff {chain : Chain} (hne : chain.requested ≠ []) {scope : String} :
    (∃ p ∈ chain.permissions, p.Lists scope) ↔ chain.AsksFor scope := by
  obtain ⟨requested, added, startedIn, pushed⟩ := chain
  simp only [permissions, AsksFor]
  simp only at hne
  induction added generalizing requested with
  | nil => simp
  | cons words rest ih =>
    rw [List.foldl_cons, ih (requested.map (·.withScopes words)) (by simpa using hne),
      Permission.exists_lists_map_withScopes hne, or_assoc]
    simp only [List.mem_cons, exists_eq_or_imp]

end Chain

/-- The scopes of a request are among those that its chain has added. -/
theorem TokenRequest.asksFor_of_mem_scopeWords {known : String → Option Chain}
    {around : Surroundings} {s : ServerState} {request : TokenRequest} {chain : Chain}
    (hchain : request.chain? known around s = some chain) {scope : String}
    (hscope : scope ∈ request.scopeWords) : chain.AsksFor scope := by
  simp only [chain?, Option.bind_eq_bind, Option.bind_eq_some_iff, Option.pure_def,
    Option.some.injEq] at hchain
  obtain ⟨base, -, credentials, -, rfl⟩ := hchain
  have hne : request.scopeWords.isEmpty = false := by
    cases hwords : request.scopeWords with
    | nil => simp [hwords] at hscope
    | cons _ _ => rfl
  refine .inr ⟨request.scopeWords, ?_, hscope⟩
  simp [Chain.push, Chain.widen, hne]

namespace Server

theorem isSome_handle? (s : ServerState) (scopes : List String) :
    (handle? s scopes).isSome = true ↔ Scope.derivationCreation ∈ scopes := by
  rw [handle?]
  split
  · next h => simpa using h
  · next h => simpa using h

/-- A handle is a new resource that may be read as a source and has none itself. -/
theorem get?_handle {s : ServerState} (hissued : s.ids.HasIssuedKeys s.resources)
    {scopes : List String} {id : String} (hid : handle? s scopes = some id) (server : Server)
    (around : Surroundings) (permissions : List Permission) :
    s.resources.get? id = none ∧
      (server.stateWith around s permissions scopes).resources.get? id = some .handle := by
  simp only [stateWith, hid, KeyMap.get?_insert_self, and_true]
  rw [handle?] at hid
  split at hid
  · cases hid
    exact hissued.next.get?_next_eq_none
  · cases hid

/-- In every history: the round that grants makes a handle exactly if it asks for one itself, while
the token lists the scope exactly if it was ever asked for in the chain. So token and handle agree
exactly if the scope was not left over from the permissions requested at first or from an earlier
round. A handle that is made is a new resource for reading derivations, derived from nothing. -/
theorem handle_iff_asked_in_last_round [Url.DomainRules] (server : Server) {start : ServerState}
    (hstart : start.IsInitial) (commands : List Command) (around : Surroundings)
    (request : TokenRequest) (permissions : List Permission) {grant : Grant} {s' : ServerState}
    (hrun : (server.negotiate around request).run (server.history start commands).state =
      (.ok (.granted grant), s'))
    (htoken : server.TokenFor around s' grant.accessToken permissions) :
    let past := server.history start commands
    ∃ chain, request.chain? (chainOf? past.events) around past.state = some chain ∧
      (grant.derivationResource.isSome = true ↔
        Scope.derivationCreation ∈ request.scopeWords) ∧
      ((∃ p ∈ permissions, p.Lists Scope.derivationCreation) ↔
        chain.AsksFor Scope.derivationCreation) ∧
      (((∃ p ∈ permissions, p.Lists Scope.derivationCreation) ↔
          grant.derivationResource.isSome = true) ↔
        (chain.AsksFor Scope.derivationCreation →
          Scope.derivationCreation ∈ request.scopeWords)) ∧
      ∀ id, grant.derivationResource = some id →
        past.state.resources.get? id = none ∧
          ∃ description, s'.resources.get? id = some description ∧
            description.scopes = [Scope.derivationRead] ∧ description.relations = none := by
  intro past
  obtain ⟨s₁, ticket, hs, hweighed, -, rfl, rfl⟩ := granted_of_negotiate hrun
  obtain ⟨chain, hchain, hfollows⟩ :=
    follows_weighed (server.traced_history hstart commands) hweighed
  cases (server.tokenFor_grantOf _ _ _ _).unique htoken
  have hissued := (server.issued_history hstart commands).resources
  rw [← hs.ids_eq, ← hs.resources_eq] at hissued
  have hhandle := isSome_handle? s₁ request.scopeWords
  have hlists : (∃ p ∈ ticket.permissions, p.Lists Scope.derivationCreation) ↔
      chain.AsksFor Scope.derivationCreation := by
    rw [hfollows.permissions_eq]
    refine Chain.exists_lists_permissions_iff fun hempty => ?_
    have hvalid := hfollows.valid
    rw [hempty] at hvalid
    cases hvalid
  refine ⟨chain, hchain, hhandle, hlists, ?_, fun id hid => ?_⟩
  · rw [hlists, grantOf, hhandle]
    exact ⟨fun h => h.mp, fun h => ⟨h, TokenRequest.asksFor_of_mem_scopeWords hchain⟩⟩
  · obtain ⟨hnone, hget⟩ := get?_handle hissued hid server around ticket.permissions
    exact ⟨hs.resources_eq ▸ hnone, _, hget, rfl, rfl⟩

private theorem sample_handle_granted :
    ∃ grant s', ((sample .all).negotiate offline (sampleAsk [⟨some "R1", some ["read"]⟩]
            (some Scope.derivationCreation))).run ((sample .all).history ∅ []).state =
        (.ok (.granted grant), s') ∧
      (sample .all).TokenFor offline s' grant.accessToken
        [⟨some "R1", some ["read", Scope.derivationCreation]⟩] ∧
      grant.derivationResource = some (sampleId 1) :=
  ⟨_, _, rfl, rfl, rfl⟩

/-- Asked for in the round that grants, the handle is there. -/
theorem sample_handle_made :
    let server := sample .all
    let past := server.history ∅ []
    let request := sampleAsk [⟨some "R1", some ["read"]⟩] (some Scope.derivationCreation)
    (∅ : ServerState).IsInitial ∧
      ∃ grant s', (server.negotiate offline request).run past.state =
          (.ok (.granted grant), s') ∧
        server.TokenFor offline s' grant.accessToken
          [⟨some "R1", some ["read", Scope.derivationCreation]⟩] ∧
        Scope.derivationCreation ∈ request.scopeWords ∧
        (∃ chain, request.chain? (chainOf? past.events) offline past.state = some chain ∧
          chain.AsksFor Scope.derivationCreation) ∧
        ∃ id description, grant.derivationResource = some id ∧
          s'.resources.get? id = some description ∧
          description.scopes = [Scope.derivationRead] ∧ description.relations = none := by
  obtain ⟨grant, s', hrun, htoken, hhandle⟩ := sample_handle_granted
  obtain ⟨chain, hchain, hasked, hlists, -, hresource⟩ :=
    handle_iff_asked_in_last_round (sample .all) ⟨rfl, rfl, rfl⟩ [] offline _ _ hrun htoken
  obtain ⟨-, description, hget, hscopes, hrelations⟩ := hresource _ hhandle
  refine ⟨⟨rfl, rfl, rfl⟩, grant, s', hrun, htoken, hasked.mp (by simp [hhandle]),
    ⟨chain, hchain, hlists.mp ⟨_, List.mem_singleton_self _, ?_⟩⟩,
    _, description, hhandle, hget, hscopes, hrelations⟩
  exact List.mem_cons_of_mem _ List.mem_cons_self

/-- Asked for in the first of two rounds, the scope is in the token and no handle is made. -/
theorem sample_handle_forgotten :
    let server := sample (.namespaced [])
    let past := server.history ∅ [.negotiate offline
      (sampleAsk [⟨some "R1", some ["read"]⟩] (some Scope.derivationCreation))]
    ∃ grant s', (server.negotiate offline (sampleResume (sampleId 0) "alice")).run past.state =
        (.ok (.granted grant), s') ∧
      server.TokenFor offline s' grant.accessToken
        [⟨some "R1", some ["read", Scope.derivationCreation]⟩] ∧
      grant.derivationResource = none :=
  ⟨_, _, rfl, rfl, rfl⟩

end Server

end UserManagedAccess
