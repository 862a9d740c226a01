import UserManagedAccess.Proofs.AccessRights
import UserManagedAccess.Proofs.Grants

/-! Derived resources. A permission that names its resource is granted only with the right to read
all that the resource was derived from; one for every resource asks for no such right. -/
namespace UserManagedAccess

namespace Permission

theorem resource_of_covers {p : Permission} {id : String} {scopes : Option (List String)}
    (h : p.covers ⟨some id, scopes⟩ = true) : p.resource = none ∨ p.resource = some id := by
  cases hresource : p.resource with
  | none => exact .inl rfl
  | some id' => exact .inr ((covers_iff.mp h).1 id' hresource).symm

/-- Without a resource, something of every resource is covered. -/
theorem covers_of_resource_eq_none {p : Permission} (h : p.resource = none) (id : String) :
    p.covers ⟨some id, some []⟩ = true :=
  covers_iff.mpr ⟨by simp [h], fun _ _ => ⟨[], rfl, by simp⟩⟩

end Permission

namespace Server
variable {server : Server} {chain : Chain}

section
variable [Url.DomainRules]

/-- The right to read a source was proven. -/
def ProvesSource (server : Server) (chain : Chain) (source : Source) : Prop :=
  ∃ value, server.Proves chain ClaimName.sourceAccess value ∧
    (Policy.sourceRequirement source).isMetBy value = true

/-- Of every resource that the permissions cover, at the time when the requirements were looked up,
all sources were proven. -/
def GuardsSources (server : Server) (chain : Chain) (permissions : List Permission) : Prop :=
  ∀ id description, chain.startedIn.resources.get? id = some description →
    ∀ scopes, (∃ p ∈ permissions, p.covers ⟨some id, scopes⟩ = true) →
      ∀ source ∈ description.sources, server.ProvesSource chain source

/-- Of every resource there was, all sources were proven. -/
def ProvesAllSources (server : Server) (chain : Chain) : Prop :=
  ∀ id description, chain.startedIn.resources.get? id = some description →
    ∀ source ∈ description.sources, server.ProvesSource chain source

/-- If all that is demanded was proven, so were the sources of the resources that are named. -/
theorem guardsSources_of_named {inner : Policy} (hpolicy : server.policy = .derived inner)
    (hlength : (server.demanded chain).length = chain.permissions.length)
    (hproven : ∀ r ∈ server.demanded chain, ∀ name, ∀ p ∈ r.conditions name,
      ∃ value, server.Proves chain name value ∧ p.isMetBy value = true)
    {p : Permission} (hp : p ∈ chain.permissions) (hnamed : p.resource ≠ none) :
    server.GuardsSources chain [p] := by
  rintro id description hdescription scopes ⟨_, hmem, hcovers⟩ source hsource
  cases List.mem_singleton.mp hmem
  have hid := (Permission.resource_of_covers hcovers).resolve_left hnamed
  rw [demanded, hpolicy, Policy.demands_derived] at hlength hproven
  rw [Policy.length_withAllSources] at hlength
  obtain ⟨r, -, hmem⟩ := Policy.exists_withSources_mem (s := chain.startedIn) hlength hp
  refine hproven _ hmem ClaimName.sourceAccess _ ?_
  rw [Policy.withSources, hid]
  refine Policy.mem_conditions_requireSources.mpr (.inr ⟨rfl, source, ?_, rfl⟩)
  simpa [hdescription] using hsource

/-- If the permissions that name their resource are guarded, the others decide: each of them covers
something of every resource. -/
theorem guardsSources_iff {permissions : List Permission}
    (hnamed : ∀ p ∈ permissions, p.resource ≠ none → server.GuardsSources chain [p]) :
    server.GuardsSources chain permissions ↔
      ((∃ p ∈ permissions, p.resource = none) → server.ProvesAllSources chain) := by
  constructor
  · rintro hguards ⟨p, hp, hopen⟩ id description hdescription source hsource
    exact hguards id description hdescription (some [])
      ⟨p, hp, Permission.covers_of_resource_eq_none hopen id⟩ source hsource
  · rintro hopen id description hdescription scopes ⟨p, hp, hcovers⟩ source hsource
    by_cases hresource : p.resource = none
    · exact hopen ⟨p, hp, hresource⟩ id description hdescription source hsource
    · exact hnamed p hp hresource id description hdescription scopes
        ⟨p, List.mem_singleton_self p, hcovers⟩ source hsource

/-- In every history of a server that asks for the sources of derived resources: when a round hands
out a token, each of its permissions that names a resource was granted on proof of all sources. That
the whole token was, holds exactly if all its permissions name their resources, or all sources there
are happen to be proven; a permission for every resource passes without any. -/
theorem granted_sources_iff_resources_named (server : Server)
    (hs : server.strategy = .elimination) {inner : Policy}
    (hpolicy : server.policy = .derived inner) {start : ServerState} (hstart : start.IsInitial)
    (commands : List Command) (around : Surroundings) (request : TokenRequest)
    (permissions : List Permission)
    (hgrant : ∃ grant s',
      (server.negotiate around request).run (server.history start commands).state =
          (.ok (.granted grant), s') ∧
        server.TokenFor around s' grant.accessToken permissions) :
    let past := server.history start commands
    ∃ chain, request.chain? (chainOf? past.events) around past.state = some chain ∧
      (∀ p ∈ permissions, p.resource ≠ none → server.GuardsSources chain [p]) ∧
      (server.GuardsSources chain permissions ↔
        ((∃ p ∈ permissions, p.resource = none) → server.ProvesAllSources chain)) := by
  intro past
  obtain ⟨ticket, chain, -, hchain, hfollows, hsettles, rfl⟩ :=
    exists_chain_of_grant (server.traced_history hstart commands) hgrant
  rw [settles_of_elimination _ _ hs, hfollows.isSettled_iff hs, hfollows.permissions_eq] at hsettles
  have hnamed : ∀ p ∈ ticket.permissions, p.resource ≠ none → server.GuardsSources chain [p] := by
    rw [hfollows.permissions_eq]
    exact fun p hp => guardsSources_of_named hpolicy hsettles.1 hsettles.2 hp
  exact ⟨chain, hchain, hnamed, guardsSources_iff hnamed⟩

end

/-- A resource with one source, at another server. -/
def sampleDerived : Resource :=
  (Resource.ofScopes ["read"]).addSource ⟨"https://as-a.example/", "D1"⟩

private theorem sample_everything_granted :
    ∃ grant s', ((sample (.derived .all)).negotiate offline (sampleAsk [.everything] none)).run
          ((sample (.derived .all)).history ∅ [.register sampleDerived]).state =
        (.ok (.granted grant), s') ∧
      (sample (.derived .all)).TokenFor offline s' grant.accessToken [.everything] :=
  ⟨_, _, rfl, rfl⟩

/-- With such a resource there, a token for everything is handed out to a requester who pushed
nothing at all. -/
theorem sample_grants_everything :
    let server := sample (.derived .all)
    let past := server.history ∅ [.register sampleDerived]
    let request := sampleAsk [.everything] none
    server.strategy = .elimination ∧ server.policy = .derived .all ∧
      (∅ : ServerState).IsInitial ∧
      (∃ grant s', (server.negotiate offline request).run past.state = (.ok (.granted grant), s') ∧
        server.TokenFor offline s' grant.accessToken [.everything]) ∧
      ∃ chain, request.chain? (chainOf? past.events) offline past.state = some chain ∧
        (server.GuardsSources chain [.everything] ↔
          ((∃ p ∈ [Permission.everything], p.resource = none) →
            server.ProvesAllSources chain)) := by
  obtain ⟨chain, hchain, -, hguards⟩ := granted_sources_iff_resources_named
    (sample (.derived .all)) rfl rfl ⟨rfl, rfl, rfl⟩ _ offline _ _ sample_everything_granted
  exact ⟨rfl, rfl, ⟨rfl, rfl, rfl⟩, sample_everything_granted, chain, hchain, hguards⟩

/-- That token covers reading the resource, of which no source was proven. -/
theorem sample_everything_unguarded :
    let server := sample (.derived .all)
    let past := server.history ∅ [.register sampleDerived]
    let request := sampleAsk [.everything] none
    (∃ grant s', (server.negotiate offline request).run past.state = (.ok (.granted grant), s') ∧
        server.TokenFor offline s' grant.accessToken [.everything]) ∧
      ∃ chain, request.chain? (chainOf? past.events) offline past.state = some chain ∧
        Permission.everything.covers ⟨some (sampleId 0), some ["read"]⟩ = true ∧
        chain.startedIn.resources.get? (sampleId 0) = some sampleDerived ∧
        ∃ source ∈ sampleDerived.sources, ¬ server.ProvesSource chain source := by
  refine ⟨sample_everything_granted, _, rfl, rfl, rfl, _, List.mem_singleton_self _, ?_⟩
  rintro ⟨value, ⟨p, hp, -⟩, -⟩
  exact absurd hp List.not_mem_nil

end Server

end UserManagedAccess
