import UserManagedAccess.Proofs.PathIndependence
import UserManagedAccess.Proofs.StoredTickets

/-! What a round gives away that does not grant. The hints are exactly what the ticket, as it is
stored, has left to prove, and whoever proves all of that is granted. -/
namespace UserManagedAccess

private theorem nodup_eraseDups {α : Type} [BEq α] [LawfulBEq α] :
    (items : List α) → items.eraseDups.Nodup
  | [] => List.nodup_nil
  | first :: rest => by
    have hrest := nodup_eraseDups (rest.filter fun item => !item == first)
    have hfirst : first ∉ (rest.filter fun item => !item == first).eraseDups := by
      simp [List.mem_eraseDups]
    rw [List.eraseDups_cons]
    exact List.nodup_cons.mpr ⟨hfirst, hrest⟩
  termination_by items => items.length
  decreasing_by exact Nat.lt_succ_of_le (List.length_filter_le _ _)

/-- Under this claim name, the condition is about access to a source. -/
def Condition.IsAboutSource (p : Condition) (name : String) : Prop :=
  name = ClaimName.sourceAccess ∧ ∃ issuer derivationId, p = .sourceAccess issuer derivationId

namespace Requirements

theorem mem_conditions_iff {r : Requirements} {name : String} {p : Condition} :
    p ∈ r.conditions name ↔ ∃ listed, (name, listed) ∈ r.claims.entries ∧ p ∈ listed := by
  simp only [← KeyMap.get?_eq_some_iff_mem, conditions]
  cases r.claims.get? name <;> simp

theorem exists_condition_of_not_isEmpty {r : Requirements} (hr : r.Tidy)
    (h : r.isEmpty = false) : ∃ name p, p ∈ r.conditions name := by
  cases hentries : r.claims.entries with
  | nil => simp [isEmpty, KeyMap.isEmpty, hentries] at h
  | cons entry rest =>
    have hentry : entry ∈ r.claims.entries := hentries ▸ List.mem_cons_self
    obtain ⟨p, hp⟩ := List.exists_mem_of_ne_nil _ (hr entry hentry)
    exact ⟨entry.1, p, mem_conditions_iff.mpr ⟨entry.2, hentry, hp⟩⟩

end Requirements

namespace Ticket

/-- Some permission still has the condition under a claim name. -/
def Lacks (ticket : Ticket) (name : String) (p : Condition) : Prop :=
  ∃ r ∈ ticket.required, p ∈ r.conditions name

/-- The hints name what a ticket lacks, all of it, and each thing once. -/
structure Hints (ticket : Ticket) (wanted : List WantedClaim) : Prop where
  ne_nil : wanted ≠ []
  nodup : wanted.Nodup
  source_iff : ∀ issuer derivationId, .ofSource issuer derivationId ∈ wanted ↔
    ticket.Lacks ClaimName.sourceAccess (.sourceAccess issuer derivationId)
  claim_iff : ∀ name, .claim name ∈ wanted ↔ ∃ p, ticket.Lacks name p ∧ ¬p.IsAboutSource name
  eq_source_or_claim : ∀ hint ∈ wanted,
    (∃ issuer derivationId, hint = .ofSource issuer derivationId) ∨ ∃ name, hint = .claim name

/-! ## Hints -/

theorem hint_of_isAboutSource {name : String} {p : Condition} (h : p.IsAboutSource name) :
    ∃ issuer derivationId, p = .sourceAccess issuer derivationId ∧
      hint name p = .ofSource issuer derivationId := by
  obtain ⟨rfl, issuer, derivationId, rfl⟩ := h
  exact ⟨issuer, derivationId, rfl, by simp [hint]⟩

theorem hint_of_not_isAboutSource {name : String} {p : Condition} (h : ¬p.IsAboutSource name) :
    hint name p = .claim name := by
  cases p with
  | sourceAccess issuer derivationId =>
    have hname : name ≠ ClaimName.sourceAccess := fun hname => h ⟨hname, _, _, rfl⟩
    exact if_neg hname
  | any | equals | oneOf => rfl

theorem hint_eq_ofSource_iff {name issuer derivationId : String} {p : Condition} :
    hint name p = .ofSource issuer derivationId ↔
      name = ClaimName.sourceAccess ∧ p = .sourceAccess issuer derivationId := by
  by_cases habout : p.IsAboutSource name
  · obtain ⟨i, d, rfl, hhint⟩ := hint_of_isAboutSource habout
    rw [hhint]
    simp [habout.1, WantedClaim.ofSource]
  · rw [hint_of_not_isAboutSource habout]
    refine ⟨fun h => (nomatch h), ?_⟩
    rintro ⟨rfl, rfl⟩
    exact absurd ⟨rfl, _, _, rfl⟩ habout

theorem hint_eq_claim_iff {name claim : String} {p : Condition} :
    hint name p = .claim claim ↔ name = claim ∧ ¬p.IsAboutSource name := by
  by_cases habout : p.IsAboutSource name
  · obtain ⟨i, d, rfl, hhint⟩ := hint_of_isAboutSource habout
    rw [hhint]
    simp [habout, WantedClaim.ofSource]
  · simp [hint_of_not_isAboutSource habout, habout]

/-- There is a hint at each condition that is left, and no other. -/
theorem mem_wantedClaims {ticket : Ticket} {wanted : WantedClaim} :
    wanted ∈ ticket.wantedClaims ↔ ∃ name p, ticket.Lacks name p ∧ hint name p = wanted := by
  simp only [wantedClaims, List.mem_eraseDups, List.mem_flatMap, List.mem_map, Lacks,
    Requirements.mem_conditions_iff]
  constructor
  · rintro ⟨r, hr, ⟨name, listed⟩, hentry, p, hp, rfl⟩
    exact ⟨name, p, ⟨r, hr, listed, hentry, hp⟩, rfl⟩
  · rintro ⟨name, p, ⟨r, hr, listed, hentry, hp⟩, rfl⟩
    exact ⟨r, hr, (name, listed), hentry, p, hp, rfl⟩

/-- The hints at what a ticket lacks, if it lacks something. -/
theorem hints_wantedClaims {ticket : Ticket} {name : String} {p : Condition}
    (h : ticket.Lacks name p) : ticket.Hints ticket.wantedClaims where
  ne_nil := List.ne_nil_of_mem (mem_wantedClaims.mpr ⟨name, p, h, rfl⟩)
  nodup := nodup_eraseDups _
  source_iff issuer derivationId := by
    simp only [mem_wantedClaims, hint_eq_ofSource_iff]
    constructor
    · rintro ⟨_, _, hlacks, rfl, rfl⟩
      exact hlacks
    · exact fun hlacks => ⟨_, _, hlacks, rfl, rfl⟩
  claim_iff claim := by
    simp only [mem_wantedClaims, hint_eq_claim_iff]
    constructor
    · rintro ⟨_, q, hlacks, rfl, habout⟩
      exact ⟨q, hlacks, habout⟩
    · rintro ⟨q, hlacks, habout⟩
      exact ⟨claim, q, hlacks, rfl, habout⟩
  eq_source_or_claim wanted hwanted := by
    obtain ⟨claim, q, -, rfl⟩ := mem_wantedClaims.mp hwanted
    by_cases habout : q.IsAboutSource claim
    · obtain ⟨issuer, derivationId, -, hhint⟩ := hint_of_isAboutSource habout
      exact .inl ⟨issuer, derivationId, hhint⟩
    · exact .inr ⟨claim, hint_of_not_isAboutSource habout⟩

end Ticket

namespace Server
variable {server : Server} {s : ServerState} {around : Surroundings} {request : TokenRequest}
  {ticket : Ticket} {chain : Chain} {credentials : List Credential}

/-! ## What is left of a ticket -/

section
variable [Url.DomainRules]

theorem Follows.length_required (h : server.Follows ticket chain)
    (hs : server.strategy = .elimination) :
    ticket.required.length = 0 ∨ ticket.required.length = ticket.permissions.length := by
  rw [h.required_eq hs, List.length_map, h.permissions_eq]
  rcases server.policy.demands_length_eq_or_eq_nil chain.startedIn chain.permissions with
    hall | hnone
  · exact .inr hall
  · exact .inl (List.length_eq_zero_iff.mpr hnone)

/-- A ticket that is neither settled nor denied lacks something. -/
theorem Follows.exists_lacks (h : server.Follows ticket chain)
    (hs : server.strategy = .elimination) (hunsettled : ticket.isSettled = false)
    (hlong : ¬ticket.required.length < ticket.permissions.length) :
    ∃ name p, ticket.Lacks name p := by
  have hlength : ticket.required.length = ticket.permissions.length := by
    have := h.length_required hs
    omega
  have hsome : ∃ r ∈ ticket.required, r.isEmpty = false := by
    simpa [Ticket.isSettled, hlength] using hunsettled
  obtain ⟨r, hr, hnonempty⟩ := hsome
  have htidy : r.Tidy := by
    rw [h.required_eq hs] at hr
    obtain ⟨demand, -, rfl⟩ := List.mem_map.mp hr
    exact Requirements.tidy_eliminate demand _
  obtain ⟨name, p, hp⟩ := Requirements.exists_condition_of_not_isEmpty htidy hnonempty
  exact ⟨name, p, r, hr, hp⟩

/-- The credentials prove a value for everything that a ticket lacks. -/
def Supplies (server : Server) (around : Surroundings) (credentials : List Credential)
    (ticket : Ticket) : Prop :=
  ∀ name p, ticket.Lacks name p → ∃ c ∈ credentials, ∃ found,
    server.verified around c = .ok found ∧ ∃ value ∈ found.values name, p.isMetBy value = true

/-- What is supplied settles a ticket that lacked it. -/
theorem isSettled_of_supplies (hs : server.strategy = .elimination)
    (hlength : ticket.required.length = ticket.permissions.length) {name : String} {p : Condition}
    (hlacks : ticket.Lacks name p) (hsupplies : server.Supplies around credentials ticket)
    {claims : Claims} (hclaims : server.provenClaims around credentials = .ok claims) :
    (server.credited ticket claims).isSettled = true := by
  have hmet (name : String) (p : Condition) (h : ticket.Lacks name p) :
      ∃ value ∈ claims.values name, p.isMetBy value = true := by
    obtain ⟨c, hc, found, hfound, value, hvalue, hp⟩ := hsupplies name p h
    exact ⟨value, (mem_provenClaims server around hclaims name value).mpr
      ⟨c, hc, found, hfound, hvalue⟩, hp⟩
  have hsome : claims.isEmpty = false := by
    obtain ⟨value, hvalue, -⟩ := hmet name p hlacks
    refine Bool.eq_false_iff.mpr fun hempty => ?_
    rw [Claims.isEmpty_iff.mp hempty name] at hvalue
    cases hvalue
  have hnone : ∀ r ∈ ticket.required, r.MetBy (ticket.provided.merge claims) := by
    intro r hr name p hp
    obtain ⟨value, hvalue, hvalue'⟩ := hmet name p ⟨r, hr, hp⟩
    refine List.any_eq_true.mpr ⟨value, ?_, hvalue'⟩
    rw [Claims.values_merge]
    exact List.mem_append_right _ hvalue
  rw [credited_of_elimination hs hsome]
  simpa [Ticket.isSettled, hlength, Requirements.isEmpty_eliminate_iff] using hnone

/-! ## Rounds -/

/-- A round that goes on with a ticket, and supplies what it lacks, grants what it is about. -/
theorem grants_of_supplies (hs : server.strategy = .elimination)
    (hlength : ticket.required.length = ticket.permissions.length)
    (hlacks : ∃ name p, ticket.Lacks name p) {id : String}
    (hstored : s.tickets.get? id = some ticket) (hresumes : server.Resumes request id credentials)
    (hverified : ∀ c ∈ credentials, ∃ found, server.verified around c = .ok found)
    (hsupplies : server.Supplies around credentials ticket) :
    ∃ grant after, (server.negotiate around request).run s = (.ok (.granted grant), after) ∧
      server.TokenFor around after grant.accessToken ticket.permissions := by
  obtain ⟨claims, hclaims⟩ := (exists_provenClaims_iff server around credentials).mpr hverified
  obtain ⟨name, p, hlacks⟩ := hlacks
  have hopening : server.opening s request = .ok ticket := by
    simp [opening, hresumes.ticket_eq, hstored]
  have hwidened : server.widened s request.scopeWords ticket = ticket := by
    rw [hresumes.scopeWords_eq]
    rfl
  have hweighed : server.weighed around s request = .ok (server.credited ticket claims) :=
    weighed_eq_ok_iff.mpr
      ⟨credentials, ticket, claims, hresumes.accept_eq, hopening, hclaims, by rw [hwidened]⟩
  have hsettled := isSettled_of_supplies hs hlength hlacks hsupplies hclaims
  refine negotiate_grants_iff.mpr ⟨_, hweighed, ?_, permissions_credited ticket claims⟩
  rw [settles_of_elimination _ _ hs, hsettled]

/-- A round that comes to a ticket which is not settled is forbidden if there is nothing to hint at,
and otherwise stores the ticket with the hints. -/
theorem run_negotiate_unsettled (hweighed : server.weighed around s request = .ok ticket)
    (hsettles : server.settles s ticket = false) :
    ((server.negotiate around request).run s).1 =
        (if (missing ticket).isEmpty then .error .forbidden
          else .ok (.needInfo ⟨s.ids.next.1, missing ticket⟩)) ∧
      ((missing ticket).isEmpty = false →
        ((server.negotiate around request).run s).2.tickets.get? s.ids.next.1 = some ticket) := by
  obtain ⟨s₁, hs₁, -, hrun⟩ := server.run_negotiate around request s
  obtain ⟨s₂, hrun₂, hs₂⟩ := server.run_resolves ticket s₁
  have hids : s₂.ids = s.ids := hs₂.ids_eq.trans hs₁.ids_eq
  rw [settles_congr hs₁.snapshot_eq, hsettles] at hrun₂
  have hask := run_askForMore ticket s₂
  rw [hids] at hask
  simp only [hweighed, conclude, Action.run_bind_of_ok hrun₂, Bool.false_eq_true,
    ↓reduceIte] at hrun
  cases hmissing : (missing ticket).isEmpty with
  | true =>
    rw [hmissing, if_pos rfl] at hask
    rw [hrun, Action.run_bind_of_error hask]
    exact ⟨rfl, fun h => Bool.noConfusion h⟩
  | false =>
    rw [hmissing, if_neg Bool.false_ne_true] at hask
    rw [hrun, Action.run_bind_of_ok hask]
    exact ⟨rfl, fun _ => KeyMap.get?_insert_self _ _ _⟩

/-- In every history, a round whose credentials are verified and that does not grant has come to a
ticket that decides on what is given away. It is forbidden exactly if requirements are missing from
the ticket. Otherwise the ticket is stored, the hints name exactly what it lacks, and a later round
that supplies all of this is granted. -/
theorem disclosure_exact (server : Server) (hs : server.strategy = .elimination)
    {start : ServerState} (hstart : start.IsInitial) (commands : List Command)
    (around : Surroundings) (request : TokenRequest) {credentials : List Credential}
    (haccept : server.accept request = .ok credentials)
    (hknown : ∀ id, request.ticket = some id →
      (server.history start commands).state.tickets.contains id = true)
    (hverified : ∀ c ∈ credentials, ∃ found, server.verified around c = .ok found)
    (hnot : ∀ grant, ((server.negotiate around request).run
      (server.history start commands).state).1 ≠ .ok (.granted grant)) :
    let past := server.history start commands
    let done := (server.negotiate around request).run past.state
    ∃ ticket, server.weighed around past.state request = .ok ticket ∧ ticket.isSettled = false ∧
      (done.1 = .error .forbidden ↔ ticket.required.length < ticket.permissions.length) ∧
      (¬ticket.required.length < ticket.permissions.length →
        ∃ demand, done.1 = .ok (.needInfo demand) ∧
          done.2.tickets.get? demand.ticket = some ticket ∧ ticket.Hints demand.wantedClaims ∧
          ∀ around' later next credentials', later.tickets.get? demand.ticket = some ticket →
            server.Resumes next demand.ticket credentials' →
            (∀ c ∈ credentials', ∃ found, server.verified around' c = .ok found) →
            server.Supplies around' credentials' ticket →
            ∃ grant after, (server.negotiate around' next).run later =
                (.ok (.granted grant), after) ∧
              server.TokenFor around' after grant.accessToken ticket.permissions) := by
  intro past done
  have htraced := server.traced_history hstart commands
  obtain ⟨ticket, hweighed⟩ : ∃ ticket, server.weighed around past.state request = .ok ticket :=
    exists_weighed_iff.mpr ⟨credentials, haccept, hknown, hverified⟩
  obtain ⟨chain, -, hfollows⟩ := follows_weighed htraced hweighed
  have hsettles : server.settles past.state ticket = false := by
    refine Bool.eq_false_iff.mpr fun hsettles => ?_
    obtain ⟨grant, after, hrun, -⟩ := negotiate_grants_iff.mpr ⟨ticket, hweighed, hsettles, rfl⟩
    exact hnot grant (congrArg Prod.fst hrun)
  have hunsettled : ticket.isSettled = false := by
    rwa [settles_of_elimination _ _ hs] at hsettles
  obtain ⟨hresult, hstored⟩ := run_negotiate_unsettled hweighed hsettles
  by_cases hshort : ticket.required.length < ticket.permissions.length
  · have hmissing : missing ticket = [] := if_pos hshort
    rw [hmissing, List.isEmpty_nil, if_pos rfl] at hresult
    exact ⟨ticket, hweighed, hunsettled, iff_of_true hresult hshort, fun h => absurd hshort h⟩
  · obtain ⟨name, p, hlacks⟩ := hfollows.exists_lacks hs hunsettled hshort
    have hhints := Ticket.hints_wantedClaims hlacks
    have hmissing : missing ticket = ticket.wantedClaims := if_neg hshort
    have hsome : (missing ticket).isEmpty = false := by
      simpa [hmissing] using hhints.ne_nil
    have hlength : ticket.required.length = ticket.permissions.length := by
      have := hfollows.length_required hs
      omega
    rw [hsome, if_neg Bool.false_ne_true, hmissing] at hresult
    have hasked : done.1 ≠ .error .forbidden := by
      rw [hresult]
      exact fun h => nomatch h
    refine ⟨ticket, hweighed, hunsettled, iff_of_false hasked hshort, fun _ => ?_⟩
    refine ⟨_, hresult, hstored hsome, hhints, ?_⟩
    intro around' later next credentials' hlater hresumes hverified' hsupplies
    exact grants_of_supplies hs hlength ⟨name, p, hlacks⟩ hlater hresumes hverified' hsupplies

end

/-- Asked for an identity in the first round, a requester who shows one is granted. -/
theorem sample_disclosure_exact :
    let server := sample (.namespaced [])
    let past := server.history ∅ [.register sampleDerived]
    let asked := (server.negotiate offline (sampleAsk [⟨some (sampleId 0), some ["read"]⟩] none)).run
      past.state
    server.strategy = .elimination ∧ (∅ : ServerState).IsInitial ∧
      asked.1 = .ok (.needInfo ⟨sampleId 1, [.claim ClaimName.webid]⟩) ∧
      ∃ ticket, ticket.permissions = [⟨some (sampleId 0), some ["read"]⟩] ∧
        asked.2.tickets.get? (sampleId 1) = some ticket ∧
        ticket.Hints [.claim ClaimName.webid] ∧
        ∃ grant after, (server.negotiate offline (sampleResume (sampleId 1) "alice")).run asked.2 =
            (.ok (.granted grant), after) ∧
          server.TokenFor offline after grant.accessToken ticket.permissions := by
  intro server past asked
  have hasked : asked.1 = .ok (.needInfo ⟨sampleId 1, [.claim ClaimName.webid]⟩) := rfl
  obtain ⟨ticket, hweighed, -, -, hdisclosed⟩ := disclosure_exact server rfl
    (⟨rfl, rfl, rfl⟩ : (∅ : ServerState).IsInitial) [.register sampleDerived] offline
    (sampleAsk [⟨some (sampleId 0), some ["read"]⟩] none) rfl (fun _ h => nomatch h)
    (fun _ hc => absurd hc List.not_mem_nil) (fun grant h => nomatch hasked.symm.trans h)
  cases hweighed
  obtain ⟨demand, hdemand, hstored, hhints, hnext⟩ := hdisclosed (by decide +kernel)
  cases hasked.symm.trans hdemand
  have hresumes : server.Resumes (sampleResume (sampleId 1) "alice") (sampleId 1)
      [⟨"alice", .unsecure⟩] := ⟨rfl, rfl, rfl⟩
  have hverified : ∀ c ∈ [(⟨"alice", .unsecure⟩ : Credential)],
      ∃ found, server.verified offline c = .ok found := by
    intro c hc
    cases List.mem_singleton.mp hc
    exact ⟨_, rfl⟩
  refine ⟨rfl, ⟨rfl, rfl, rfl⟩, hasked, _, rfl, hstored, hhints, ?_⟩
  refine hnext offline asked.2 _ _ hstored hresumes hverified fun name p hlacks => ?_
  obtain ⟨r, hr, hp⟩ := hlacks
  cases List.mem_singleton.mp hr
  obtain ⟨listed, hlisted, hp⟩ := Requirements.mem_conditions_iff.mp hp
  cases List.mem_singleton.mp hlisted
  cases List.mem_singleton.mp hp
  exact ⟨_, List.mem_singleton_self _, _, rfl, _, List.mem_singleton_self _, rfl⟩

end Server

end UserManagedAccess
