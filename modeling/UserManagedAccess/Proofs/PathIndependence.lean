import UserManagedAccess.Proofs.Ending

/-! It does not matter in how many rounds credentials are pushed, nor in which order: where
requirements are struck out, a ticket comes to the same. -/
namespace UserManagedAccess

/-- Whether a condition is met does not depend on the order of the values. -/
theorem Condition.isMetByAny_perm {p : Condition} {vs ws : List Json} (h : vs.Perm ws) :
    p.isMetByAny vs = p.isMetByAny ws := by
  rw [Bool.eq_iff_iff, isMetByAny, isMetByAny, List.any_eq_true, List.any_eq_true]
  simp only [h.mem_iff]

theorem Requirements.isEmpty_eliminate_of_isEmpty {r : Requirements} (h : r.isEmpty = true)
    (claims : Claims) : (r.eliminate claims).isEmpty = true := by
  have hentries : r.claims.entries = [] := by
    simpa [isEmpty, KeyMap.isEmpty] using h
  refine (isEmpty_eliminate_iff r claims).mpr fun name p hp => ?_
  simp [conditions, KeyMap.get?, hentries, KeyMap.findEntry] at hp

namespace Ticket

/-- Equal up to the order of the values that were proven. -/
structure Alike (ticket ticket' : Ticket) : Prop where
  permissions_eq : ticket.permissions = ticket'.permissions
  required_eq : ticket.required = ticket'.required
  perm_provided : ∀ name,
    (ticket.provided.values name).Perm (ticket'.provided.values name)

theorem Alike.isSettled_eq {ticket ticket' : Ticket} (h : ticket.Alike ticket') :
    ticket.isSettled = ticket'.isSettled := by
  rw [isSettled, isSettled, h.permissions_eq, h.required_eq]

end Ticket

/-- Equal up to the order of the values that a stored ticket holds. -/
inductive Ending.Alike : Ending → Ending → Prop
  | refused (e : Error) : Alike (.refused e) (.refused e)
  | granted (permissions : List Permission) (withHandle : Bool) :
    Alike (.granted permissions withHandle) (.granted permissions withHandle)
  | asked (wanted : List WantedClaim) {ticket ticket' : Ticket} (h : ticket.Alike ticket') :
    Alike (.asked wanted ticket) (.asked wanted ticket')

theorem Ending.Alike.eq_granted {ending : Ending} {permissions : List Permission}
    {withHandle : Bool} (h : (Ending.granted permissions withHandle).Alike ending) :
    ending = .granted permissions withHandle := by
  cases h
  rfl

namespace Server
variable {server : Server} {s s' : ServerState} {ticket ticket' : Ticket}

theorem missing_eq_of_alike (h : ticket.Alike ticket') : missing ticket = missing ticket' := by
  simp only [missing, Ticket.wantedClaims, h.permissions_eq, h.required_eq]

/-- Tickets that are alike end a round alike, whatever the states. -/
theorem verdict_alike (hs : server.strategy = .elimination) (h : ticket.Alike ticket')
    (scopes : List String) :
    (server.verdict s scopes ticket).Alike (server.verdict s' scopes ticket') := by
  simp only [verdict, settles_of_elimination _ _ hs, h.isSettled_eq, missing_eq_of_alike h,
    h.permissions_eq]
  split
  · exact .granted _ _
  · split
    · exact .refused _
    · exact .asked _ h

/-! ## Tickets that take in claims -/

variable {c d : Claims}

theorem credited_of_isEmpty (h : c.isEmpty = true) : server.credited ticket c = ticket :=
  if_pos h

theorem credited_of_elimination (hs : server.strategy = .elimination)
    (h : c.isEmpty = false) :
    server.credited ticket c =
      { ticket with
        required := ticket.required.map (·.eliminate (ticket.provided.merge c))
        provided := ticket.provided.merge c } := by
  simp [credited, h, Strategy.absorb, hs]

theorem isEmpty_eq_of_perm (h : ∀ name, (c.values name).Perm (d.values name)) :
    c.isEmpty = d.isEmpty := by
  rw [Bool.eq_iff_iff, Claims.isEmpty_iff, Claims.isEmpty_iff]
  exact forall_congr' fun name => by rw [List.eq_nil_iff_length_eq_zero, (h name).length_eq,
    ← List.eq_nil_iff_length_eq_zero]

private theorem perm_values_merge (c : Claims) {d e : Claims}
    (h : ∀ name, (d.values name).Perm (e.values name)) (name : String) :
    ((c.merge d).values name).Perm ((c.merge e).values name) := by
  simpa only [Claims.values_merge] using (h name).append_left _

private theorem eliminate_eq_of_perm (r : Requirements)
    (h : ∀ name, (c.values name).Perm (d.values name)) : r.eliminate c = r.eliminate d :=
  r.eliminate_congr fun name _ => Condition.isMetByAny_perm (h name)

/-- The order of the claims that are taken in does not matter. -/
theorem credited_alike (hs : server.strategy = .elimination) (ticket : Ticket)
    (h : ∀ name, (c.values name).Perm (d.values name)) :
    (server.credited ticket c).Alike (server.credited ticket d) := by
  have hempty := isEmpty_eq_of_perm h
  cases hc : c.isEmpty with
  | true =>
    rw [credited_of_isEmpty hc, credited_of_isEmpty (hempty.symm.trans hc)]
    exact ⟨rfl, rfl, fun _ => .rfl⟩
  | false =>
    rw [credited_of_elimination hs hc, credited_of_elimination hs (hempty.symm.trans hc)]
    have hmerged := perm_values_merge ticket.provided h
    exact ⟨rfl, List.map_congr_left fun r _ => eliminate_eq_of_perm r hmerged, hmerged⟩

/-- Claims may be taken in one after the other, or together. -/
theorem credited_credited_alike (hs : server.strategy = .elimination) (ticket : Ticket)
    {both : Claims} (h : ∀ name, both.values name = c.values name ++ d.values name) :
    (server.credited (server.credited ticket c) d).Alike (server.credited ticket both) := by
  have hmerged (name : String) : ((ticket.provided.merge c).merge d).values name =
      (ticket.provided.merge both).values name := by
    simp [h]
  -- empty claims are not taken in at all, so either part may leave the ticket untouched
  cases hc : c.isEmpty with
  | true =>
    have hnone := Claims.isEmpty_iff.mp hc
    rw [credited_of_isEmpty hc]
    exact credited_alike hs ticket fun name => by rw [h, hnone, List.nil_append]
  | false =>
    cases hd : d.isEmpty with
    | true =>
      have hnone := Claims.isEmpty_iff.mp hd
      rw [credited_of_isEmpty hd]
      exact credited_alike hs ticket fun name => by rw [h, hnone, List.append_nil]
    | false =>
      have hboth : both.isEmpty = false := by
        rw [← Bool.not_eq_true, Claims.isEmpty_iff] at hc ⊢
        exact fun hnone => hc fun name => (List.append_eq_nil_iff.mp (h name ▸ hnone name)).1
      rw [credited_of_elimination hs hc, credited_of_elimination hs hd,
        credited_of_elimination hs hboth]
      refine ⟨rfl, ?_, fun name => .of_eq (hmerged name)⟩
      simp only [List.map_map]
      refine List.map_congr_left fun r _ => ?_
      calc (r.eliminate (ticket.provided.merge c)).eliminate ((ticket.provided.merge c).merge d)
          = r.eliminate ((ticket.provided.merge c).merge d) :=
            r.eliminate_eliminate_merge (ticket.provided.merge c) d
        _ = r.eliminate (ticket.provided.merge both) :=
            eliminate_eq_of_perm r fun name => .of_eq (hmerged name)

/-- A settled ticket stays so. -/
theorem isSettled_credited (hs : server.strategy = .elimination) (h : ticket.isSettled = true)
    (claims : Claims) : (server.credited ticket claims).isSettled = true := by
  cases hempty : claims.isEmpty with
  | true => rwa [credited_of_isEmpty hempty]
  | false =>
    simp only [Ticket.isSettled, Bool.and_eq_true, List.all_eq_true] at h
    simp only [credited_of_elimination hs hempty, Ticket.isSettled, List.length_map, List.all_map,
      Bool.and_eq_true, List.all_eq_true, Function.comp_apply]
    exact ⟨h.1, fun r hr => Requirements.isEmpty_eliminate_of_isEmpty (h.2 r hr) _⟩

/-! ## Rounds -/

/-- The request goes on with a ticket, asks for no further scopes, and pushes these credentials. -/
structure Resumes (server : Server) (request : TokenRequest) (id : String)
    (credentials : List Credential) : Prop where
  ticket_eq : request.ticket = some id
  scopeWords_eq : request.scopeWords = []
  accept_eq : server.accept request = .ok credentials

/-- Requests that start from the same and ask for the same scopes. -/
structure AimAlike (request request' : TokenRequest) : Prop where
  ticket_eq : request.ticket = request'.ticket
  permissions_eq : request.permissions = request'.permissions
  scopeWords_eq : request.scopeWords = request'.scopeWords

/-- A credential that proves the same at both times. -/
def ProvesAlike [Url.DomainRules] (server : Server) (around around' : Surroundings)
    (credential : Credential) : Prop :=
  ∃ found, server.verified around credential = .ok found ∧
    server.verified around' credential = .ok found

variable {around around' : Surroundings} {request : TokenRequest} {id : String}
  {credentials : List Credential}

/-- Nobody may ask for permissions along with a ticket. -/
theorem Resumes.permissions_eq (h : server.Resumes request id credentials) :
    request.permissions = none := by
  obtain ⟨hvalid, -⟩ := accept_eq_ok_iff.mp h.accept_eq
  cases hpermissions : request.permissions with
  | none => rfl
  | some permissions => simp [TokenRequest.validate, h.ticket_eq, hpermissions] at hvalid

section
variable [Url.DomainRules]

theorem Resumes.ending_eq (h : server.Resumes request id credentials)
    (hticket : s.tickets.get? id = some ticket) {claims : Claims}
    (hclaims : server.provenClaims around credentials = .ok claims) :
    server.ending around s request = server.verdict s [] (server.credited ticket claims) := by
  have hopening : server.opening s request = .ok ticket := by
    simp [opening, h.ticket_eq, hticket]
  rw [ending_of_opening h.accept_eq hopening, h.scopeWords_eq, endingFrom, hclaims]
  rfl

theorem exists_provenClaims_of_provesAlike
    (h : ∀ c ∈ credentials, server.ProvesAlike around around' c) :
    ∃ claims, server.provenClaims around credentials = .ok claims :=
  (exists_provenClaims_iff server around credentials).mpr fun c hc =>
    (h c hc).imp fun _ hfound => hfound.1

theorem ProvesAlike.symm {c : Credential} (h : server.ProvesAlike around around' c) :
    server.ProvesAlike around' around c :=
  h.imp fun _ hfound => ⟨hfound.2, hfound.1⟩

private theorem provesAlike_append {around₁ around₂ around₃ : Surroundings}
    {A B : List Credential} (hA : ∀ c ∈ A, server.ProvesAlike around₁ around₃ c)
    (hB : ∀ c ∈ B, server.ProvesAlike around₂ around₃ c) :
    ∀ c ∈ A ++ B, server.ProvesAlike around₃ around₃ c := by
  intro c hc
  rcases List.mem_append.mp hc with hc | hc
  · exact (hA c hc).imp fun _ hfound => ⟨hfound.2, hfound.2⟩
  · exact (hB c hc).imp fun _ hfound => ⟨hfound.2, hfound.2⟩

private theorem flatMap_valuesProven_eq
    (h : ∀ c ∈ credentials, server.ProvesAlike around around' c) (name : String) :
    credentials.flatMap (server.valuesProven around name) =
      credentials.flatMap (server.valuesProven around' name) := by
  rw [List.flatMap_def, List.flatMap_def]
  refine congrArg List.flatten (List.map_congr_left fun c hc => ?_)
  obtain ⟨found, hfound, hfound'⟩ := h c hc
  rw [valuesProven, valuesProven, hfound, hfound']

/-- What credentials prove in two rounds, they prove in one. -/
private theorem exists_provenClaims_append {around₁ around₂ around₃ : Surroundings}
    {A B : List Credential} (hA : ∀ c ∈ A, server.ProvesAlike around₁ around₃ c)
    (hB : ∀ c ∈ B, server.ProvesAlike around₂ around₃ c) :
    ∃ c d both, server.provenClaims around₁ A = .ok c ∧ server.provenClaims around₂ B = .ok d ∧
      server.provenClaims around₃ (A ++ B) = .ok both ∧
      ∀ name, both.values name = c.values name ++ d.values name := by
  obtain ⟨c, hc⟩ := exists_provenClaims_of_provesAlike hA
  obtain ⟨d, hd⟩ := exists_provenClaims_of_provesAlike hB
  obtain ⟨both, hboth⟩ := exists_provenClaims_of_provesAlike (provesAlike_append hA hB)
  refine ⟨c, d, both, hc, hd, hboth, fun name => ?_⟩
  rw [values_provenClaims _ _ hc, values_provenClaims _ _ hd, values_provenClaims _ _ hboth,
    List.flatMap_append, flatMap_valuesProven_eq hA, flatMap_valuesProven_eq hB]

end

section
variable [Url.DomainRules] (hs : server.strategy = .elimination)
  (hticket : s.tickets.get? id = some ticket)
  {around₁ around₂ around₃ : Surroundings} {first both : TokenRequest} {A B : List Credential}
  (hfirst : server.Resumes first id A) (hboth : server.Resumes both id (A ++ B))
  (hA : ∀ c ∈ A, server.ProvesAlike around₁ around₃ c)
  (hB : ∀ c ∈ B, server.ProvesAlike around₂ around₃ c)
include hs hticket hfirst hboth hA hB

/-- A round with some credentials that asks for more, and a later one with others on the ticket that
it gives out, end like one round with all of them. -/
theorem ending_resumed_alike {demand : Demand} {after later : ServerState}
    (hrun : (server.negotiate around₁ first).run s = (.ok (.needInfo demand), after))
    (hlater : later.tickets.get? demand.ticket = after.tickets.get? demand.ticket)
    {second : TokenRequest} (hsecond : server.Resumes second demand.ticket B) :
    (server.ending around₂ later second).Alike (server.ending around₃ s both) := by
  obtain ⟨c, d, e, hc, hd, he, hvalues⟩ := exists_provenClaims_append hA hB
  obtain ⟨stored, hending, hstored⟩ := ending_of_needInfo hrun
  rw [hfirst.ending_eq hticket hc] at hending
  have hcredited : server.credited ticket c = stored := verdict_eq_asked hending
  rw [hsecond.ending_eq (hlater.trans hstored) hd, hboth.ending_eq hticket he, ← hcredited]
  exact verdict_alike hs (credited_credited_alike hs ticket hvalues) []

/-- What some credentials are granted, they are granted along with others. -/
theorem ending_granted_of_fewer {permissions : List Permission} {withHandle : Bool}
    (hgranted : server.ending around₁ s first = .granted permissions withHandle) :
    server.ending around₃ s both = .granted permissions withHandle := by
  obtain ⟨c, d, e, hc, -, he, hvalues⟩ := exists_provenClaims_append hA hB
  rw [hfirst.ending_eq hticket hc, verdict_eq_granted_iff,
    settles_of_elimination _ _ hs] at hgranted
  obtain ⟨hsettled, hpermissions, hhandle⟩ := hgranted
  -- the others are taken in after the grant, which they do not undo
  have hmore : server.verdict s [] (server.credited (server.credited ticket c) d) =
      .granted permissions withHandle := by
    rw [verdict_eq_granted_iff, settles_of_elimination _ _ hs, permissions_credited]
    exact ⟨isSettled_credited hs hsettled d, hpermissions, hhandle⟩
  have halike : (server.verdict s [] (server.credited (server.credited ticket c) d)).Alike
      (server.verdict s [] (server.credited ticket e)) :=
    verdict_alike hs (credited_credited_alike hs ticket hvalues) []
  rw [hmore] at halike
  rw [hboth.ending_eq hticket he, halike.eq_granted]

end

/-- The order of the credentials does not matter. -/
theorem ending_shuffled_alike [Url.DomainRules] (hs : server.strategy = .elimination)
    (s : ServerState) {request shuffled : TokenRequest} (haim : AimAlike request shuffled)
    {credentials credentials' : List Credential}
    (haccept : server.accept request = .ok credentials)
    (haccept' : server.accept shuffled = .ok credentials')
    (hperm : credentials.Perm credentials')
    (hall : ∀ c ∈ credentials, server.ProvesAlike around around' c) :
    (server.ending around s request).Alike (server.ending around' s shuffled) := by
  have hall' : ∀ c ∈ credentials', server.ProvesAlike around' around c :=
    fun c hc => (hall c (hperm.mem_iff.mpr hc)).symm
  obtain ⟨c, hc⟩ := exists_provenClaims_of_provesAlike hall
  obtain ⟨d, hd⟩ := exists_provenClaims_of_provesAlike hall'
  have hvalues (name : String) : (c.values name).Perm (d.values name) := by
    rw [values_provenClaims _ _ hc, values_provenClaims _ _ hd, flatMap_valuesProven_eq hall]
    exact hperm.flatMap_right _
  have hopening : server.opening s shuffled = server.opening s request := by
    rw [opening, opening, haim.ticket_eq, haim.permissions_eq]
  cases hopened : server.opening s request with
  | error e =>
    rw [ending, weighed, haccept, hopened, ending, weighed, haccept', hopening, hopened]
    exact .refused e
  | ok opened =>
    rw [ending_of_opening haccept hopened, ending_of_opening haccept' (hopening.trans hopened),
      haim.scopeWords_eq, endingFrom, endingFrom, hc, hd]
    exact verdict_alike hs (credited_alike hs _ hvalues) _

/-- Whatever the policy and whatever ticket is in store: credentials that are verified may be pushed
in two rounds or in one, and in any order. If the first of two rounds asks for more, then the
second, in every state that still holds the ticket that was given out, ends like one round with all
credentials; if the first grants, so does the one round with all. -/
theorem credentials_path_independent [Url.DomainRules] (server : Server)
    (hs : server.strategy = .elimination)
    {s : ServerState} {id : String} {ticket : Ticket} (hticket : s.tickets.get? id = some ticket)
    {around₁ around₂ around₃ : Surroundings} {first both : TokenRequest} {A B : List Credential}
    (hfirst : server.Resumes first id A) (hboth : server.Resumes both id (A ++ B))
    (hA : ∀ c ∈ A, server.ProvesAlike around₁ around₃ c)
    (hB : ∀ c ∈ B, server.ProvesAlike around₂ around₃ c) :
    (∀ demand after, (server.negotiate around₁ first).run s = (.ok (.needInfo demand), after) →
        ∀ later, later.tickets.get? demand.ticket = after.tickets.get? demand.ticket →
        ∀ second, server.Resumes second demand.ticket B →
          ∃ ending ending',
            server.Ends around₂ ending ((server.negotiate around₂ second).run later) ∧
            server.Ends around₃ ending' ((server.negotiate around₃ both).run s) ∧
            ending.Alike ending') ∧
      (∀ permissions withHandle,
        server.Ends around₁ (.granted permissions withHandle)
            ((server.negotiate around₁ first).run s) →
          server.Ends around₃ (.granted permissions withHandle)
            ((server.negotiate around₃ both).run s)) ∧
      ∀ shuffled credentials, server.Resumes shuffled id credentials →
        credentials.Perm (A ++ B) →
        ∃ ending ending', server.Ends around₃ ending ((server.negotiate around₃ shuffled).run s) ∧
          server.Ends around₃ ending' ((server.negotiate around₃ both).run s) ∧
          ending.Alike ending' := by
  refine ⟨fun demand after hrun later hlater second hsecond => ?_,
    fun permissions withHandle hgranted => ?_, fun shuffled credentials hshuffled hperm => ?_⟩
  · exact ⟨_, _, server.ends_negotiate .., server.ends_negotiate ..,
      ending_resumed_alike hs hticket hfirst hboth hA hB hrun hlater hsecond⟩
  · rw [ends_iff] at hgranted ⊢
    exact ending_granted_of_fewer hs hticket hfirst hboth hA hB hgranted
  · have hall : ∀ c ∈ credentials, server.ProvesAlike around₃ around₃ c :=
      fun c hc => provesAlike_append hA hB c (hperm.mem_iff.mp hc)
    have haim : AimAlike shuffled both :=
      ⟨hshuffled.ticket_eq.trans hboth.ticket_eq.symm,
        hshuffled.permissions_eq.trans hboth.permissions_eq.symm,
        hshuffled.scopeWords_eq.trans hboth.scopeWords_eq.symm⟩
    exact ⟨_, _, server.ends_negotiate .., server.ends_negotiate ..,
      ending_shuffled_alike hs s haim hshuffled.accept_eq hboth.accept_eq hperm hall⟩

/-- A server with a ticket for writing, which one person may do. -/
def sampleVisit : ServerState :=
  (((sample .rules).openTicket [⟨some "R1", some ["write"]⟩]).run
    { (∅ : ServerState) with
      rulesCache := some ⟨⟨.ofList [("R1", .ofList [("bob", ["write"])])]⟩, ⟨0, 0⟩, 0⟩ }).2

def samplePush (ticket : String) (webids : List String) : TokenRequest :=
  ⟨none, some ticket, none, none, none, none,
    some (webids.map fun webid => ⟨some webid, some CredentialFormat.unsecure.uri⟩)⟩

private theorem provesAlike_sample [Url.DomainRules] (webid : String) (found : Claims)
    (h : (sample .rules).verified offline ⟨webid, .unsecure⟩ = .ok found) :
    ∀ c ∈ [(⟨webid, .unsecure⟩ : Credential)], (sample .rules).ProvesAlike offline offline c := by
  intro c hc
  cases List.mem_singleton.mp hc
  exact ⟨found, h, h⟩

/-- Somebody comes first and is asked for more, then the person who may write comes; or both come at
once, in either order. -/
theorem sample_path_independent :
    let server := sample .rules
    let alone := samplePush (sampleId 0) ["alice"]
    let later := samplePush (sampleId 1) ["bob"]
    let both := samplePush (sampleId 0) ["alice", "bob"]
    let shuffled := samplePush (sampleId 0) ["bob", "alice"]
    let asked := (server.negotiate offline alone).run sampleVisit
    (∃ ticket, sampleVisit.tickets.get? (sampleId 0) = some ticket) ∧
      asked.1 = .ok (.needInfo ⟨sampleId 1, [.claim ClaimName.webid]⟩) ∧
      (∃ ending ending', server.Ends offline ending ((server.negotiate offline later).run asked.2) ∧
        server.Ends offline ending' ((server.negotiate offline both).run sampleVisit) ∧
        ending.Alike ending') ∧
      ∃ ending ending', server.Ends offline ending
          ((server.negotiate offline shuffled).run sampleVisit) ∧
        server.Ends offline ending' ((server.negotiate offline both).run sampleVisit) ∧
        ending.Alike ending' := by
  have hasked : (((sample .rules).negotiate offline (samplePush (sampleId 0) ["alice"])).run
      sampleVisit).1 = .ok (.needInfo ⟨sampleId 1, [.claim ClaimName.webid]⟩) :=
    eq_ok_of_toOption (by decide +kernel)
  have hrun : ((sample .rules).negotiate offline (samplePush (sampleId 0) ["alice"])).run
      sampleVisit = (.ok (.needInfo ⟨sampleId 1, [.claim ClaimName.webid]⟩),
        (((sample .rules).negotiate offline (samplePush (sampleId 0) ["alice"])).run
          sampleVisit).2) := by
    rw [← hasked]
  obtain ⟨ticket, hticket⟩ : ∃ ticket, sampleVisit.tickets.get? (sampleId 0) = some ticket :=
    ⟨_, rfl⟩
  have halone : (sample .rules).Resumes (samplePush (sampleId 0) ["alice"]) (sampleId 0)
      [⟨"alice", .unsecure⟩] := ⟨rfl, rfl, rfl⟩
  have hboth : (sample .rules).Resumes (samplePush (sampleId 0) ["alice", "bob"]) (sampleId 0)
      ([⟨"alice", .unsecure⟩] ++ [⟨"bob", .unsecure⟩]) := ⟨rfl, rfl, rfl⟩
  obtain ⟨hresumed, -, hshuffled⟩ := credentials_path_independent (sample .rules) rfl hticket
    halone hboth (provesAlike_sample "alice" _ rfl) (provesAlike_sample "bob" _ rfl)
  have htwo := hresumed _ _ hrun _ rfl (samplePush (sampleId 1) ["bob"]) ⟨rfl, rfl, rfl⟩
  have hone := hshuffled (samplePush (sampleId 0) ["bob", "alice"]) _ ⟨rfl, rfl, rfl⟩ (.swap _ _ _)
  exact ⟨⟨ticket, hticket⟩, hasked, htwo, hone⟩

end Server

end UserManagedAccess
