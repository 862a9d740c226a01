import UserManagedAccess.Proofs.Ending

/-! Two ways to begin: with a ticket that was opened beforehand, or with permissions at once. Both
check the permissions alike, and lead to the same. -/
namespace UserManagedAccess

theorem IdSupply.isBlank_idOf (origin n : Nat) : Text.isBlank (idOf origin n) = false := by
  rw [Text.isBlank, idOf, String.toList_ofList, ← Bool.not_eq_true, List.all_eq_true]
  intro hblank
  exact absurd (hblank '-' (by simp)) (by decide)

/-- Neither scopes nor credentials come along. -/
structure TokenRequest.IsBare (request : TokenRequest) : Prop where
  scopeWords_eq : request.scopeWords = []
  claimTokenPairs_eq : request.claimTokenPairs = []

namespace Server
variable {server : Server} {around : Surroundings} {s s' : ServerState}
  {permissions : List Permission} {request : TokenRequest}

/-! ## Opened tickets -/

theorem openTicket_eq_error_iff {e : Error} :
    ((server.openTicket permissions).run s).1 = .error e ↔
      Permission.validateAll permissions = .error e := by
  obtain ⟨s', -, hcases⟩ := server.openTicket_cases permissions s
  rcases hcases with ⟨result, hrun, ⟨e', hinvalid, rfl⟩ | ⟨hvalid, -, rfl⟩⟩ | ⟨-, hvalid, hrun⟩ <;>
    simp [*]

theorem openTicket_eq_none_iff :
    ((server.openTicket permissions).run s).1 = .ok none ↔
      Permission.validateAll permissions = .ok () ∧
        server.settles s (server.freshTicket s permissions) = true := by
  obtain ⟨s', -, hcases⟩ := server.openTicket_cases permissions s
  rcases hcases with ⟨result, hrun, ⟨e', hinvalid, rfl⟩ | ⟨hvalid, hsettles, rfl⟩⟩ |
    ⟨hsettles, hvalid, hrun⟩ <;> simp [*]

/-- A ticket that was opened is in store under an id that may be presented. -/
theorem stored_of_openTicket {id : String}
    (h : ((server.openTicket permissions).run s).1 = .ok (some id)) :
    Permission.validateAll permissions = .ok () ∧ Text.isBlank id = false ∧
      ((server.openTicket permissions).run s).2.tickets.get? id =
        some (server.freshTicket s permissions) := by
  obtain ⟨s', -, hcases⟩ := server.openTicket_cases permissions s
  rcases hcases with ⟨result, hrun, ⟨e', -, rfl⟩ | ⟨-, -, rfl⟩⟩ | ⟨-, hvalid, hrun⟩ <;>
    rw [hrun] at h <;> cases h
  rw [hrun]
  exact ⟨hvalid, IdSupply.isBlank_idOf _ _, KeyMap.get?_insert_self _ _ _⟩

/-! ## Permissions that are asked for at once -/

section
variable [Url.DomainRules]

theorem ending_asking_of_invalid {e : Error}
    (h : Permission.validateAll permissions = .error e) :
    server.ending around s (request.asking permissions) = .refused e := by
  apply ending_of_accept_eq_error
  have hvalidate : (request.asking permissions).validate = .error e := h
  rw [accept, hvalidate]
  rfl

theorem ending_asking_of_isBare (hbare : request.IsBare)
    (hvalid : Permission.validateAll permissions = .ok ()) :
    server.ending around s (request.asking permissions) =
      server.verdict s [] (server.freshTicket s permissions) := by
  have hcredentials : (request.asking permissions).credentials = .ok [] := by
    change request.claimTokenPairs.mapM ClaimToken.credential = _
    rw [hbare.claimTokenPairs_eq]
    rfl
  have haccept : server.accept (request.asking permissions) = .ok [] :=
    accept_eq_ok_iff.mpr ⟨hvalid, hcredentials, fun _ hc => absurd hc List.not_mem_nil⟩
  have hscopes : (request.asking permissions).scopeWords = [] := hbare.scopeWords_eq
  rw [ending_of_opening haccept rfl, hscopes]
  rfl

/-- A ticket on which nothing was proven leads to where its permissions lead. -/
theorem ending_presenting_eq_asking {id : String}
    (hvalid : Permission.validateAll permissions = .ok ()) (hid : Text.isBlank id = false)
    (hticket : s'.tickets.get? id = some (server.freshTicket s permissions))
    (hsnapshot : s'.snapshot = s.snapshot) (around : Surroundings) (request : TokenRequest) :
    server.ending around s' (request.presenting id) =
      server.ending around s (request.asking permissions) := by
  -- both are valid, so it is for their credentials, if at all, that they are turned down
  have hsame : server.accept (request.presenting id) =
      server.accept (request.asking permissions) :=
    accept_congr (request.validate_presenting hid) hvalid rfl
  cases haccept : server.accept (request.asking permissions) with
  | error e =>
    rw [ending_of_accept_eq_error haccept, ending_of_accept_eq_error (hsame.trans haccept)]
  | ok credentials =>
    have hopening : server.opening s' (request.presenting id) =
        .ok (server.freshTicket s permissions) := by
      simp [opening, TokenRequest.presenting, hticket]
    rw [ending_of_opening haccept rfl, ending_of_opening (hsame.trans haccept) hopening,
      endingFrom_congr hsnapshot, widened_congr hsnapshot]
    rfl

/-- Permissions that are asked for with nothing else are turned down both ways, or accepted: then
the round ends well or is forbidden. -/
theorem turns_down_alike (around : Surroundings) (hbare : request.IsBare) :
    let opened := (server.openTicket permissions).run s
    let asked := (server.negotiate around (request.asking permissions)).run s
    (∃ e, Permission.validateAll permissions = .error e ∧ opened.1 = .error e ∧
        asked.1 = .error e) ∨
      Permission.validateAll permissions = .ok () ∧ (∃ id?, opened.1 = .ok id?) ∧
        ((∃ outcome, asked.1 = .ok outcome) ∨ asked.1 = .error .forbidden) := by
  intro opened asked
  cases hvalid : Permission.validateAll permissions with
  | error e =>
    exact .inl ⟨e, rfl, openTicket_eq_error_iff.mpr hvalid,
      result_eq_error_iff.mpr (ending_asking_of_invalid hvalid)⟩
  | ok =>
    refine .inr ⟨rfl, ?_, ?_⟩
    · cases hopened : opened.1 with
      | ok id? => exact ⟨id?, rfl⟩
      | error e => cases hvalid.symm.trans (openTicket_eq_error_iff.mp hopened)
    · cases hasked : asked.1 with
      | ok outcome => exact .inl ⟨outcome, rfl⟩
      | error e =>
        have hrefused := result_eq_error_iff.mp hasked
        rw [ending_asking_of_isBare hbare hvalid] at hrefused
        exact .inr (congrArg _ (verdict_eq_refused hrefused))

/-- No ticket is needed for what is granted at once. -/
theorem openTicket_eq_none_iff_grants (around : Surroundings) (hbare : request.IsBare) :
    ((server.openTicket permissions).run s).1 = .ok none ↔
      ∃ grant, ((server.negotiate around (request.asking permissions)).run s).1 =
        .ok (.granted grant) := by
  rw [openTicket_eq_none_iff, exists_granted_iff]
  cases hvalid : Permission.validateAll permissions with
  | error e => simp [ending_asking_of_invalid hvalid]
  | ok => simp [ending_asking_of_isBare hbare hvalid, verdict_eq_granted_iff]

/-- For every server, state and list of permissions: opening a ticket and asking at once turn the
permissions down with one error, or both accept them; no ticket is given out exactly if asking at
once, with neither credentials nor scopes, grants; and one that is given out leads, along with any
credentials and scopes, to where asking at once leads with these, as long as it is in store and the
policy finds what it found before. -/
theorem ticket_route_eq_direct (server : Server) (s : ServerState) (permissions : List Permission) :
    let opened := (server.openTicket permissions).run s
    (∀ around (bare : TokenRequest), bare.IsBare →
        let asked := (server.negotiate around (bare.asking permissions)).run s
        ((∃ e, Permission.validateAll permissions = .error e ∧ opened.1 = .error e ∧
            asked.1 = .error e) ∨
          Permission.validateAll permissions = .ok () ∧ (∃ id?, opened.1 = .ok id?) ∧
            ((∃ outcome, asked.1 = .ok outcome) ∨ asked.1 = .error .forbidden)) ∧
        (opened.1 = .ok none ↔ ∃ grant, asked.1 = .ok (.granted grant))) ∧
      ∀ id, opened.1 = .ok (some id) →
        ∀ later elsewhere : ServerState, later.tickets.get? id = opened.2.tickets.get? id →
          later.snapshot = s.snapshot → elsewhere.snapshot = s.snapshot →
          ∀ around (request : TokenRequest), ∃ ending,
            server.Ends around ending
              ((server.negotiate around (request.presenting id)).run later) ∧
            server.Ends around ending
              ((server.negotiate around (request.asking permissions)).run elsewhere) := by
  intro opened
  refine ⟨fun around bare hbare =>
      ⟨turns_down_alike around hbare, openTicket_eq_none_iff_grants around hbare⟩,
    fun id hopened later elsewhere hstored hlater helsewhere around request => ?_⟩
  obtain ⟨hvalid, hid, hticket⟩ := stored_of_openTicket hopened
  have hfresh : later.tickets.get? id = some (server.freshTicket elsewhere permissions) := by
    rw [hstored, hticket, freshTicket_congr helsewhere]
  have hsame := ending_presenting_eq_asking hvalid hid hfresh (hlater.trans helsewhere.symm)
    around request
  exact ⟨_, server.ends_negotiate .., hsame ▸ server.ends_negotiate ..⟩

end

/-- With an identity and one more scope, in the state that opening the ticket has left. -/
theorem sample_routes_meet :
    let server := sample (.namespaced [])
    let permissions := [(⟨some "R1", some ["read"]⟩ : Permission)]
    let request := { sampleResume "" "alice" with scope := some "write" }
    let opened := (server.openTicket permissions).run ∅
    (sampleAsk permissions none).IsBare ∧ opened.1 = .ok (some (sampleId 0)) ∧
      (¬ ∃ grant, ((server.negotiate offline (sampleAsk permissions none)).run ∅).1 =
        .ok (.granted grant)) ∧
      opened.2.snapshot = (∅ : ServerState).snapshot ∧
      ∃ ending,
        server.Ends offline ending
          ((server.negotiate offline (request.presenting (sampleId 0))).run opened.2) ∧
        server.Ends offline ending
          ((server.negotiate offline (request.asking permissions)).run ∅) := by
  have hroutes := ticket_route_eq_direct (sample (.namespaced [])) ∅ [⟨some "R1", some ["read"]⟩]
  have hnone := (hroutes.1 offline (sampleAsk [⟨some "R1", some ["read"]⟩] none) ⟨rfl, rfl⟩).2
  refine ⟨⟨rfl, rfl⟩, rfl, fun hgrants => ?_, rfl,
    hroutes.2 _ rfl _ _ rfl rfl rfl offline { sampleResume "" "alice" with scope := some "write" }⟩
  exact absurd (hnone.mpr hgrants) nofun

end Server

end UserManagedAccess
