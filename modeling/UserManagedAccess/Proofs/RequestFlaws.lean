import UserManagedAccess.Proofs.DerivationHandles
import UserManagedAccess.Proofs.Faults

/-! What can be wrong with a request before anybody looks at its credentials: the checks on it, made
one after the other, come to the absence of every flaw. -/
namespace UserManagedAccess

namespace Permission

theorem validate_eq_ok_iff {p : Permission} :
    p.validate = .ok () ↔
      (∀ id, p.resource = some id → Text.isBlank id = false) ∧
        ∀ scope, p.Lists scope → Text.isBlank scope = false := by
  obtain ⟨resource, scopes⟩ := p
  cases resource <;> cases scopes <;>
    simp only [validate, Lists, Option.any, Option.getD] <;> split <;> grind

private theorem forM_validate_eq_ok_iff {ps : List Permission} :
    ps.forM validate = .ok () ↔ ∀ p ∈ ps, p.validate = .ok () := by
  induction ps with
  | nil => exact ⟨fun _ p hp => absurd hp List.not_mem_nil, fun _ => rfl⟩
  | cons p rest ih =>
    rw [List.forall_mem_cons, ← ih]
    constructor
    · intro h
      obtain ⟨_, hp, hrest⟩ := exists_of_bind_eq_ok h
      exact ⟨hp, hrest⟩
    · rintro ⟨hp, hrest⟩
      change (p.validate >>= fun _ => rest.forM validate) = .ok ()
      rw [hp]
      exact hrest

theorem validateAll_eq_ok_iff {ps : List Permission} :
    validateAll ps = .ok () ↔ ps ≠ [] ∧ ∀ p ∈ ps, p.validate = .ok () := by
  rw [validateAll, ← forM_validate_eq_ok_iff]
  cases ps with
  | nil => simp
  | cons p rest => simp

/-- The resource or a scope on the list is blank. -/
def HasBlank (p : Permission) : Prop :=
  (∃ id, p.resource = some id ∧ Text.isBlank id = true) ∨
    ∃ scope, p.Lists scope ∧ Text.isBlank scope = true

theorem validate_eq_ok_iff_not_hasBlank {p : Permission} :
    p.validate = .ok () ↔ ¬ p.HasBlank := by
  rw [validate_eq_ok_iff, HasBlank, not_or]
  simp only [not_exists, not_and, Bool.not_eq_true]

/-- There are none, or something about one of them is blank. -/
def Unfit (ps : List Permission) : Prop := ps = [] ∨ ∃ p ∈ ps, p.HasBlank

theorem validateAll_eq_ok_iff_not_unfit {ps : List Permission} :
    validateAll ps = .ok () ↔ ¬ Unfit ps := by
  rw [validateAll_eq_ok_iff, Unfit, not_or]
  simp only [validate_eq_ok_iff_not_hasBlank, not_exists, not_and, ne_eq]

theorem failsWith_validateAll (ps : List Permission) :
    FailsWith Error.IsBadRequest (validateAll ps) := by
  rw [validateAll]
  split
  · exact .error ⟨_, rfl⟩
  · refine .forM (fun p => ?_) ps
    rw [validate]
    repeat' split
    · exact .error ⟨_, rfl⟩
    · exact .error ⟨_, rfl⟩
    · exact .ok ()

end Permission

namespace ClaimToken

/-- What can be wrong with a pair that says something. -/
inductive Flaw (verifier : Verifier) (pair : ClaimToken) : Prop
  | halfFilled (h : pair.token.isSome ≠ pair.format.isSome)
  | unknownFormat (uri : String) (hformat : pair.format = some uri)
      (h : CredentialFormat.ofUri? uri = none)
  | noVerifier (uri : String) (format : CredentialFormat) (hformat : pair.format = some uri)
      (hknown : CredentialFormat.ofUri? uri = some format) (h : verifier.supports format = false)

theorem failsWith_credential (pair : ClaimToken) :
    FailsWith Error.IsBadRequest pair.credential := by
  rw [credential]
  repeat' split
  all_goals first | exact .ok _ | exact .error ⟨_, rfl⟩

theorem not_flaw_of_isAbsent {verifier : Verifier} {pair : ClaimToken}
    (h : pair.isAbsent = true) : ¬ pair.Flaw verifier := by
  simp only [isAbsent, Bool.and_eq_true, Option.isNone_iff_eq_none] at h
  obtain ⟨htoken, hnone⟩ := h
  intro hflaw
  cases hflaw with
  | halfFilled h => simp [htoken, hnone] at h
  | unknownFormat uri hformat => simp [hnone] at hformat
  | noVerifier uri format hformat => simp [hnone] at hformat

theorem exists_credential_iff {verifier : Verifier} {pair : ClaimToken}
    (hgiven : pair.isAbsent = false) :
    (∃ c, pair.credential = .ok c ∧ verifier.supports c.format = true) ↔
      ¬ pair.Flaw verifier := by
  obtain ⟨token, format⟩ := pair
  cases token with
  | none =>
    cases format with
    | none => cases hgiven
    | some uri =>
      refine ⟨?_, fun h => absurd (.halfFilled (by simp)) h⟩
      rintro ⟨c, ⟨⟩, -⟩
  | some token =>
    cases format with
    | none =>
      refine ⟨?_, fun h => absurd (.halfFilled (by simp)) h⟩
      rintro ⟨c, ⟨⟩, -⟩
    | some uri =>
      simp only [credential]
      constructor
      · rintro ⟨c, hc, hsupports⟩ hflaw
        cases hflaw with
        | halfFilled h => exact h rfl
        | unknownFormat uri hformat hunknown =>
          cases hformat
          simp [hunknown] at hc
        | noVerifier uri format hformat hknown h =>
          cases hformat
          simp only [hknown, Except.ok.injEq] at hc
          subst hc
          simp [h] at hsupports
      · intro hflaw
        cases hknown : CredentialFormat.ofUri? uri with
        | none => exact absurd (.unknownFormat uri rfl hknown) hflaw
        | some format =>
          refine ⟨_, rfl, ?_⟩
          cases hsupports : verifier.supports format with
          | true => rfl
          | false => exact absurd (.noVerifier uri format rfl hknown hsupports) hflaw

end ClaimToken

namespace TokenRequest

/-- All pairs of a token and a format, the single one first. -/
def pairs (request : TokenRequest) : List ClaimToken :=
  ⟨request.claimToken, request.claimTokenFormat⟩ :: request.claimTokens.getD []

/-- What can be wrong with a request that meets a server with these verifiers and tickets. -/
inductive Flaw (verifier : Verifier) (tickets : KeyMap Ticket) (request : TokenRequest) : Prop
  | ticketAndPermissions (id : String) (ps : List Permission) (hticket : request.ticket = some id)
      (hpermissions : request.permissions = some ps)
  | neitherTicketNorPermissions (hticket : request.ticket = none)
      (hpermissions : request.permissions = none)
  | blankTicket (id : String) (hticket : request.ticket = some id)
      (h : Text.isBlank id = true)
  | noPermissions (hpermissions : request.permissions = some [])
  | blankPermission (ps : List Permission) (p : Permission)
      (hpermissions : request.permissions = some ps) (hp : p ∈ ps) (h : p.HasBlank)
  | pair (pair : ClaimToken) (hpair : pair ∈ request.pairs) (h : pair.Flaw verifier)
  | unknownTicket (id : String) (hticket : request.ticket = some id)
      (h : tickets.get? id = none)

theorem failsWith_validate (request : TokenRequest) :
    FailsWith Error.IsBadRequest request.validate := by
  rw [validate]
  split
  · exact .error ⟨_, rfl⟩
  · exact .error ⟨_, rfl⟩
  · split
    · exact .error ⟨_, rfl⟩
    · exact .ok ()
  · exact Permission.failsWith_validateAll _

theorem mem_claimTokenPairs {request : TokenRequest} {pair : ClaimToken} :
    pair ∈ request.claimTokenPairs ↔ pair ∈ request.pairs ∧ pair.isAbsent = false := by
  simp [claimTokenPairs, pairs]

end TokenRequest

/-- Results are found all together, and all of a kind, if they are found one by one. -/
theorem exists_mapM_iff {α β : Type} {f : α → Except Error β} {kind : β → Prop} {as : List α} :
    (∃ bs, as.mapM f = .ok bs ∧ ∀ b ∈ bs, kind b) ↔ ∀ a ∈ as, ∃ b, f a = .ok b ∧ kind b := by
  induction as with
  | nil => simp [pure, Except.pure]
  | cons a rest ih =>
    rw [List.forall_mem_cons, ← ih, List.mapM_cons]
    constructor
    · rintro ⟨bs, hbs, hkind⟩
      obtain ⟨b, hb, hrest⟩ := exists_of_bind_eq_ok hbs
      obtain ⟨others, hothers, hall⟩ := exists_of_bind_eq_ok hrest
      cases hall
      obtain ⟨hfirst, hkinds⟩ := List.forall_mem_cons.mp hkind
      exact ⟨⟨b, hb, hfirst⟩, others, hothers, hkinds⟩
    · rintro ⟨⟨b, hb, hfirst⟩, others, hothers, hkinds⟩
      refine ⟨b :: others, ?_, List.forall_mem_cons.mpr ⟨hfirst, hkinds⟩⟩
      rw [hb, hothers]
      rfl

namespace Server
variable {server : Server} {request : TokenRequest}

theorem failsWith_accept (server : Server) (request : TokenRequest) :
    FailsWith Error.IsBadRequest (server.accept request) := by
  rw [accept]
  refine request.failsWith_validate.bind fun _ => ?_
  refine (FailsWith.mapM ClaimToken.failsWith_credential _).bind fun credentials => ?_
  split
  · exact .error ⟨_, rfl⟩
  · exact .ok credentials

/-- A request is accepted if its parts fit together and nothing is wrong with a pair. -/
theorem exists_accept_iff :
    (∃ credentials, server.accept request = .ok credentials) ↔
      request.validate = .ok () ∧ ∀ pair ∈ request.pairs, ¬ pair.Flaw server.verifier := by
  have hpairs : (∃ credentials, request.credentials = .ok credentials ∧
      ∀ c ∈ credentials, server.verifier.supports c.format = true) ↔
      ∀ pair ∈ request.pairs, ¬ pair.Flaw server.verifier := by
    rw [TokenRequest.credentials, exists_mapM_iff]
    constructor
    · intro h pair hpair
      cases hgiven : pair.isAbsent with
      | true => exact ClaimToken.not_flaw_of_isAbsent hgiven
      | false =>
        exact (ClaimToken.exists_credential_iff hgiven).mp
          (h pair (TokenRequest.mem_claimTokenPairs.mpr ⟨hpair, hgiven⟩))
    · intro h pair hpair
      obtain ⟨hmem, hgiven⟩ := TokenRequest.mem_claimTokenPairs.mp hpair
      exact (ClaimToken.exists_credential_iff hgiven).mpr (h pair hmem)
  simp only [accept_eq_ok_iff, exists_and_left, hpairs]

private theorem not_flaw_of_validate {tickets : KeyMap Ticket} (hvalid : request.validate = .ok ())
    (hpairs : ∀ pair ∈ request.pairs, ¬ pair.Flaw server.verifier)
    (hstored : ∀ id, request.ticket = some id → tickets.contains id = true) :
    ¬ request.Flaw server.verifier tickets := by
  intro hflaw
  rw [TokenRequest.validate] at hvalid
  cases hflaw with
  | ticketAndPermissions id ps hticket hpermissions => simp [hticket, hpermissions] at hvalid
  | neitherTicketNorPermissions hticket hpermissions => simp [hticket, hpermissions] at hvalid
  | blankTicket id hticket h =>
    cases hpermissions : request.permissions <;> simp [hticket, hpermissions, h] at hvalid
  | noPermissions hpermissions =>
    cases hticket : request.ticket <;>
      simp [hticket, hpermissions, Permission.validateAll] at hvalid
  | blankPermission ps p hpermissions hp h =>
    cases hticket : request.ticket with
    | some id => simp [hticket, hpermissions] at hvalid
    | none =>
      simp only [hticket, hpermissions] at hvalid
      have hall := (Permission.validateAll_eq_ok_iff.mp hvalid).2
      exact Permission.validate_eq_ok_iff_not_hasBlank.mp (hall p hp) h
  | pair pair hpair h => exact hpairs pair hpair h
  | unknownTicket id hticket h =>
    have hthere := hstored id hticket
    simp [h] at hthere

private theorem validate_of_not_flaw {verifier : Verifier} {tickets : KeyMap Ticket}
    (h : ¬ request.Flaw verifier tickets) : request.validate = .ok () := by
  rw [TokenRequest.validate]
  cases hticket : request.ticket with
  | some id =>
    cases hpermissions : request.permissions with
    | some ps => exact absurd (.ticketAndPermissions id ps hticket hpermissions) h
    | none =>
      cases hblank : Text.isBlank id with
      | true => exact absurd (.blankTicket id hticket hblank) h
      | false => simp [hblank]
  | none =>
    cases hpermissions : request.permissions with
    | none => exact absurd (.neitherTicketNorPermissions hticket hpermissions) h
    | some ps =>
      refine Permission.validateAll_eq_ok_iff.mpr ⟨?_, fun p hp => ?_⟩
      · rintro rfl
        exact h (.noPermissions hpermissions)
      · exact Permission.validate_eq_ok_iff_not_hasBlank.mpr fun hblank =>
          h (.blankPermission ps p hpermissions hp hblank)

/-- A request without a flaw is one that is accepted and whose ticket, if any, is in store. -/
theorem not_flaw_iff {tickets : KeyMap Ticket} :
    ¬ request.Flaw server.verifier tickets ↔
      (∃ credentials, server.accept request = .ok credentials) ∧
        ∀ id, request.ticket = some id → tickets.contains id = true := by
  rw [exists_accept_iff]
  constructor
  · intro h
    refine ⟨⟨validate_of_not_flaw h, fun pair hpair hflaw => h (.pair pair hpair hflaw)⟩, ?_⟩
    intro id hticket
    cases hget : tickets.get? id with
    | some ticket => simp [hget]
    | none => exact absurd (.unknownTicket id hticket hget) h
  · rintro ⟨⟨hvalid, hpairs⟩, hstored⟩
    exact not_flaw_of_validate hvalid hpairs hstored

end Server

end UserManagedAccess
