import UserManagedAccess.Proofs.Assertions
import UserManagedAccess.Proofs.Elimination
import UserManagedAccess.Proofs.Faults

/-! What every verifier keeps to. It adds to the claims that it is given and does not look at them,
so it does with any claims what it does with none; and it fails in one way only. -/
namespace UserManagedAccess

namespace Claims

theorem merge_push (c d : Claims) (name : String) (value : Json) :
    c.merge (d.push name value) = (c.merge d).push name value := by
  have hclaims : (c.merge (d.push name value)).claims = ((c.merge d).push name value).claims := by
    refine KeyMap.ext_get? fun k => ?_
    have hpush (e : Claims) : (e.push name value).claims.get? k =
        if k = name then some (e.values name ++ [value]) else e.claims.get? k :=
      KeyMap.get?_insert _ _ _ _
    rw [get?_merge, hpush, hpush, values_merge]
    by_cases hk : k = name
    · simp [hk]
    · simp [hk, get?_merge]
  rw [← mk.injEq] at hclaims
  exact hclaims

/-- Pushing onto claims is merging them with what is pushed onto none. -/
theorem pushAll_eq_merge (c : Claims) (found : List (String × Json)) :
    c.pushAll found = c.merge ((∅ : Claims).pushAll found) := by
  suffices hall : ∀ d, (c.merge d).pushAll found = c.merge (d.pushAll found) from hall ∅
  induction found with
  | nil => exact fun d => rfl
  | cons entry rest ih =>
    intro d
    have hrest := ih (d.push entry.1 entry.2)
    rw [merge_push] at hrest
    exact hrest

end Claims

/-! ## Failures of fetchers -/

/-- With a fetcher that fails in one way at everything, it asks for nothing or comes to `e`. -/
def Fetching.FailsAs {α : Type} (cause e : Error) (m : Fetching α) : Prop :=
  (m fun _ => .error cause).requested = [] ∨ (m fun _ => .error cause).result = .error e

namespace Fetching.FailsAs
variable {α β : Type} {cause e : Error}

theorem ofExcept (x : Except Error α) : (Fetching.ofExcept x).FailsAs cause e := .inl rfl

theorem ask (url : String) : (Fetching.ask url).FailsAs cause cause := .inr rfl

theorem bind {m : Fetching α} {f : α → Fetching β} (hm : m.FailsAs cause e)
    (hf : ∀ a, (f a).FailsAs cause e) : (m >>= f).FailsAs cause e := by
  rcases hm with hsilent | herror
  · cases hresult : (m fun _ => .error cause).result with
    | error e' =>
      refine .inl ?_
      rw [requested_bind_of_error _ hresult, hsilent]
    | ok a =>
      refine (hf a).imp (fun hnext => ?_) fun hnext => ?_
      · rw [requested_bind_of_ok _ hresult, hsilent, hnext, List.append_nil]
      · rw [result_bind, hresult]
        exact hnext
  · refine .inr ?_
    rw [result_bind, herror]
    rfl

theorem mapError {m : Fetching α} (hm : m.FailsAs cause e) (f : Error → Error) :
    (m.mapError f).FailsAs cause (f e) := by
  refine hm.imp id fun herror => ?_
  change Except.mapError f _ = _
  rw [herror]
  rfl

end Fetching.FailsAs

private theorem Verifier.expecting_failsAs {α : Type} {format : CredentialFormat}
    {c : Credential} {m : Fetching α} {cause e : Error} (h : m.FailsAs cause e) :
    (expecting format c m).FailsAs cause e := by
  rw [expecting]
  split
  · exact h
  · exact .ofExcept _

private theorem Discovery.keySet_failsAs (url : Url) {cause : Error} :
    (keySet url).FailsAs cause cause := .bind (.ask _) fun _ => .ofExcept _

section
variable [Url.DomainRules] {cause : Error}

private theorem SignedToken.issuerKeys_failsAs (kind : SignedToken) (issuer : String) :
    (kind.issuerKeys issuer).FailsAs cause cause := by
  cases kind with
  | jwt => exact .bind (.ofExcept _) fun url => Discovery.keySet_failsAs url
  | idToken =>
    refine .bind (.ofExcept _) fun url => .bind (.ask _) fun configuration => ?_
    split
    · exact .ofExcept _
    · exact .bind (.ofExcept _) fun url => Discovery.keySet_failsAs url
  | accessToken => exact .bind (.ofExcept _) fun url => Discovery.keySet_failsAs url

private theorem SignedToken.verifiedPayload_failsAs (kind : SignedToken) (token : String)
    (now : Nat) : (kind.verifiedPayload token now).FailsAs cause cause := by
  refine .bind (.ofExcept _) fun payload => ?_
  split
  · exact .ofExcept _
  · refine .bind (.ofExcept _) fun header => ?_
    split
    · exact .ofExcept _
    · exact .bind (kind.issuerKeys_failsAs _) fun keys =>
        .bind (.ofExcept _) fun key => .ofExcept _

private theorem IdToken.checkIssuer_failsAs (trusted : List String) (webid issuer : String) :
    (checkIssuer trusted webid issuer).FailsAs cause cause := by
  rw [checkIssuer]
  split
  · exact .ofExcept _
  · refine .bind (.bind (.ofExcept _) fun url => .ask _) fun profile => ?_
    split <;> exact .ofExcept _

private theorem IdToken.read_failsAs (trusted : List String) (token : String) (now : Nat) :
    (read trusted token now).FailsAs cause cause := by
  refine .bind (SignedToken.idToken.verifiedPayload_failsAs token now) fun payload => ?_
  split
  · exact .ofExcept _
  · exact .bind (checkIssuer_failsAs trusted _ _) fun _ => .ofExcept _

private theorem JwtOptions.addClaims_failsAs (options : JwtOptions) (token : String) (now : Nat)
    (held : Claims) :
    (options.addClaims token now held).FailsAs cause (cause.whileVerifying .jwt) := by
  have hread : (do
      let payload ← liftM (Jose.readPayload token)
      options.addAllowed payload.entries held : Fetching Claims).FailsAs cause
        (Error.whileVerifying .jwt cause) := .bind (.ofExcept _) fun payload => .ofExcept _
  rw [addClaims]
  split
  · exact .bind ((SignedToken.jwt.verifiedPayload_failsAs token now).mapError _) fun _ => hread
  · exact hread

end

namespace Verifier
variable [Url.DomainRules] (now : Nat) (c : Credential) (fetcher : Fetcher)

/-! ## Claims that are held -/

/-- With claims held, a verifier asks for the same documents as without, and comes to the same, after
what is held. -/
theorem verify_eq_merge (v : Verifier) (held : Claims) :
    v.verify now c held fetcher = ⟨(v.verify now c ∅ fetcher).requested,
      (v.verify now c ∅ fetcher).result.map held.merge⟩ := by
  rw [verify_apply, verify_apply]
  cases (v.assertions now c fetcher).result with
  | error e => rfl
  | ok found => simp only [Except.map, held.pushAll_eq_merge found]

variable {now c fetcher}

/-- Whatever a fetcher fails with, a verifier that has asked it blames the credential with it. -/
theorem verify_of_fetcher_error {v : Verifier} (hleaf : v.IsLeaf) (held : Claims) (cause : Error)
    (hasked : (v.verify now c held fun _ => .error cause).requested ≠ []) :
    ∃ token, (v.verify now c held fun _ => .error cause).result =
      .error (.whileVerifying token cause) := by
  have hfails : ∃ token, (v.verify now c held).FailsAs cause (.whileVerifying token cause) := by
    cases v with
    | byFormat verifiers => cases hleaf
    | selfAsserted =>
      rw [verify]
      exact ⟨.jwt, expecting_failsAs (.ofExcept _)⟩
    | jwt options =>
      rw [verify]
      exact ⟨.jwt, expecting_failsAs (options.addClaims_failsAs c.token now held)⟩
    | oidc trusted =>
      rw [verify]
      refine ⟨.idToken, expecting_failsAs ?_⟩
      refine .bind ((IdToken.read_failsAs trusted c.token now).mapError _) fun identity => ?_
      dsimp only
      split <;> exact .ofExcept _
    | accessToken =>
      rw [verify]
      refine ⟨.accessToken, expecting_failsAs ?_⟩
      exact .bind (.mapError (.bind (SignedToken.accessToken.verifiedPayload_failsAs c.token now)
        fun payload => .ofExcept _) _) fun proofs => .ofExcept _
  obtain ⟨token, hsilent | herror⟩ := hfails
  · exact absurd hsilent hasked
  · exact ⟨token, herror⟩

/-! ## Formats -/

variable {verifiers : List (CredentialFormat × Verifier)}

/-- The first verifier for the format of a credential is asked, and no other. -/
theorem verify_byFormat_of_find? {entry : CredentialFormat × Verifier}
    (h : verifiers.find? (·.1 == c.format) = some entry) (held : Claims) :
    (byFormat verifiers).verify now c held fetcher = entry.2.verify now c held fetcher := by
  have hassertions : assertionsByFormat now verifiers c = assertions now entry.2 c := by
    induction verifiers with
    | nil => cases h
    | cons first rest ih =>
      rw [assertionsByFormat]
      by_cases hformat : c.format = first.1
      · have hfirst : first = entry := by simpa [hformat] using h
        rw [if_pos hformat, hfirst]
      · rw [if_neg hformat]
        exact ih (by simpa [Ne.symm hformat] using h)
  rw [verify_apply, verify_apply, assertions, hassertions]

/-- Without a verifier for the format, nobody is asked, and the request is at fault. -/
theorem verify_byFormat_of_find?_eq_none
    (h : verifiers.find? (·.1 == c.format) = none) (held : Claims) :
    (byFormat verifiers).verify now c held fetcher =
      ⟨[], .error (.badRequest (.unsupportedFormat c.format.uri))⟩ := by
  have hassertions : assertionsByFormat now verifiers c =
      Fetching.ofExcept (.error (.badRequest (.unsupportedFormat c.format.uri))) := by
    induction verifiers with
    | nil => rw [assertionsByFormat]
    | cons first rest ih =>
      obtain ⟨hother, hrest⟩ : ¬first.1 = c.format ∧
          rest.find? (·.1 == c.format) = none := by simpa using h
      rw [assertionsByFormat, if_neg (Ne.symm hother)]
      exact ih hrest
  rw [verify_apply, assertions, hassertions]
  rfl

/-- Whatever claims are held, a credential is verified exactly if it is verified with none held;
then what it proves comes after what is held, and otherwise the error is the same. The errors of a
verifier for one format are all about the credential. One that asks others by format does as the one
that it asks, and it blames the request exactly if there is none to ask. -/
theorem verify_contract (v : Verifier) (now : Nat) (c : Credential) (held : Claims)
    (fetcher : Fetcher) :
    let alone := (v.verify now c ∅ fetcher).result
    let both := (v.verify now c held fetcher).result
    ((∃ claims, both = .ok claims) ↔ ∃ found, alone = .ok found) ∧
      (∀ found, alone = .ok found → both = .ok (held.merge found) ∧
        ∀ name, (held.merge found).values name = held.values name ++ found.values name) ∧
      (∀ e, both = .error e ↔ alone = .error e) ∧
      (v.IsLeaf → ∀ e, both = .error e → e.IsInvalidCredential) ∧
      ∀ verifiers, v = .byFormat verifiers → (∀ entry ∈ verifiers, entry.2.IsLeaf) →
        (∀ entry, verifiers.find? (·.1 == c.format) = some entry →
          both = (entry.2.verify now c held fetcher).result) ∧
        (∀ e, both = .error e → e.IsInvalidCredential ∨
          e = .badRequest (.unsupportedFormat c.format.uri)) ∧
        ((∃ fault, both = .error (.badRequest fault)) ↔
          ∀ entry ∈ verifiers, entry.1 ≠ c.format) := by
  intro alone both
  have hboth : both = alone.map held.merge := congrArg Fetched.result (verify_eq_merge ..)
  refine ⟨?_, ?_, ?_, fun hleaf => failsWith_verify_of_isLeaf hleaf held fetcher, ?_⟩
  · rw [hboth]
    cases alone <;> simp [Except.map]
  · intro found hfound
    rw [hboth, hfound]
    exact ⟨rfl, fun name => Claims.values_merge held found name⟩
  · rw [hboth]
    cases alone <;> simp [Except.map]
  · rintro verifiers rfl hleaf
    cases hfind : verifiers.find? (·.1 == c.format) with
    | some entry =>
      have hasked : both = (entry.2.verify now c held fetcher).result :=
        congrArg Fetched.result (verify_byFormat_of_find? hfind held)
      have hentry : entry ∈ verifiers := List.mem_of_find?_eq_some hfind
      have hformat : entry.1 = c.format := by simpa using List.find?_some hfind
      have hfails : FailsWith Error.IsInvalidCredential both :=
        hasked ▸ failsWith_verify_of_isLeaf (hleaf entry hentry) held fetcher
      refine ⟨?_, fun e he => .inl (hfails e he), ?_⟩
      · rintro _ ⟨⟩
        exact hasked
      · refine iff_of_false ?_ fun h => h entry hentry hformat
        rintro ⟨fault, hfault⟩
        obtain ⟨cause, hcause⟩ := hfails _ hfault
        cases hcause
    | none =>
      have hrefused : both = .error (.badRequest (.unsupportedFormat c.format.uri)) :=
        congrArg Fetched.result (verify_byFormat_of_find?_eq_none hfind held)
      have hnone : ∀ entry ∈ verifiers, entry.1 ≠ c.format := by simpa using hfind
      refine ⟨fun entry h => (nomatch h), fun e he => ?_, iff_of_true ⟨_, hrefused⟩ hnone⟩
      rw [hrefused] at he
      cases he
      exact .inr rfl

end Verifier

end UserManagedAccess
