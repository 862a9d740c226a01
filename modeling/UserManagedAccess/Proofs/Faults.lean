import UserManagedAccess.Proofs.Fetching
import UserManagedAccess.Server.Negotiation

/-! Which errors a computation may end with. Whatever goes wrong while a credential is looked at, it
is the credential that is blamed and not the request. -/
namespace UserManagedAccess

namespace Error

def IsBadRequest (e : Error) : Prop := ∃ fault, e = .badRequest fault

def IsInvalidCredential (e : Error) : Prop := ∃ fault, e = .invalidCredential fault

theorem isInvalidCredential_whileVerifying (token : SignedToken) (e : Error) :
    (whileVerifying token e).IsInvalidCredential := by
  cases e <;> exact ⟨_, rfl⟩

end Error

/-- All errors that it may end with are of a kind. -/
def FailsWith {α : Type} (kind : Error → Prop) (x : Except Error α) : Prop :=
  ∀ e, x = .error e → kind e

namespace FailsWith
variable {α β : Type} {kind : Error → Prop}

theorem ok (a : α) : FailsWith kind (.ok a) := fun _ h => nomatch h

theorem error {e : Error} (h : kind e) : FailsWith kind (.error e : Except Error α) := by
  rintro _ ⟨⟩
  exact h

theorem bind {x : Except Error α} {f : α → Except Error β} (hx : FailsWith kind x)
    (hf : ∀ a, FailsWith kind (f a)) : FailsWith kind (x >>= f) := by
  cases x with
  | error e => exact .error (hx e rfl)
  | ok a => exact hf a

theorem map {x : Except Error α} (hx : FailsWith kind x) (f : α → β) :
    FailsWith kind (x.map f) := by
  cases x with
  | error e => exact .error (hx e rfl)
  | ok a => exact .ok (f a)

theorem mapError (f : Error → Error) (hf : ∀ e, kind (f e)) (x : Except Error α) :
    FailsWith kind (x.mapError f) := by
  cases x with
  | error e => exact .error (hf e)
  | ok a => exact .ok a

theorem mapM {f : α → Except Error β} (hf : ∀ a, FailsWith kind (f a)) (as : List α) :
    FailsWith kind (as.mapM f) := by
  induction as with
  | nil => exact .ok []
  | cons a rest ih =>
    rw [List.mapM_cons]
    exact (hf a).bind fun b => ih.bind fun bs => .ok (b :: bs)

theorem forM {f : α → Except Error Unit} (hf : ∀ a, FailsWith kind (f a)) (as : List α) :
    FailsWith kind (as.forM f) := by
  induction as with
  | nil => exact .ok ()
  | cons a rest ih => exact (hf a).bind fun _ => ih

end FailsWith

/-- Whoever is asked, all errors that it may end with are of a kind. -/
def Fetching.FailsWith {α : Type} (kind : Error → Prop) (m : Fetching α) : Prop :=
  ∀ fetcher, UserManagedAccess.FailsWith kind (m fetcher).result

namespace Fetching.FailsWith
variable {α β : Type} {kind : Error → Prop}

theorem ofExcept {x : Except Error α} (h : UserManagedAccess.FailsWith kind x) :
    (ofExcept x).FailsWith kind := fun _ => h

theorem bind {m : Fetching α} {f : α → Fetching β} (hm : m.FailsWith kind)
    (hf : ∀ a, (f a).FailsWith kind) : (m >>= f).FailsWith kind := by
  intro fetcher
  rw [result_bind]
  exact (hm fetcher).bind fun a => hf a fetcher

theorem mapError {f : Error → Error} (hf : ∀ e, kind (f e)) (m : Fetching α) :
    (m.mapError f).FailsWith kind :=
  fun fetcher => .mapError f hf (m fetcher).result

end Fetching.FailsWith

/-! ## Credentials -/

open Error (IsBadRequest IsInvalidCredential)

private theorem SelfAsserted.failsWith_readPart (part : String) :
    FailsWith IsInvalidCredential (readPart part) := by
  rw [readPart]
  cases Text.Percent.decode part with
  | error cause => exact .error ⟨_, rfl⟩
  | ok text => exact .ok text

private theorem SelfAsserted.failsWith_addClaims (token : String) (held : Claims) :
    FailsWith IsInvalidCredential (addClaims token held) := by
  have hidentity (part : String) : FailsWith IsInvalidCredential (identity part) := by
    refine (failsWith_readPart part).bind fun webid => ?_
    split
    · exact .error ⟨_, rfl⟩
    · exact .ok webid
  have hread : FailsWith IsInvalidCredential (read token) := by
    rw [read]
    split
    · exact (hidentity _).bind fun _ => .ok _
    · exact (hidentity _).bind fun _ => (failsWith_readPart _).bind fun _ => .ok _
    · exact .error ⟨_, rfl⟩
  refine hread.bind fun ⟨webid, client⟩ => ?_
  dsimp only
  split <;> exact .ok _

private theorem Jose.failsWith_readPayload (token : String) :
    FailsWith IsInvalidCredential (readPayload token) := by
  rw [readPayload]
  repeat' split
  all_goals first | exact .ok _ | exact .error ⟨_, rfl⟩

private theorem JwtOptions.failsWith_addAllowed (options : JwtOptions)
    (entries : List (String × Json)) (held : Claims) :
    FailsWith IsInvalidCredential (options.addAllowed entries held) := by
  induction entries generalizing held with
  | nil => exact .ok held
  | cons entry rest ih =>
    rw [addAllowed]
    split
    · exact ih _
    · split
      · exact .error ⟨_, rfl⟩
      · exact ih held

private theorem Verifier.failsWith_expecting {α : Type} {c : Credential}
    {format : CredentialFormat} {m : Fetching α} (h : m.FailsWith IsInvalidCredential) :
    (expecting format c m).FailsWith IsInvalidCredential := by
  rw [expecting]
  split
  · exact h
  · exact .ofExcept (.error ⟨_, rfl⟩)

section
variable [Url.DomainRules]

private theorem JwtOptions.failsWith_addClaims (options : JwtOptions) (token : String) (now : Nat)
    (held : Claims) : (options.addClaims token now held).FailsWith IsInvalidCredential := by
  have hread : Fetching.FailsWith IsInvalidCredential (do
      let payload ← liftM (Jose.readPayload token)
      options.addAllowed payload.entries held : Fetching Claims) :=
    .bind (.ofExcept (Jose.failsWith_readPayload token)) fun payload =>
      .ofExcept (options.failsWith_addAllowed payload.entries held)
  rw [addClaims]
  split
  · exact .bind (.mapError (Error.isInvalidCredential_whileVerifying .jwt) _) fun _ => hread
  · exact hread

private theorem IdToken.failsWith_addClaims (trusted : List String) (token : String) (now : Nat)
    (held : Claims) : (addClaims trusted token now held).FailsWith IsInvalidCredential := by
  refine .bind (.mapError (Error.isInvalidCredential_whileVerifying .idToken) _)
    fun ⟨webid, client⟩ => ?_
  cases client <;> exact .ofExcept (.ok _)

private theorem SourceToken.failsWith_addClaims (token : String) (now : Nat) (held : Claims) :
    (addClaims token now held).FailsWith IsInvalidCredential :=
  .bind (.mapError (Error.isInvalidCredential_whileVerifying .accessToken) _) fun _ =>
    .ofExcept (.ok _)

namespace Verifier

/-- It looks at credentials of one format itself, and asks no other verifier. -/
def IsLeaf : Verifier → Prop
  | .byFormat _ => False
  | _ => True

variable {now : Nat} {c : Credential}

theorem failsWith_verify_of_isLeaf {verifier : Verifier} (h : verifier.IsLeaf) (held : Claims) :
    (verifier.verify now c held).FailsWith IsInvalidCredential := by
  cases verifier with
  | byFormat verifiers => cases h
  | selfAsserted =>
    rw [verify]
    exact failsWith_expecting (.ofExcept (SelfAsserted.failsWith_addClaims c.token held))
  | jwt options =>
    rw [verify]
    exact failsWith_expecting (options.failsWith_addClaims c.token now held)
  | oidc trusted =>
    rw [verify]
    exact failsWith_expecting (IdToken.failsWith_addClaims trusted c.token now held)
  | accessToken =>
    rw [verify]
    exact failsWith_expecting (SourceToken.failsWith_addClaims c.token now held)

/-- As long as there is a verifier for its format, a credential is at fault itself. -/
theorem failsWith_verifyByFormat {verifiers : List (CredentialFormat × Verifier)}
    (hleaf : ∀ entry ∈ verifiers, entry.2.IsLeaf)
    (hsupported : supports (.byFormat verifiers) c.format = true) (held : Claims) :
    (verifyByFormat now verifiers c held).FailsWith IsInvalidCredential := by
  induction verifiers with
  | nil => simp [supports] at hsupported
  | cons entry rest ih =>
    obtain ⟨hfirst, hrest⟩ := List.forall_mem_cons.mp hleaf
    rw [verifyByFormat]
    split
    · exact failsWith_verify_of_isLeaf hfirst held
    · next hother =>
      refine ih hrest ?_
      simpa [supports, Ne.symm hother] using hsupported

end Verifier

namespace Server
variable {server : Server}

/-- A server that asks one verifier for each format. -/
def AsksByFormat (server : Server) : Prop :=
  ∃ verifiers, server.verifier = .byFormat verifiers ∧ ∀ entry ∈ verifiers, entry.2.IsLeaf

theorem failsWith_verifyEach (hverifier : server.AsksByFormat) (now : Nat)
    {credentials : List Credential}
    (hsupported : ∀ c ∈ credentials, server.verifier.supports c.format = true) :
    (server.verifyEach now credentials).FailsWith IsInvalidCredential := by
  obtain ⟨verifiers, hverifiers, hleaf⟩ := hverifier
  rw [hverifiers] at hsupported
  induction credentials with
  | nil => exact .ofExcept (.ok [])
  | cons c rest ih =>
    obtain ⟨hc, hrest⟩ := List.forall_mem_cons.mp hsupported
    have hverify : (server.verifier.verify now c ∅).FailsWith IsInvalidCredential := by
      rw [hverifiers, Verifier.verify]
      exact Verifier.failsWith_verifyByFormat hleaf hc ∅
    exact .bind hverify fun _ => .bind (ih hrest) fun _ => .ofExcept (.ok _)

end Server

end

end UserManagedAccess
