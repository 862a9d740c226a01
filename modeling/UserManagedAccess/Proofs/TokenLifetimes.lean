import UserManagedAccess.Proofs.TokenExchange
import UserManagedAccess.Proofs.TokenForms

/-! How long a token is good. One that is kept ends with its lifetime, whatever the server did in
the meantime; of one that is signed the end is read as a number without sign, so that one whose end
lies before the year 1970 has none. -/
namespace UserManagedAccess

/-- If the command looks into a token, it does so by the given time. -/
def Command.LooksBy (now : Nat) : Command → Prop
  | .introspect around _ => around.now ≤ now
  | _ => True

namespace ServerState

/-- Under an id that was handed out, a token is kept, or was kept until it ended. -/
structure Remembers (s : ServerState) (id : String) (kept : KeptToken) (now : Nat) : Prop where
  issued : s.ids.HasIssued id
  stored : s.tokens.get? id = some kept ∨ s.tokens.get? id = none ∧ kept.expiresAt ≤ now

variable {s s' : ServerState} {id : String} {kept : KeptToken} {now : Nat}

theorem Remembers.of_get?_eq (h : s.Remembers id kept now) (hids : s'.ids.HasIssued id)
    (htokens : s'.tokens.get? id = s.tokens.get? id) : s'.Remembers id kept now :=
  ⟨hids, htokens ▸ h.stored⟩

/-- What is stored from now on has an id of its own. -/
theorem Remembers.get?_insert_next (h : s.Remembers id kept now) (other : KeptToken) :
    (s.tokens.insert s.ids.next.1 other).get? id = s.tokens.get? id := by
  refine KeyMap.get?_insert_of_ne _ _ ?_
  rintro rfl
  exact IdSupply.not_hasIssued_next s.ids h.issued

end ServerState

namespace Server
variable {server : Server} {around : Surroundings} {s : ServerState} {id text : String}
  {kept : KeptToken} {now : Nat}

/-! ## Tokens that are kept -/

theorem run_readToken_kept (server : Server) (around : Surroundings) (text : String)
    (s : ServerState) :
    (server.readToken around .kept text).run s =
      match s.tokens.get? text with
      | none => (.error (.notFound .token), s)
      | some kept =>
        if kept.expiresAt ≤ around.now then
          (.error (.notFound .token), { s with tokens := s.tokens.erase text })
        else (.ok kept.token, s) := by
  rw [readToken, Action.run_bind_of_ok (Action.run_perform (.findToken text) s)]
  simp only [Operation.run]
  cases s.tokens.get? text with
  | none => rfl
  | some kept =>
    simp only
    split <;> rfl

theorem tokens_introspect (server : Server) (around : Surroundings) (text : String)
    (s : ServerState) :
    ((server.introspect around text).run s).2.tokens =
      ((server.readToken around server.tokenForm text).run s).2.tokens := by
  obtain ⟨result, tokens, hread, -⟩ := server.readToken_cases around server.tokenForm text s
  cases result with
  | error e => rw [introspect, Action.run_bind_of_error hread, hread]
  | ok token =>
    rw [introspect, Action.run_bind_of_ok hread, hread]
    rfl

/-- No command takes an id back. -/
theorem hasIssued_execute [Url.DomainRules] (server : Server) (h : s.ids.HasIssued id)
    (command : Command) :
    (server.execute s command).2.ids.HasIssued id := by
  cases command with
  | negotiate around request =>
    obtain ⟨s', hs, -, hcases⟩ := server.negotiate_cases around request s
    have h' : s'.ids.HasIssued id := hs.ids_eq ▸ h
    simp only [execute, Prod.map_snd, id_eq]
    rcases hcases with ⟨e, hrun, -⟩ | ⟨ticket, -, -, hrun⟩ | ⟨ticket, -, -, hrun⟩ <;> rw [hrun]
    · exact h'
    · rw [stateWith]
      split
      · exact h'.next.next
      · exact h'.next
    · exact h'.next
  | openTicket permissions =>
    obtain ⟨s', hs, hcases⟩ := server.openTicket_cases permissions s
    have h' : s'.ids.HasIssued id := hs.ids_eq ▸ h
    simp only [execute, Prod.map_snd, id_eq]
    rcases hcases with ⟨result, hrun, -⟩ | ⟨-, -, hrun⟩ <;> rw [hrun]
    · exact h'
    · exact h'.next
  | register description =>
    simp only [execute, Prod.map_snd, id_eq, run_register]
    split
    · exact h.next
    · exact h
  | unregister resource =>
    simp only [execute, Prod.map_snd, run_unregister]
    exact h
  | introspect around token =>
    obtain ⟨tokens, ids, hstate, hids, -⟩ := server.introspect_cases around token s
    simp only [execute, Prod.map_snd, id_eq, hstate]
    rcases hids with rfl | rfl
    · exact h
    · exact h.next
  | changeRules file => exact h

/-- Whoever looks into a token throws it away only once it has ended. -/
theorem get?_tokens_introspect (server : Server) (around : Surroundings) (text : String)
    (h : s.Remembers id kept now) (hnow : around.now ≤ now) :
    let left := ((server.introspect around text).run s).2.tokens
    left.get? id = some kept ∨ left.get? id = none ∧ kept.expiresAt ≤ now := by
  rw [tokens_introspect]
  cases server.tokenForm with
  | signed => exact h.stored
  | kept =>
    rw [run_readToken_kept]
    cases hfound : s.tokens.get? text with
    | none => exact h.stored
    | some found =>
      simp only
      split
      · next hended =>
        rw [KeyMap.get?_erase]
        split
        · next heq =>
          subst heq
          refine .inr ⟨rfl, ?_⟩
          rcases h.stored with hkept | ⟨hnone, -⟩
          · cases hfound.symm.trans hkept
            omega
          · cases hfound.symm.trans hnone
        · exact h.stored
      · exact h.stored

/-- What is issued is remembered under the id that is handed out. -/
theorem remembers_issueToken (server : Server) (around : Surroundings) (token : AccessToken)
    (s : ServerState) :
    ∃ id s', (server.issueToken around .kept token).run s = (.ok ⟨id, bearer⟩, s') ∧
      ∀ now, s'.Remembers id ⟨token, around.now + server.lifetime⟩ now := by
  refine ⟨s.ids.next.1, _, rfl, fun now => ⟨IdSupply.hasIssued_next_self s.ids, .inl ?_⟩⟩
  exact KeyMap.get?_insert_self _ _ _

end Server

namespace ServerState
variable {server : Server} {around : Surroundings} {s : ServerState} {id : String}
  {kept : KeptToken} {now : Nat}

theorem Remembers.execute [Url.DomainRules] (h : s.Remembers id kept now) {command : Command}
    (hcommand : command.LooksBy now) :
    (server.execute s command).2.Remembers id kept now := by
  have hids := server.hasIssued_execute h.issued command
  cases command with
  | negotiate around request =>
    obtain ⟨s', hs, -, hcases⟩ := server.negotiate_cases around request s
    have h' : s'.Remembers id kept now :=
      h.of_get?_eq (hs.ids_eq ▸ h.issued) (by rw [hs.tokens_eq])
    refine h'.of_get?_eq hids ?_
    simp only [Server.execute, Prod.map_snd, id_eq]
    rcases hcases with ⟨e, hrun, -⟩ | ⟨ticket, -, -, hrun⟩ | ⟨ticket, -, -, hrun⟩ <;> rw [hrun]
    rw [Server.tokens_stateWith, Server.tokensWith]
    split
    · rfl
    · exact h'.get?_insert_next _
  | openTicket permissions =>
    obtain ⟨s', hs, hcases⟩ := server.openTicket_cases permissions s
    refine h.of_get?_eq hids ?_
    simp only [Server.execute, Prod.map_snd, id_eq]
    rcases hcases with ⟨result, hrun, -⟩ | ⟨-, -, hrun⟩ <;> rw [hrun, hs.tokens_eq]
  | register description =>
    refine h.of_get?_eq hids ?_
    simp only [Server.execute, Prod.map_snd, id_eq, Server.run_register]
    split <;> rfl
  | unregister resource =>
    refine h.of_get?_eq hids ?_
    simp only [Server.execute, Prod.map_snd, Server.run_unregister]
  | introspect around token => exact ⟨hids, server.get?_tokens_introspect around token h hcommand⟩
  | changeRules file => exact h.of_get?_eq hids rfl

/-- A token that is kept stays until it has ended, through whatever the server does. -/
theorem Remembers.history [Url.DomainRules] (server : Server) (h : s.Remembers id kept now)
    (commands : List Command) (hcommands : ∀ command ∈ commands, command.LooksBy now) :
    (server.history s commands).state.Remembers id kept now :=
  List.foldlRecOn (motive := fun past => past.state.Remembers id kept now) commands server.serve h
    fun _ hpast command hmem => hpast.execute (hcommands command hmem)

/-- At any time, a token that was kept is found with what it grants until it has ended, and not at
all afterwards. -/
theorem Remembers.run_readToken (h : s.Remembers id kept around.now) (server : Server) :
    let done := (server.readToken around .kept id).run s
    (around.now < kept.expiresAt → done = (.ok kept.token, s)) ∧
      (kept.expiresAt ≤ around.now →
        done.1 = .error (.notFound .token) ∧ done.2.tokens.get? id = none) := by
  intro done
  have hdone : done = _ := server.run_readToken_kept around id s
  rcases h.stored with hkept | ⟨hnone, hended⟩
  · simp only [hkept] at hdone
    refine ⟨fun hgood => ?_, fun hended => ?_⟩
    · rw [hdone, if_neg (Int.not_le.mpr hgood)]
    · rw [hdone, if_pos hended]
      exact ⟨rfl, by rw [KeyMap.get?_erase, if_pos rfl]⟩
  · simp only [hnone] at hdone
    refine ⟨fun hgood => by omega, fun _ => ?_⟩
    rw [hdone]
    exact ⟨rfl, hnone⟩

end ServerState

/-! ## Tokens of both forms -/

namespace AccessToken

/-- A contract whose text can be read, if need be with other numbers. -/
def HasLegibleContract (token : AccessToken) : Prop :=
  ∀ v, token.contract = some v → v.IsOrdered ∧ (Json.ofText? v.toText).isSome = true

theorem HasLegibleContract.exists_isReadAs {token : AccessToken} (h : token.HasLegibleContract)
    (hheight : ∀ v, token.contract = some v → v.height < Json.Document.maxDepth) :
    ∃ found, token.IsReadAs found := by
  cases hcontract : token.contract with
  | none =>
    refine ⟨token, isReadAs_self fun v hv => ?_⟩
    rw [hcontract] at hv
    cases hv
  | some v =>
    obtain ⟨hordered, hread⟩ := h v hcontract
    rw [Json.ofText?_toText hordered, if_pos (hheight v hcontract).le] at hread
    obtain ⟨w, hw⟩ := Option.isSome_iff_exists.mp hread
    refine ⟨{ token with contract := some w }, rfl, ?_, rfl, fun u hu => ?_, hheight⟩
    · rw [hcontract]
      exact .some hw
    · exact (h u hu).1

theorem contract_ofPermissions_ne_some (permissions : List Permission) (v : Json) :
    (ofPermissions permissions).contract ≠ some v :=
  (Option.some_ne_none v).symm

theorem hasLegibleContract_ofPermissions (permissions : List Permission) :
    (ofPermissions permissions).HasLegibleContract :=
  fun v hv => absurd hv (contract_ofPermissions_ne_some permissions v)

end AccessToken

theorem TokenSigner.read_mint_eq_ok_iff {signer : TokenSigner} {minted now : Nat} {id : String}
    {token : AccessToken} (hminted : signer.Mints minted)
    (hkey : signer.keys.key.SignaturesVerify .sha256) (htoken : token.HasLegibleContract) :
    (∃ found, signer.read now (signer.mint minted id token).token = .ok found) ↔
      (∀ v, token.contract = some v → v.height < Json.Document.maxDepth) ∧
        (now ≤ minted + signer.lifetime + Jose.leeway ∨ minted + signer.lifetime < 0) := by
  by_cases hheight : ∀ v, token.contract = some v → v.height < Json.Document.maxDepth
  · obtain ⟨found, hfound⟩ := htoken.exists_isReadAs hheight
    rw [read_mint_of_isReadAs hminted hkey hfound, and_iff_right hheight]
    split
    · next hended => exact iff_of_false (by simp) (by omega)
    · next hgood => exact iff_of_true ⟨_, rfl⟩ (by omega)
  · refine iff_of_false ?_ fun h => hheight h.1
    push Not at hheight
    obtain ⟨v, hcontract, hdeep⟩ := hheight
    rw [read_mint_of_deep hkey hcontract hdeep]
    simp

namespace Server

theorem run_issueToken_signed (server : Server) (around : Surroundings) (token : AccessToken)
    (s : ServerState) :
    (server.issueToken around .signed token).run s =
      (.ok (server.signer.mint around.now s.ids.next.1 token), { s with ids := s.ids.next.2 }) :=
  rfl

/-- A signed token is good for its lifetime and the leeway, unless it would end before the year
1970: then it is good at any time. (With a contract that is too tall for a payload it is never
read.) A token that is kept is good for its lifetime, whatever else the server is asked to do up to
the time when it is looked up; after that it is not found, and no longer kept. -/
theorem accepted_iff_within_lifetime [Url.DomainRules] (server : Server) {token : AccessToken}
    (hkey : server.keys.key.SignaturesVerify .sha256) (htoken : token.HasLegibleContract)
    (minting : Surroundings) (hminted : server.signer.Mints minting.now) (start : ServerState) :
    (∃ text s, (server.issueToken minting .signed token).run start = (.ok ⟨text, bearer⟩, s) ∧
      ∀ (later : ServerState) (around : Surroundings),
        (∃ found, ((server.readToken around .signed text).run later).1 = .ok found) ↔
          (∀ v, token.contract = some v → v.height < Json.Document.maxDepth) ∧
            (around.now ≤ minting.now + server.lifetime + 60 ∨
              minting.now + server.lifetime < 0)) ∧
    ∃ id s, (server.issueToken minting .kept token).run start = (.ok ⟨id, bearer⟩, s) ∧
      ∀ (commands : List Command) (around : Surroundings),
        (∀ command ∈ commands, command.LooksBy around.now) →
          let later := (server.history s commands).state
          let done := (server.readToken around .kept id).run later
          (around.now < minting.now + server.lifetime → done = (.ok token, later)) ∧
            (minting.now + server.lifetime ≤ around.now →
              done.1 = .error (.notFound .token) ∧ done.2.tokens.get? id = none) := by
  refine ⟨?_, ?_⟩
  · refine ⟨_, _, server.run_issueToken_signed minting token start, fun later around => ?_⟩
    rw [readToken, Action.run_liftExcept]
    exact TokenSigner.read_mint_eq_ok_iff hminted hkey htoken
  · obtain ⟨id, s, hrun, hremembers⟩ := server.remembers_issueToken minting token start
    refine ⟨id, s, hrun, fun commands around hcommands => ?_⟩
    exact ((hremembers around.now).history server commands hcommands).run_readToken server

/-- A server whose tokens end before they were made. -/
def sampleBackdated : Server :=
  { sample .all with keys := ⟨"as-1", Crypto.Rsa.sampleKey⟩, lifetime := -2000 }

/-- Its signed tokens would have ended before the year 1970, and are good at any time. -/
theorem backdated_token_never_ends :
    ∃ text s, (sampleBackdated.issueToken offline .signed (.ofPermissions [])).run ∅ =
        (.ok ⟨text, bearer⟩, s) ∧
      ∀ around : Surroundings,
        (∃ found, ((sampleBackdated.readToken around .signed text).run s).1 = .ok found) ∧
          (offline.now + sampleBackdated.lifetime + 60 < around.now) := by
  have hkey : sampleBackdated.keys.key.SignaturesVerify .sha256 :=
    Crypto.Rsa.signaturesVerify_sampleKey .sha256
  have hminted : sampleBackdated.signer.Mints offline.now := ⟨by decide, by decide⟩
  refine ⟨_, _, run_issueToken_signed _ _ _ _, fun around => ⟨?_, ?_⟩⟩
  · rw [readToken, Action.run_liftExcept]
    refine (TokenSigner.read_mint_eq_ok_iff hminted hkey
      (AccessToken.hasLegibleContract_ofPermissions [])).mpr ⟨fun v hv => ?_, .inr (by decide)⟩
    exact absurd hv (AccessToken.contract_ofPermissions_ne_some [] v)
  · change ((1000 : Nat) : Int) + -2000 + 60 < around.now
    omega

/-- A signed token for ten minutes is good at the end of the leeway and not after it; one that is
kept is good up to its end, and is lost to whoever looks into it then. -/
theorem sample_accepted_within_lifetime :
    let server := { sample .all with keys := ⟨"as-1", Crypto.Rsa.sampleKey⟩ }
    let token := AccessToken.ofPermissions []
    let accepts := fun text now =>
      ∃ found, ((server.readToken ⟨now, .pinned ∅⟩ .signed text).run ∅).1 = .ok found
    server.keys.key.SignaturesVerify .sha256 ∧ token.HasLegibleContract ∧
      server.signer.Mints offline.now ∧ (∃ text, accepts text 1660 ∧ ¬ accepts text 1661) ∧
      ∃ id s, ((server.readToken ⟨1599, .pinned ∅⟩ .kept id).run s).1 = .ok token ∧
        ((server.readToken ⟨1600, .pinned ∅⟩ .kept id).run s).2.tokens.get? id = none := by
  intro server token accepts
  have hkey : server.keys.key.SignaturesVerify .sha256 :=
    Crypto.Rsa.signaturesVerify_sampleKey .sha256
  have hminted : server.signer.Mints offline.now := ⟨by decide, by decide⟩
  have htoken : token.HasLegibleContract := AccessToken.hasLegibleContract_ofPermissions []
  obtain ⟨⟨text, _, -, hsigned⟩, id, s, -, hkept⟩ :=
    accepted_iff_within_lifetime server hkey htoken offline hminted ∅
  refine ⟨hkey, htoken, hminted, ⟨text, ?_, fun h => ?_⟩, id, s, ?_, ?_⟩
  · refine (hsigned ∅ ⟨1660, .pinned ∅⟩).mpr ⟨fun v hv => ?_, .inl (by decide)⟩
    exact absurd hv (AccessToken.contract_ofPermissions_ne_some [] v)
  · rcases ((hsigned ∅ ⟨1661, .pinned ∅⟩).mp h).2 with hnow | hends
    · exact absurd hnow (by decide)
    · exact absurd hends (by decide)
  · exact congrArg Prod.fst ((hkept [] ⟨1599, .pinned ∅⟩ (by simp)).1 (by decide))
  · exact ((hkept [] ⟨1600, .pinned ∅⟩ (by simp)).2 (by decide)).2

end Server

end UserManagedAccess
