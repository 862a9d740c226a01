import UserManagedAccess.Proofs.Assertions
import UserManagedAccess.Proofs.Encodings
import UserManagedAccess.Proofs.TextParts

/-! Signed tokens that were checked: what the check has found out, and that a look at the payload
without any check shows the same. -/
namespace UserManagedAccess

namespace Json

theorem string?_eq_some_iff {value : Json} {s : String} :
    value.string? = some s ↔ value = .string s := by
  cases value <;> simp [string?]

theorem text?_eq_some_iff {value : Json} {name s : String} :
    value.text? name = some s ↔ value.member? name = some (.string s) := by
  simp [text?, Option.bind_eq_some_iff, string?_eq_some_iff]

end Json

namespace Text

/-- Three parts between dots make up the whole text, and there are no further dots. -/
theorem toList_of_parts_eq {text a b c : String} (h : parts (· == '.') text = [a, b, c]) :
    text.toList = a.toList ++ '.' :: (b.toList ++ '.' :: c.toList) ∧
      '.' ∉ a.toList ∧ '.' ∉ b.toList ∧ '.' ∉ c.toList := by
  have hlists : text.toList.splitOnP (· == '.') = [a.toList, b.toList, c.toList] := by
    have hmap := congrArg (List.map String.toList) h
    simpa [parts, Function.comp_def] using hmap
  have hdots := forall_mem_parts (· == '.') text
  rw [h] at hdots
  have hjoin : ['.'].intercalate (text.toList.splitOn '.') = text.toList :=
    List.intercalate_splitOn '.'
  rw [List.splitOn_eq_splitOnP, hlists] at hjoin
  have hnot (part : String) (hpart : part ∈ [a, b, c]) : '.' ∉ part.toList :=
    fun hdot => by simpa using hdots part hpart '.' hdot
  refine ⟨by simpa [List.intercalate] using hjoin.symm, hnot _ ?_, hnot _ ?_, hnot _ ?_⟩ <;> simp

theorem parts_of_toList_eq {text : String} {a b c : List Char}
    (htext : text.toList = a ++ '.' :: (b ++ '.' :: c)) (ha : '.' ∉ a) (hb : '.' ∉ b)
    (hc : '.' ∉ c) :
    parts (· == '.') text = [.ofList a, .ofList b, .ofList c] := by
  have hjoin : ['.'].intercalate [a, b, c] = text.toList := by simp [htext, List.intercalate]
  have hsplit : (['.'].intercalate [a, b, c]).splitOn '.' = [a, b, c] :=
    List.splitOn_intercalate '.' (by simp [ha, hb, hc]) (by simp)
  rw [parts, ← List.splitOn_eq_splitOnP, ← hjoin, hsplit]
  rfl

/-- A reader that takes no padding reads nothing that one that takes it would not. -/
theorem Base64Url.decode_accepted_of_refused {text : String} {bytes : List UInt8}
    (h : decode .refused text = .ok bytes) : decode .accepted text = .ok bytes := by
  rw [decode, decodeBytes] at h ⊢
  split
  · next hdangling => simpa only [hdangling, ↓reduceIte] using h
  · next hdangling =>
    simp only [hdangling, ↓reduceIte] at h ⊢
    split at h
    · cases h
    · split at h
      · cases h
      · split at h
        · cases h
        · simpa using h

end Text

namespace Jose

namespace Compact

private theorem splitLast?_append {front back : List Char} (h : '.' ∉ back) :
    splitLast? (front ++ '.' :: back) = some (front, back) := by
  have hall : ∀ c ∈ back.reverse, decide (c ≠ '.') = true := by
    intro c hc
    exact decide_eq_true fun heq => h (heq ▸ List.mem_reverse.mp hc)
  have hreverse : (front ++ '.' :: back).reverse = back.reverse ++ '.' :: front.reverse := by simp
  rw [splitLast?, hreverse, List.dropWhile_append_of_pos hall, List.takeWhile_append_of_pos hall]
  simp

private theorem splitLast?_eq_some {text front back : List Char}
    (h : splitLast? text = some (front, back)) : text = front ++ '.' :: back ∧ '.' ∉ back := by
  have hjoin := List.takeWhile_append_dropWhile (p := (· ≠ '.')) (l := text.reverse)
  have hhead := List.head?_dropWhile_not (· ≠ '.') text.reverse
  have hfront := List.all_takeWhile (p := (· ≠ '.')) (l := text.reverse)
  rw [splitLast?] at h
  split at h
  · cases h
  · next c rest hdrop =>
    cases h
    rw [hdrop] at hjoin hhead
    have hc : c = '.' := by simpa using hhead
    refine ⟨?_, fun hdot => ?_⟩
    · have htext := congrArg List.reverse hjoin
      simpa [hc] using htext.symm
    · simpa using List.all_eq_true.mp hfront '.' (List.mem_reverse.mp hdot)

/-- The parts of a token make up its text; there are no dots behind the header. -/
theorem toList_of_ofText? {text : String} {token : Compact} (h : ofText? text = some token) :
    text.toList = token.header.toList ++ '.' :: (token.payload.toList ++ '.' ::
        token.signature.toList) ∧
      '.' ∉ token.payload.toList ∧ '.' ∉ token.signature.toList := by
  simp only [ofText?, Option.bind_eq_bind, Option.bind_eq_some_iff, Prod.exists, Option.pure_def,
    Option.some.injEq] at h
  obtain ⟨message, signature, hmessage, header, payload, hheader, rfl⟩ := h
  obtain ⟨htext, hsignature⟩ := splitLast?_eq_some hmessage
  obtain ⟨rfl, hpayload⟩ := splitLast?_eq_some hheader
  simp only [String.toList_ofList]
  exact ⟨by simpa using htext, hpayload, hsignature⟩

/-- A token without a dot in its header has three parts. -/
theorem parts_of_ofText? {text : String} {token : Compact} (h : ofText? text = some token)
    (hheader : '.' ∉ token.header.toList) :
    Text.parts (· == '.') text = [token.header, token.payload, token.signature] := by
  obtain ⟨htext, hpayload, hsignature⟩ := toList_of_ofText? h
  simpa using Text.parts_of_toList_eq htext hheader hpayload hsignature

theorem ofText?_of_parts_eq {text a b c : String} (h : Text.parts (· == '.') text = [a, b, c]) :
    ofText? text = some ⟨a, b, c⟩ := by
  obtain ⟨htext, -, hb, hc⟩ := Text.toList_of_parts_eq h
  have hlast : text.toList = (a.toList ++ '.' :: b.toList) ++ '.' :: c.toList := by simp [htext]
  rw [ofText?, hlast, splitLast?_append hc]
  simp [splitLast?_append hb]

end Compact

theorem Header.dot_not_mem_of_ofSegment {segment : String} {header : Header}
    (h : ofSegment segment = .ok header) : '.' ∉ segment.toList := by
  rw [ofSegment] at h
  split at h
  · cases h
  · next hread => exact Text.Base64Url.dot_not_mem_of_decode hread

theorem Payload.get?_iss {payload : Payload} {issuer : String}
    (h : payload.issuer? = some issuer) : payload.get? "iss" = some (.string issuer) := by
  rw [issuer?, Option.filter_eq_some_iff, Option.bind_eq_some_iff] at h
  obtain ⟨⟨value, hget, hvalue⟩, -⟩ := h
  rw [hget, Json.string?_eq_some_iff.mp hvalue]

variable {text : String} {key : VerificationKey} {algorithm : Algorithm} {expected : Expectation}
  {now : Nat} {payload : Payload}

/-- All that a check has found in order. -/
theorem check_eq_ok (h : check text key algorithm expected now = .ok payload) :
    ∃ token header bytes claims, Compact.ofText? text = some token ∧
      Header.ofSegment token.header = .ok header ∧ header.algorithm = algorithm ∧
      key.fits algorithm = true ∧ token.isSignedBy key algorithm = .ok true ∧
      Text.Base64Url.decode .refused token.payload = .ok bytes ∧
      Json.Decoder.keyMap .json (Json.Document.ofBytes bytes) = .ok payload ∧
      RegisteredClaims.ofDocument? (Json.Document.ofBytes bytes) = some claims ∧
      claims.check expected now = .ok () := by
  rw [check] at h
  cases hfits : key.fits algorithm with
  | false => simp [hfits, throw, throwThe, MonadExceptOf.throw, bind, Except.bind] at h
  | true =>
    simp only [hfits, Bool.not_true, Bool.false_eq_true, ↓reduceIte] at h
    cases htoken : Compact.ofText? text with
    | none => simp [htoken, throw, throwThe, MonadExceptOf.throw] at h
    | some token =>
      simp only [htoken] at h
      obtain ⟨header, hheader, h⟩ := exists_of_bind_eq_ok h
      by_cases halgorithm : header.algorithm = algorithm
      · simp only [halgorithm, ne_eq, not_true_eq_false, ↓reduceIte] at h
        obtain ⟨signed, hsigned, h⟩ := exists_of_bind_eq_ok h
        cases signed with
        | false => simp [throw, throwThe, MonadExceptOf.throw, bind, Except.bind] at h
        | true =>
          simp only [Bool.not_true, Bool.false_eq_true, ↓reduceIte] at h
          obtain ⟨bytes, hbytes, h⟩ := exists_of_bind_eq_ok h
          obtain ⟨found, hfound, h⟩ := exists_of_bind_eq_ok h
          cases hclaims : RegisteredClaims.ofDocument? (Json.Document.ofBytes bytes) with
          | none => simp [hclaims, throw, throwThe, MonadExceptOf.throw] at h
          | some claims =>
            simp only [hclaims] at h
            obtain ⟨_, hcheck, h⟩ := exists_of_bind_eq_ok h
            cases h
            exact ⟨token, header, bytes, claims, rfl, hheader, halgorithm, rfl, hsigned,
              mapError_eq_ok.mp hbytes, mapError_eq_ok.mp hfound, hclaims, hcheck⟩
      · simp [halgorithm, throw, throwThe, MonadExceptOf.throw, bind, Except.bind] at h

/-- What was checked is what is shown without a check: what passes has two dots, no padding and an
object for its payload. -/
theorem readPayload_of_check (h : check text key algorithm expected now = .ok payload) :
    readPayload text = .ok payload := by
  obtain ⟨token, header, bytes, _, htoken, hheader, -, -, -, hbytes, hpayload, -⟩ := check_eq_ok h
  simp only [readPayload, Compact.parts_of_ofText? htoken (Header.dot_not_mem_of_ofSegment hheader),
    Text.Base64Url.decode_accepted_of_refused hbytes]
  cases hdocument : Json.Document.ofBytes bytes with
  | object members closed =>
    rw [hdocument] at hpayload
    simp only [hpayload]
  | _ =>
    rw [hdocument] at hpayload
    cases hpayload

/-- What is shown without a check is what was checked. -/
theorem eq_of_readPayload_of_check {shown : Payload} (hshown : readPayload text = .ok shown)
    (hchecked : check text key algorithm expected now = .ok payload) : shown = payload :=
  Except.ok.inj (hshown.symm.trans (readPayload_of_check hchecked))

end Jose

/-- A verified payload is the one that the token shows anyway. It names its issuer, and the issuer
publishes a key that was chosen by the header and has made the signature. -/
theorem SignedToken.verifiedPayload_eq_ok [Url.DomainRules] {kind : SignedToken} {token : String}
    {now : Nat} {fetcher : Fetcher} {payload : Jose.Payload}
    (h : (kind.verifiedPayload token now fetcher).result = .ok payload) :
    ∃ issuer header keys key, Jose.readPayload token = .ok payload ∧
      payload.issuer? = some issuer ∧ Jose.readHeader token = .ok header ∧
      (kind.issuerKeys issuer fetcher).result = .ok keys ∧
      keys.matchingKey header.keyId header.algorithm = .ok key ∧
      Jose.check token key header.algorithm (kind.expectation issuer) now = .ok payload := by
  rw [verifiedPayload, Fetching.result_bind_eq_ok] at h
  obtain ⟨shown, hshown, h⟩ := h
  cases hissuer : shown.issuer? with
  | none => simp [hissuer] at h
  | some issuer =>
    simp only [hissuer, Fetching.result_bind_eq_ok] at h
    obtain ⟨header, hheader, h⟩ := h
    split at h
    · cases h
    · simp only [Fetching.result_bind_eq_ok] at h
      obtain ⟨keys, hkeys, key, hkey, hverify⟩ := h
      have hcheck := mapError_eq_ok.mp hverify
      cases Jose.eq_of_readPayload_of_check hshown hcheck
      exact ⟨issuer, header, keys, key, hshown, hissuer, hheader, hkeys, hkey, hcheck⟩

/-- A token is verified as soon as its issuer publishes a key that is chosen by the header and that
passes the check; of some kinds it has to name the key. -/
theorem SignedToken.verifiedPayload_of_check [Url.DomainRules] {kind : SignedToken} {token : String}
    {now : Nat} {fetcher : Fetcher} {payload : Jose.Payload} {issuer : String}
    {header : Jose.Header} {keys : Jose.JwkSet} {key : Jose.VerificationKey}
    (hissuer : payload.issuer? = some issuer) (hheader : Jose.readHeader token = .ok header)
    (hkeyId : (kind.needsKeyId && header.keyId.isNone) = false)
    (hkeys : (kind.issuerKeys issuer fetcher).result = .ok keys)
    (hkey : keys.matchingKey header.keyId header.algorithm = .ok key)
    (hcheck : Jose.check token key header.algorithm (kind.expectation issuer) now = .ok payload) :
    (kind.verifiedPayload token now fetcher).result = .ok payload := by
  rw [verifiedPayload, Fetching.result_bind_eq_ok]
  refine ⟨payload, Jose.readPayload_of_check hcheck, ?_⟩
  simp only [hissuer, Fetching.result_bind_eq_ok]
  refine ⟨header, hheader, ?_⟩
  simp only [hkeyId, Bool.false_eq_true, ↓reduceIte, Fetching.result_bind_eq_ok]
  exact ⟨keys, hkeys, key, hkey, mapError_eq_ok.mpr hcheck⟩

theorem Jose.JwkSet.exists_mem_of_matchingKey {keys : JwkSet} {keyId : Option String}
    {algorithm : Algorithm} {key : VerificationKey}
    (h : keys.matchingKey keyId algorithm = .ok key) :
    ∃ jwk ∈ keys.keys, jwk.verificationKey = .ok key := by
  rw [matchingKey] at h
  split at h
  · next jwk hfind => exact ⟨jwk, List.mem_of_find?_eq_some hfind, h⟩
  · cases h

theorem Discovery.exists_document_of_keySet {url : Url} {fetcher : Fetcher} {keys : Jose.JwkSet}
    (h : (keySet url fetcher).result = .ok keys) :
    ∃ document, fetcher url.toText = .ok document ∧ readKeySet url document = .ok keys := by
  obtain ⟨document, hdocument, hkeys⟩ := (Fetching.result_bind_eq_ok fetcher).mp h
  rw [Fetching.result_ask] at hdocument
  exact ⟨document, hdocument, hkeys⟩

/-- What is found in an identity token: the WebID that its verified payload names, if the issuer may
speak for it, and then the application. -/
theorem IdToken.assertions_eq_ok_iff [Url.DomainRules] {trusted : List String} {token : String}
    {now : Nat} {fetcher : Fetcher} {found : List (String × Json)} :
    (assertions trusted token now fetcher).result = .ok found ↔
      ∃ payload webid,
        (SignedToken.idToken.verifiedPayload token now fetcher).result = .ok payload ∧
        payload.get? "webid" = some (.string webid) ∧
        (checkIssuer trusted webid (payload.issuer?.getD "") fetcher).result = .ok () ∧
        found = (ClaimName.webid, .string webid) ::
          ((client? payload).map (ClaimName.clientId, .string ·)).toList := by
  rw [assertions, Fetching.result_bind_eq_ok]
  constructor
  · rintro ⟨⟨webid, client⟩, hread, hfound⟩
    rw [Fetching.result_mapError_eq_ok, read, Fetching.result_bind_eq_ok] at hread
    obtain ⟨payload, hpayload, hread⟩ := hread
    cases hwebid : (payload.get? "webid").bind Json.string? with
    | none =>
      simp only [hwebid] at hread
      cases hread
    | some named =>
      simp only [hwebid, Fetching.result_bind_eq_ok, Fetching.result_pure, Except.ok.injEq] at hread
      obtain ⟨_, hissuer, hidentity⟩ := hread
      cases hidentity
      cases hfound
      obtain ⟨value, hvalue, hstring⟩ := Option.bind_eq_some_iff.mp hwebid
      cases Json.string?_eq_some_iff.mp hstring
      exact ⟨payload, webid, hpayload, hvalue, hissuer, rfl⟩
  · rintro ⟨payload, webid, hpayload, hwebid, hissuer, rfl⟩
    refine ⟨(webid, client? payload), ?_, rfl⟩
    rw [Fetching.result_mapError_eq_ok, read, Fetching.result_bind_eq_ok]
    refine ⟨payload, hpayload, ?_⟩
    simp only [hwebid, Option.bind_some, Json.string?, Fetching.result_bind_eq_ok]
    exact ⟨(), hissuer, rfl⟩

/-- The claims that are let through are those that are allowed, and the others are no error or there
are none. -/
theorem JwtOptions.select_eq_ok_iff {options : JwtOptions} {entries found : List (String × Json)} :
    options.select entries = .ok found ↔
      found = entries.filter (options.allowedClaims.contains ·.1) ∧
        (options.errorOnExtraClaims = true →
          ∀ entry ∈ entries, options.allowedClaims.contains entry.1 = true) := by
  induction entries generalizing found with
  | nil =>
    rw [select]
    constructor
    · rintro ⟨⟩
      exact ⟨rfl, by simp⟩
    · rintro ⟨rfl, -⟩
      rfl
  | cons entry rest ih =>
    obtain ⟨name, value⟩ := entry
    rw [select, List.forall_mem_cons, List.filter_cons]
    cases hallowed : options.allowedClaims.contains name with
    | true =>
      simp only [↓reduceIte, true_and]
      constructor
      · intro h
        cases hrest : options.select rest with
        | error e =>
          rw [hrest] at h
          cases h
        | ok others =>
          rw [hrest] at h
          cases h
          obtain ⟨rfl, hall⟩ := ih.mp hrest
          exact ⟨rfl, hall⟩
      · rintro ⟨rfl, hall⟩
        rw [ih.mpr ⟨rfl, hall⟩]
        rfl
    | false =>
      cases hstrict : options.errorOnExtraClaims with
      | true => simp
      | false => simpa [hstrict] using ih

end UserManagedAccess
