import UserManagedAccess.Dialog
import UserManagedAccess.Proofs.Messages
import UserManagedAccess.Proofs.RecordReading
import UserManagedAccess.Ticket

/-! Tickets and the messages of a negotiation are plain data: what is written for a value is read as
that value, and what has been read, from whatever form, is written in a form that says the same. -/
namespace UserManagedAccess

open Json Json.RecordDecoder

/-- A value is read as it was written if it is well made, and also if it has been read itself, from
any text or value in any of the forms that the decoder takes. -/
structure Json.KeepsValues {α : Type} (decoder : Decoder α) (write : α → Json)
    (WellMade : α → Prop) : Prop where
  written : ∀ a, WellMade a → decodeWith decoder (write a) = some a
  reread : ∀ d a, decoder d = .ok a → decodeWith decoder (write a) = some a

private theorem keepsValues {α : Type} {decoder : Decoder α} {write : α → Json} {P : α → Prop}
    (hyields : decoder.Yields P) (hread : ∀ a, P a → decoder (Document.ofJson (write a)) = .ok a) :
    KeepsValues decoder write P where
  written a ha := toOption_eq_some_iff.mpr (hread a ha)
  reread d a hd := toOption_eq_some_iff.mpr (hread a (hyields d a hd))

/-! ## Conditions -/

namespace Condition

/-- The members of every object within the condition stand in order. -/
def IsOrdered : Condition → Prop
  | .equals value => value.IsOrdered
  | .oneOf values => ∀ value ∈ values, value.IsOrdered
  | _ => True

private theorem splitKind_append {found : Option String} {members : List (String × Json)}
    (htype : ∀ member ∈ members, member.1 ≠ "type")
    (hordered : ∀ member ∈ members, member.2.IsOrdered)
    (content rest : List (Option String × Document)) (closed : Bool) :
    splitKind found content (Document.ofMembers members ++ rest) closed =
      splitKind found ((Document.ofMembers members).reverse ++ content) rest closed := by
  induction members generalizing content with
  | nil => rfl
  | cons member members ih =>
    obtain ⟨name, value⟩ := member
    obtain ⟨hname, htype⟩ := List.forall_mem_cons.mp htype
    obtain ⟨hvalue, hordered⟩ := List.forall_mem_cons.mp hordered
    rw [Document.ofMembers, List.cons_append, splitKind, Decoder.json_ofJson hvalue]
    · simp [ih htype hordered]
    · rintro ⟨⟩
      exact hname rfl

private theorem ofMembers_append (before after : List (String × Json)) :
    Document.ofMembers (before ++ after) =
      Document.ofMembers before ++ Document.ofMembers after := by
  induction before with
  | nil => rfl
  | cons member before ih => simp [Document.ofMembers, ih]

/-- The kind is found wherever it stands; the other members are the content. -/
private theorem decoder_object {kind : String} {record : RecordDecoder Condition}
    (hkind : kind ≠ "any") (hrecord : record? kind = some record)
    {before after : List (String × Json)}
    (htype : ∀ member ∈ before ++ after, member.1 ≠ "type")
    (hordered : ∀ member ∈ before ++ after, member.2.IsOrdered) :
    decoder (Document.ofJson (.object (before ++ ("type", .string kind) :: after))) =
      record.decode (Document.ofJson (.object (before ++ after))) := by
  obtain ⟨htypeBefore, htypeAfter⟩ := List.forall_mem_append.mp htype
  obtain ⟨hbefore, hafter⟩ := List.forall_mem_append.mp hordered
  have hread : Condition.kind (.string kind) = .ok kind := by
    have hknown : knowsKind kind = true := by simp [knowsKind, hrecord]
    simp [Condition.kind, Decoder.string, hknown, bind, Except.bind, pure, Except.pure]
  have hrest : splitKind (some kind) (Document.ofMembers before).reverse
      (Document.ofMembers after) true =
        .ok (kind, .object (Document.ofMembers (before ++ after)) true) := by
    rw [← List.append_nil (Document.ofMembers after), splitKind_append htypeAfter hafter, splitKind]
    simp [ofMembers_append]
  have hsplit : splitKind none []
      (Document.ofMembers (before ++ ("type", .string kind) :: after)) true =
        .ok (kind, .object (Document.ofMembers (before ++ after)) true) := by
    rw [ofMembers_append, splitKind_append htypeBefore hbefore, Document.ofMembers,
      Document.ofJson, splitKind, List.append_nil]
    simp only [Option.isSome_none, Bool.false_eq_true, ↓reduceIte, hread, hrest]
  rw [Document.ofJson, decoder, hsplit]
  change ofKind kind _ = _
  unfold ofKind
  rw [if_neg hkind, hrecord]
  rfl

theorem decoder_toJson {p : Condition} (h : p.IsOrdered) :
    decoder (Document.ofJson p.toJson) = .ok p := by
  cases p with
  | any => rfl
  | equals value =>
    have hsort : KeyMap.sortEntries [("type", Json.string "equals"), ("value", value)] =
        [] ++ ("type", .string "equals") :: [("value", value)] :=
      KeyMap.sortEntries_of_pairwise
        (List.pairwise_pair.mpr (show "type" < "value" by decide))
    have hvalue : ∀ member ∈ [("value", value)], member.2.IsOrdered :=
      List.forall_mem_singleton.mpr h
    rw [toJson, ofMembers, hsort, decoder_object (by decide) rfl (by simp) hvalue]
    refine decode_object ["value"] ⟨rfl, by simp⟩ (by simp) ?_
    exact Finds.map Condition.equals (finds_required rfl (Decoder.json_ofJson h))
  | oneOf values =>
    have hsort : KeyMap.sortEntries [("type", Json.string "one_of"), ("values", .array values)] =
        [] ++ ("type", .string "one_of") :: [("values", .array values)] :=
      KeyMap.sortEntries_of_pairwise
        (List.pairwise_pair.mpr (show "type" < "values" by decide))
    have hvalues : ∀ member ∈ [("values", Json.array values)], member.2.IsOrdered :=
      List.forall_mem_singleton.mpr (areOrdered_iff.mpr h)
    rw [toJson, ofMembers, hsort, decoder_object (by decide) rfl (by simp) hvalues]
    refine decode_object ["values"] ⟨rfl, by simp⟩ (by simp) ?_
    exact Finds.map Condition.oneOf (finds_required rfl (Decoder.list_json h))
  | sourceAccess issuer derivationId =>
    have hissuer : "issuer" < "type" := by decide
    have hid : "derivation_resource_id" < "issuer" := by decide
    have hsort : KeyMap.sortEntries [("type", Json.string "upstream_permission"),
        ("issuer", .string issuer), ("derivation_resource_id", .string derivationId)] =
          [("derivation_resource_id", .string derivationId), ("issuer", .string issuer)] ++
            ("type", .string "upstream_permission") :: [] := by
      simp only [KeyMap.sortEntries, List.foldl_cons, List.foldl_nil]
      rw [KeyMap.insertEntry_nil, KeyMap.insertEntry_of_lt hissuer, KeyMap.insertEntry_of_lt hid]
      rfl
    rw [toJson, ofMembers, hsort,
      decoder_object (by decide) rfl (by simp) (by simp [Json.IsOrdered])]
    refine decode_object ["issuer", "derivation_resource_id"] ⟨rfl, by simp⟩
      (List.pairwise_pair.mpr hid) ?_
    exact (Finds.map Condition.sourceAccess (finds_required rfl rfl)).seq (finds_required rfl rfl)

private theorem record?_yields {kind : String} {record : RecordDecoder Condition}
    (h : record? kind = some record) : record.Yields IsOrdered := by
  have htrue {α : Type} {name : String} {decoder : Decoder α} :
      (required name decoder).Yields fun _ => True :=
    yields_required decoder.yields_true
  rw [record?] at h
  split at h
  · cases h
    exact Yields.map (yields_required Decoder.yields_json) fun _ h => h
  · split at h
    · cases h
      exact Yields.map (yields_required Decoder.yields_json.list) fun _ h => h
    · split at h
      · cases h
        exact (Yields.map htrue fun _ _ _ _ => trivial).seq htrue
      · cases h

private theorem isOrdered_of_ofKind {kind : String} {content : Document} {p : Condition}
    (h : ofKind kind content = .ok p) : p.IsOrdered := by
  unfold ofKind at h
  split at h
  · split at h <;> cases h
    trivial
  · split at h
    · next record hrecord => exact (record?_yields hrecord).decode content p h
    · cases h

theorem yields_decoder : decoder.Yields IsOrdered := by
  intro d p hp
  cases d with
  | object members closed =>
    obtain ⟨⟨kind, content⟩, -, hp⟩ := exists_of_bind_eq_ok hp
    exact isOrdered_of_ofKind hp
  | array items closed =>
    cases items with
    | nil => cases hp
    | cons first rest =>
      obtain ⟨kind, -, hp⟩ := exists_of_bind_eq_ok hp
      obtain ⟨_, -, hp⟩ := exists_of_bind_eq_ok hp
      exact isOrdered_of_ofKind hp
  | _ => cases hp

end Condition

/-! ## Tickets -/

namespace Claims

/-- The members of every object within the claims stand in order. -/
def IsOrdered (c : Claims) : Prop :=
  ∀ entry ∈ c.claims.entries, ∀ value ∈ entry.2, value.IsOrdered

theorem decoder_toJson {c : Claims} (h : c.IsOrdered) :
    decoder (Document.ofJson c.toJson) = .ok c := by
  have hread : Decoder.keyMap (.list .json) (Document.ofJson c.toJson) = .ok c.claims :=
    Decoder.keyMap_ofJson fun entry hentry => Decoder.list_json (h entry hentry)
  rw [decoder, hread]
  rfl

theorem yields_decoder : decoder.Yields IsOrdered := by
  intro d c hc
  obtain ⟨map, hmap, rfl⟩ := exists_of_map_eq_ok hc
  exact Decoder.yields_json.list.keyMap d map hmap

end Claims

namespace Requirements

/-- The members of every object within the requirements stand in order. -/
def IsOrdered (r : Requirements) : Prop :=
  ∀ entry ∈ r.claims.entries, ∀ p ∈ entry.2, p.IsOrdered

theorem decoder_toJson {r : Requirements} (h : r.IsOrdered) :
    decoder (Document.ofJson r.toJson) = .ok r := by
  have hread : Decoder.keyMap (.list Condition.decoder) (Document.ofJson r.toJson) =
      .ok r.claims :=
    Decoder.keyMap_ofJson fun entry hentry =>
      Decoder.list_ofJson fun p hp => Condition.decoder_toJson (h entry hentry p hp)
  rw [decoder, hread]
  rfl

theorem yields_decoder : decoder.Yields IsOrdered := by
  intro d r hr
  obtain ⟨map, hmap, rfl⟩ := exists_of_map_eq_ok hr
  exact Condition.yields_decoder.list.keyMap d map hmap

end Requirements

namespace Ticket

/-- The members of every object within the ticket stand in order. -/
structure IsOrdered (t : Ticket) : Prop where
  required : ∀ r ∈ t.required, r.IsOrdered
  provided : t.provided.IsOrdered

theorem decoder_toJson {t : Ticket} (h : t.IsOrdered) :
    decoder (Document.ofJson t.toJson) = .ok t := by
  obtain ⟨permissions, required, provided⟩ := t
  refine decode_ofMembers ["permissions", "required", "provided"] ⟨rfl, by decide⟩ (by simp) ?_
  refine Finds.seq (Finds.seq (Finds.map Ticket.mk ?_) ?_) ?_
  · exact finds_required rfl (Permission.listDecoder_listToJson permissions)
  · exact finds_required rfl
      (Decoder.list_ofJson fun r hr => Requirements.decoder_toJson (h.required r hr))
  · exact finds_withDefault rfl (Claims.decoder_toJson h.provided)

theorem yields_decoder : decoder.Yields IsOrdered := by
  have hpermissions : (RecordDecoder.required "permissions" Permission.listDecoder).Yields
      fun _ => True :=
    yields_required Permission.listDecoder.yields_true
  have hrequired : (RecordDecoder.required "required" (.list Requirements.decoder)).Yields
      fun rs => ∀ r ∈ rs, r.IsOrdered :=
    yields_required Requirements.yields_decoder.list
  have hprovided : (withDefault "provided" Claims.decoder ∅).Yields Claims.IsOrdered :=
    yields_withDefault Claims.yields_decoder nofun
  refine Yields.decode (Yields.seq (Yields.seq (Yields.map hpermissions ?_) hrequired) hprovided)
  exact fun _ _ _ hrequired _ hprovided => ⟨hrequired, hprovided⟩

end Ticket

/-! ## Requests and demands -/

theorem ClaimToken.decoder_toJson (pair : ClaimToken) :
    decoder (Document.ofJson pair.toJson) = .ok pair := by
  obtain ⟨token, format⟩ := pair
  refine decode_ofMembers ["claim_token", "claim_token_format"] ⟨rfl, by decide⟩ (by simp) ?_
  exact (Finds.map ClaimToken.mk (finds_optional_ofOption_string rfl)).seq
    (finds_optional_ofOption_string rfl)

theorem TokenRequest.decoder_toJson (request : TokenRequest) :
    decoder (Document.ofJson request.toJson) = .ok request := by
  obtain ⟨grantType, ticket, permissions, scope, claimToken, claimTokenFormat, claimTokens⟩ :=
    request
  refine decode_ofMembers ["grant_type", "ticket", "permissions", "scope", "claim_token",
    "claim_token_format", "claim_tokens"] ⟨rfl, by decide⟩ (by simp) ?_
  have hpermissions {look : String → Option Json}
      (h : look "permissions" = some (.ofOption Permission.listToJson permissions)) :
      (optional "permissions" Permission.listDecoder).Finds look permissions :=
    finds_optional_ofOption h fun ps _ => ⟨nofun, Permission.listDecoder_listToJson ps⟩
  have hpairs {look : String → Option Json}
      (h : look "claim_tokens" = some (.ofOption
        (fun pairs : List ClaimToken => .array (pairs.map ClaimToken.toJson)) claimTokens)) :
      (optional "claim_tokens" (.list ClaimToken.decoder)).Finds look claimTokens :=
    finds_optional_ofOption h fun pairs _ =>
      ⟨nofun, Decoder.list_ofJson fun pair _ => ClaimToken.decoder_toJson pair⟩
  refine Finds.seq (Finds.seq (Finds.seq (Finds.seq (Finds.seq (Finds.seq
    (Finds.map TokenRequest.mk ?_) ?_) (hpermissions rfl)) ?_) ?_) ?_) (hpairs rfl)
  all_goals exact finds_optional_ofOption_string rfl

theorem SourceDetails.decoder_toJson (details : SourceDetails) :
    decoder (Document.ofJson details.toJson) = .ok details := by
  obtain ⟨issuer, resource, scopes⟩ := details
  refine decode_ofMembers ["issuer", "resource_id", "resource_scopes"] ⟨rfl, by decide⟩
    (by simp) ?_
  exact ((Finds.map SourceDetails.mk (finds_required rfl rfl)).seq (finds_required rfl rfl)).seq
    (finds_required rfl (Decoder.list_strings scopes))

namespace WantedClaim

private theorem sourceDecoder_toJson (name friendlyName format : String) (details : SourceDetails) :
    sourceDecoder (Document.ofJson (source name friendlyName format details).toJson) =
      .ok (source name friendlyName format details) := by
  change RecordDecoder.decode _ (Document.ofJson (.ofMembers _)) = _
  refine decode_ofMembers ["name", "friendly_name", "claim_token_format", "details"]
    ⟨rfl, by decide⟩ (by simp) ?_
  exact (((Finds.map WantedClaim.source (finds_required rfl rfl)).seq (finds_required rfl rfl)).seq
    (finds_required rfl rfl)).seq (finds_required rfl details.decoder_toJson)

private theorem isOrdered_toJson (wanted : WantedClaim) : wanted.toJson.IsOrdered := by
  have hwell : wanted.toJson.WellFormed 3 := by
    cases wanted with
    | claim format => exact wellFormed_ofMembers (by simp [wellFormed_string])
    | source name friendlyName format details =>
      have hdetails : details.toJson.WellFormed 2 :=
        wellFormed_ofMembers (by simp [wellFormed_string, wellFormed_strings])
      exact wellFormed_ofMembers (by simp [wellFormed_string, hdetails])
  exact hwell.ordered

/-- What names a claim does not describe a source, so neither kind is taken for the other. -/
theorem decoder_toJson (wanted : WantedClaim) :
    decoder (Document.ofJson wanted.toJson) = .ok wanted := by
  rw [decoder, Decoder.buffered, Decoder.json_ofJson wanted.isOrdered_toJson]
  cases wanted with
  | source name friendlyName format details =>
    simp only [sourceDecoder_toJson]
    rfl
  | claim format => rfl

end WantedClaim

theorem Demand.decoder_toJson (demand : Demand) :
    decoder (Document.ofJson demand.toJson) = .ok demand := by
  obtain ⟨ticket, wantedClaims⟩ := demand
  refine decode_ofMembers ["ticket", "required_claims"] ⟨rfl, by decide⟩ (by simp) ?_
  exact (Finds.map Demand.mk (finds_required rfl rfl)).seq
    (finds_required rfl (Decoder.list_ofJson fun wanted _ => wanted.decoder_toJson))

/-- Claims and conditions may hold any values, and nothing of them is lost; nor is a wanted claim
ever taken for one of the other kind. -/
theorem messages_read_as_written :
    KeepsValues Permission.decoder Permission.toJson (fun _ => True) ∧
      KeepsValues Claims.decoder Claims.toJson Claims.IsOrdered ∧
      KeepsValues Condition.decoder Condition.toJson Condition.IsOrdered ∧
      KeepsValues Requirements.decoder Requirements.toJson Requirements.IsOrdered ∧
      KeepsValues Ticket.decoder Ticket.toJson Ticket.IsOrdered ∧
      KeepsValues TokenRequest.decoder TokenRequest.toJson (fun _ => True) ∧
      KeepsValues WantedClaim.decoder WantedClaim.toJson (fun _ => True) ∧
      KeepsValues Demand.decoder Demand.toJson (fun _ => True) :=
  ⟨keepsValues (Decoder.yields_true _) fun p _ => p.decoder_toJson,
    keepsValues Claims.yields_decoder fun _ => Claims.decoder_toJson,
    keepsValues Condition.yields_decoder fun _ => Condition.decoder_toJson,
    keepsValues Requirements.yields_decoder fun _ => Requirements.decoder_toJson,
    keepsValues Ticket.yields_decoder fun _ => Ticket.decoder_toJson,
    keepsValues (Decoder.yields_true _) fun request _ => request.decoder_toJson,
    keepsValues (Decoder.yields_true _) fun wanted _ => wanted.decoder_toJson,
    keepsValues (Decoder.yields_true _) fun demand _ => demand.decoder_toJson⟩

def sampleNested : Json :=
  .object [("type", .array [.null, .object [("type", .string "any")]]), ("value", .ofInt 18)]

/-- A ticket whose conditions and claims hold objects that look like conditions. -/
def sampleNestedTicket : Ticket where
  permissions := [⟨none, some []⟩]
  required := [⟨.ofList [("age", [.equals sampleNested, .oneOf [.null, sampleNested], .any])]⟩, ∅]
  provided := ⟨.ofList [("age", [sampleNested]), ("nothing", [])]⟩

/-- A ticket that was written is read as it is, and one that an array gave is read again. -/
theorem sample_ticket_read_as_written :
    (sampleNestedTicket.IsOrdered ∧
      decodeWith Ticket.decoder sampleNestedTicket.toJson = some sampleNestedTicket) ∧
    (Ticket.decoder (.array [.array [.array [.null] true] true, .array [] true] true) =
        .ok ⟨[⟨none, none⟩], [], ∅⟩ ∧
      decodeWith Ticket.decoder (Ticket.toJson ⟨[⟨none, none⟩], [], ∅⟩) =
        some ⟨[⟨none, none⟩], [], ∅⟩) := by
  have hnested : sampleNested.IsOrdered := by
    simp only [sampleNested, Json.IsOrdered, AreOrdered, AreOrderedMembers, Json.ofInt]
    decide
  have hordered : sampleNestedTicket.IsOrdered := by
    constructor
    · refine List.forall_mem_cons.mpr
        ⟨?_, List.forall_mem_cons.mpr ⟨List.forall_mem_nil _, List.forall_mem_nil _⟩⟩
      change ∀ entry ∈ [("age", [Condition.equals sampleNested, .oneOf [.null, sampleNested],
        .any])], ∀ p ∈ entry.2, p.IsOrdered
      simp [Condition.IsOrdered, Json.IsOrdered, hnested]
    · change ∀ entry ∈ [("age", [sampleNested]), ("nothing", [])], ∀ v ∈ entry.2, v.IsOrdered
      simp [hnested]
  have hread : Ticket.decoder (.array [.array [.array [.null] true] true, .array [] true] true) =
      .ok ⟨[⟨none, none⟩], [], ∅⟩ := rfl
  obtain ⟨-, -, -, -, htickets, -⟩ := messages_read_as_written
  exact ⟨⟨hordered, htickets.written _ hordered⟩, hread, htickets.reread _ _ hread⟩

end UserManagedAccess
