import UserManagedAccess.Proofs.Encodings
import UserManagedAccess.Proofs.JsonText
import UserManagedAccess.Proofs.Round
import UserManagedAccess.Proofs.TextParts

/-! What a granted token is for can be read off it: off its own text if it is signed, and off the
store of the server if it is kept there. No claim is made about who could read it. -/
namespace UserManagedAccess

namespace Jose.Compact

theorem segment_injective {v w : Json} (h : segment v = segment w) : v.toText = w.toText :=
  Text.Utf8.encode_injective (Text.Base64Url.encode_injective h)

/-- Tokens with one header and equal texts have equal payloads. -/
theorem payload_eq_of_toText_eq {header signature signature' : String} {v w : Json}
    (h : (⟨header, segment v, signature⟩ : Compact).toText =
      (⟨header, segment w, signature'⟩ : Compact).toText) : v.toText = w.toText := by
  have hlist := congrArg String.toList h
  simp only [toText, message, String.toList_append, List.append_assoc] at hlist
  have hrest := List.append_cancel_left (List.append_cancel_left hlist)
  refine segment_injective (String.toList_inj.mp (Text.eq_of_append_cons '.' ?_ ?_ hrest))
  · simpa [segment, Text.Base64Url.encode] using Text.Base64Url.dot_not_mem_encodeChars _
  · simpa [segment, Text.Base64Url.encode] using Text.Base64Url.dot_not_mem_encodeChars _

end Jose.Compact

namespace Permission

/-- Both members stand in order, and one that is absent is left out. -/
theorem toJson_eq (resource : Option String) (scopes : Option (List String)) :
    (⟨resource, scopes⟩ : Permission).toJson =
      .object ((resource.map fun id => ("resource_id", Json.string id)).toList ++
        (scopes.map fun listed => ("resource_scopes", Json.strings listed)).toList) := by
  cases resource <;> cases scopes <;>
    simp only [toJson, Json.ofSome, Json.ofMembers, KeyMap.sortEntries, KeyMap.insertEntry,
      Option.map_none, Option.map_some, Option.some.injEq, List.filterMap_cons_none,
      List.filterMap_cons_some, List.filterMap_nil, List.foldl_cons, List.foldl_nil,
      String.reduceLT, String.reduceEq, ↓reduceIte, Option.toList_none, Option.toList_some,
      List.cons_append, List.nil_append, List.append_nil]

theorem toJson_injective : Function.Injective toJson := by
  rintro ⟨resource, scopes⟩ ⟨resource', scopes'⟩ h
  have hscopes (ss ts : List String) : Json.strings ss = Json.strings ts ↔ ss = ts := by
    simp only [Json.strings, Json.array.injEq]
    exact ⟨fun h => List.map_inj_right (fun _ _ => Json.string.inj) |>.mp h, congrArg _⟩
  rw [toJson_eq, toJson_eq] at h
  cases resource <;> cases resource' <;> cases scopes <;> cases scopes' <;> simp_all

private theorem isNumberFree_strings (texts : List String) : (Json.strings texts).IsNumberFree := by
  simp only [Json.strings, Json.IsNumberFree]
  induction texts with
  | nil => trivial
  | cons text rest ih => exact ⟨trivial, ih⟩

private theorem isNumberFree_toJson (p : Permission) : p.toJson.IsNumberFree := by
  rcases p with ⟨_ | resource, _ | scopes⟩ <;>
    simp [toJson_eq, Json.IsNumberFree, Json.AreNumberFreeMembers, isNumberFree_strings]

theorem isNumberFree_listToJson (ps : List Permission) : (listToJson ps).IsNumberFree := by
  simp only [listToJson, Json.IsNumberFree]
  induction ps with
  | nil => trivial
  | cons p rest ih => exact ⟨isNumberFree_toJson p, ih⟩

theorem listToJson_injective : Function.Injective listToJson := by
  intro ps qs h
  exact (List.map_inj_right fun _ _ hpq => toJson_injective hpq).mp (Json.array.inj h)

end Permission

namespace TokenSigner

theorem payload_ofPermissions (signer : TokenSigner) (now : Nat) (id : String)
    (permissions : List Permission) :
    signer.payload now id (.ofPermissions permissions) =
      .object [("aud", .string solidAudience), ("exp", .ofInt (now + signer.lifetime)),
        ("iat", .ofNat now), ("iss", .string signer.issuer), ("jti", .string id),
        ("permissions", Permission.listToJson permissions)] := by
  simp only [payload, AccessToken.members, AccessToken.ofPermissions, Json.ofSome, Json.ofMembers,
    KeyMap.sortEntries, KeyMap.insertEntry, Option.map_none, Option.map_some, Option.some.injEq,
    List.cons_append, List.nil_append, List.filterMap_cons_none, List.filterMap_cons_some,
    List.filterMap_nil, List.foldl_cons, List.foldl_nil, String.reduceLT, String.reduceEq,
    ↓reduceIte]

/-- Tokens of one signer that were made at one time grant the same if they have the same text,
whatever their ids. -/
theorem mint_ofPermissions_inj {signer : TokenSigner} {now : Nat} {id id' : String}
    {ps qs : List Permission}
    (h : (signer.mint now id (.ofPermissions ps)).token =
      (signer.mint now id' (.ofPermissions qs)).token) : ps = qs := by
  have htext := String.ofList_inj.mp (Jose.Compact.payload_eq_of_toText_eq h)
  rw [payload_ofPermissions, payload_ofPermissions] at htext
  simp only [Json.chars, Json.memberChars, List.append_assoc, List.cons_append, List.cons.injEq,
    true_and, List.append_cancel_left_eq] at htext
  obtain ⟨-, hrest⟩ := Json.stringChars_prefixFree _ _ _ _ htext
  simp only [List.cons.injEq, true_and, List.append_cancel_left_eq] at hrest
  have hpermissions := Json.chars_prefixFree ⟨_, Permission.isNumberFree_listToJson ps⟩
    ⟨_, Permission.isNumberFree_listToJson qs⟩ _ _ hrest
  exact Permission.listToJson_injective (Subtype.mk.inj hpermissions.1)

end TokenSigner

namespace Server

/-- The text is a token for the permissions that was handed out just now. -/
def TokenFor (server : Server) (around : Surroundings) (s : ServerState) (text : String)
    (permissions : List Permission) : Prop :=
  match server.tokenForm with
  | .signed => ∃ id, text = (server.signer.mint around.now id (.ofPermissions permissions)).token
  | .kept =>
    s.tokens.get? text = some ⟨.ofPermissions permissions, around.now + server.lifetime⟩

theorem TokenFor.unique {server : Server} {around : Surroundings} {s : ServerState} {text : String}
    {ps qs : List Permission} (hp : server.TokenFor around s text ps)
    (hq : server.TokenFor around s text qs) : ps = qs := by
  rw [TokenFor] at hp hq
  cases hform : server.tokenForm with
  | signed =>
    rw [hform] at hp hq
    obtain ⟨id, rfl⟩ := hp
    obtain ⟨id', hq⟩ := hq
    exact TokenSigner.mint_ofPermissions_inj hq
  | kept =>
    rw [hform] at hp hq
    simp only [hp, Option.some.injEq, KeptToken.mk.injEq, AccessToken.ofPermissions,
      AccessToken.mk.injEq, and_true] at hq
    exact hq

/-- What a grant hands out is a token for what is granted. -/
theorem tokenFor_grantOf (server : Server) (around : Surroundings) (s : ServerState)
    (permissions : List Permission) (scopes : List String) :
    server.TokenFor around (server.stateWith around s permissions scopes)
      (server.grantOf around s permissions scopes).accessToken permissions := by
  have htokens : (server.stateWith around s permissions scopes).tokens =
      server.tokensWith around s permissions := by
    rw [stateWith]
    split <;> rfl
  rw [TokenFor, htokens, tokensWith, grantOf, tokenText]
  cases server.tokenForm with
  | signed => exact ⟨s.ids.next.1, rfl⟩
  | kept => exact KeyMap.get?_insert_self _ _ _

end Server

end UserManagedAccess
