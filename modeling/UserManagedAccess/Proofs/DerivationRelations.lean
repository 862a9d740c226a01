import Mathlib.Data.List.Forall2
import UserManagedAccess.Proofs.Records
import UserManagedAccess.Resource

/-! What a resource was derived from is kept. However its sources are given, under either name and
singly or in a list, they are the ones that are read; the relations that are not understood are kept
beside them, and neither is lost when the description is written and read again. -/
namespace UserManagedAccess

open Json Json.RecordDecoder

/-! ## Sources -/

namespace Source

/-- One source: an object with the two texts, whatever else it holds, or an array of the two. -/
inductive IsGiven (source : Source) : Json → Prop
  | object {members : List (String × Json)} :
    KeyMap.findEntry "issuer" members = some (.string source.issuer) →
    KeyMap.findEntry "derivation_resource_id" members = some (.string source.derivationId) →
    IsGiven source (.object members)
  | array : IsGiven source (.array [.string source.issuer, .string source.derivationId])

/-- One source by itself, or a list of them. -/
inductive AreGiven : List Source → Json → Prop
  | one {source : Source} {v : Json} : source.IsGiven v → AreGiven [source] v
  | list {sources : List Source} {values : List Json} :
    List.Forall₂ IsGiven sources values → AreGiven sources (.array values)

private theorem string_eq_ok {v : Json} {s : String}
    (h : Decoder.string (Document.ofJson v) = .ok s) : v = .string s := by
  cases v <;> cases h
  rfl

private theorem isGiven_of_decoder {source : Source} {v : Json}
    (h : decoder (Document.ofJson v) = .ok source) : source.IsGiven v := by
  have hbuild {a b : Option Json}
      (h : (Source.mk <$> required "issuer" Decoder.string
        <*> required "derivation_resource_id" Decoder.string).build
          [a.map Document.ofJson, b.map Document.ofJson] = .ok source) :
      a = some (.string source.issuer) ∧ b = some (.string source.derivationId) := by
    obtain ⟨_, derivationId, hpart, hsecond, rfl⟩ := build_seq_eq_ok h
    obtain ⟨_, issuer, hmake, hfirst, rfl⟩ := build_seq_eq_ok hpart
    cases hmake
    obtain ⟨v, rfl, hv⟩ := build_required_eq_ok hfirst
    obtain ⟨w, rfl, hw⟩ := build_required_eq_ok hsecond
    rw [string_eq_ok hv, string_eq_ok hw]
    exact ⟨rfl, rfl⟩
  cases v with
  | object members =>
    obtain ⟨hissuer, hid⟩ := hbuild (build_of_decode_object ["issuer", "derivation_resource_id"]
      ⟨rfl, by decide⟩ h)
    exact .object hissuer hid
  | array items =>
    obtain ⟨hlength, h⟩ := build_of_decode_array h
    obtain ⟨hissuer, hid⟩ := hbuild h
    obtain ⟨a, b, rfl⟩ : ∃ a b, items = [a, b] := by
      match items, hlength, hid with
      | [a, b], _, _ => exact ⟨a, b, rfl⟩
    cases hissuer
    cases hid
    exact .array
  | _ => cases h

theorem decoder_eq_ok_iff {source : Source} {v : Json} (hordered : v.IsOrdered) :
    decoder (Document.ofJson v) = .ok source ↔ source.IsGiven v := by
  refine ⟨isGiven_of_decoder, fun h => ?_⟩
  cases h with
  | object hissuer hid =>
    refine decode_object ["issuer", "derivation_resource_id"] ⟨rfl, by decide⟩ hordered.1 ?_
    exact (Finds.map Source.mk (finds_required hissuer rfl)).seq (finds_required hid rfl)
  | array => rfl

theorem isGiven_toJson (source : Source) : source.IsGiven source.toJson := by
  refine .object ?_ ?_ <;> rw [KeyMap.findEntry_sortEntries (by simp)] <;> rfl

/-- The texts of one source are no sources, so a list is never taken for one source. -/
private theorem not_isGiven_of_forall₂ {source : Source} {sources : List Source}
    {values : List Json} (h : List.Forall₂ IsGiven sources values) :
    ¬ source.IsGiven (.array values) := by
  rintro ⟨⟩
  obtain ⟨_, _, ⟨⟩, -, -, -⟩ := List.forall₂_cons_right_iff.mp h

private theorem list_eq_ok_iff {sources : List Source} {values : List Json}
    (hordered : (Json.array values).IsOrdered) :
    Decoder.list decoder (Document.ofJson (.array values)) = .ok sources ↔
      List.Forall₂ IsGiven sources values := by
  replace hordered : ∀ v ∈ values, v.IsOrdered := areOrdered_iff.mp hordered
  change Decoder.items decoder (Document.ofItems values) true = _ ↔ _
  rw [Decoder.items_eq_ok_iff]
  induction values generalizing sources with
  | nil => cases sources <;> simp
  | cons v values ih =>
    obtain ⟨hv, hvalues⟩ := List.forall_mem_cons.mp hordered
    cases sources with
    | nil => simp
    | cons source sources =>
      rw [List.map_cons, List.map_cons, List.cons.injEq, ih hvalues, List.forall₂_cons, decodeWith,
        toOption_eq_some_iff, decoder_eq_ok_iff hv]

end Source

namespace Provenance
variable {p : Provenance}

theorem sourcesDecoder_eq_ok_iff {sources : List Source} {v : Json} (hordered : v.IsOrdered) :
    sourcesDecoder (Document.ofJson v) = .ok sources ↔ Source.AreGiven sources v := by
  rw [sourcesDecoder, Decoder.buffered, Decoder.json_ofJson hordered, mapError_eq_ok]
  cases hone : Source.decoder (Document.ofJson v) with
  | ok source =>
    have hgiven := (Source.decoder_eq_ok_iff hordered).mp hone
    constructor
    · intro h
      cases h
      exact .one hgiven
    · intro h
      cases h with
      | one h =>
        cases hone.symm.trans ((Source.decoder_eq_ok_iff hordered).mpr h)
        rfl
      | list h => exact absurd hgiven (Source.not_isGiven_of_forall₂ h)
  | error e =>
    constructor
    · intro h
      cases v with
      | array values => exact .list ((Source.list_eq_ok_iff hordered).mp h)
      | _ => cases h
    · intro h
      cases h with
      | one h => cases hone.symm.trans ((Source.decoder_eq_ok_iff hordered).mpr h)
      | list h => exact (Source.list_eq_ok_iff hordered).mpr h

/-- The sources that an object gives: those under one of the two names, or none. -/
inductive SourcesGiven (given : Json) : List Source → Prop
  | none : (∀ name ∈ derivedFromNames, given.member? name = none) → SourcesGiven given []
  | under {name : String} {v : Json} {sources : List Source} :
    name ∈ derivedFromNames → given.member? name = some v →
    (∀ other ∈ derivedFromNames, other ≠ name → given.member? other = none) →
    Source.AreGiven sources v → SourcesGiven given sources

/-- The relations are those of an object: its sources, and every other member as it is. -/
structure IsGiven (p : Provenance) (given : Json) : Prop where
  derivedFrom : SourcesGiven given p.derivedFrom
  other : ∀ name, p.other.get? name =
    if name ∈ derivedFromNames then none else given.member? name

private def sourceMembers (members : List (String × Json)) : List (String × Json) :=
  members.filter fun member => derivedFromNames.contains member.1

private def otherMembers (members : List (String × Json)) : List (String × Json) :=
  members.filter fun member => !derivedFromNames.contains member.1

private theorem readMembers_eq_ok_iff {members : List (String × Json)}
    (hordered : ∀ member ∈ members, member.2.IsOrdered) {sources : Option (List Source)}
    {other : List (String × Json)} :
    readMembers sources other (Document.ofMembers members) true = .ok p ↔
      p.other = .ofList (other.reverse ++ otherMembers members) ∧
        (sourceMembers members = [] ∧ p.derivedFrom = sources.getD [] ∨
          sources = none ∧ ∃ name v, sourceMembers members = [(name, v)] ∧
            Source.AreGiven p.derivedFrom v) := by
  obtain ⟨derivedFrom, others⟩ := p
  induction members generalizing sources other with
  | nil =>
    simp [Document.ofMembers, readMembers, sourceMembers, otherMembers, eq_comm, and_comm]
  | cons member members ih =>
    obtain ⟨name, v⟩ := member
    obtain ⟨hv, hmembers⟩ := List.forall_mem_cons.mp hordered
    rw [Document.ofMembers, readMembers]
    by_cases hname : name ∈ derivedFromNames
    · have hothers : otherMembers ((name, v) :: members) = otherMembers members := by
        simp [otherMembers, hname]
      have hsources : sourceMembers ((name, v) :: members) = (name, v) :: sourceMembers members := by
        simp [sourceMembers, hname]
      rw [if_pos (List.contains_iff_mem.mpr hname), hothers, hsources]
      have hgiven (ss : List Source) :
          sourcesDecoder (Document.ofJson v) = .ok ss ↔ Source.AreGiven ss v :=
        sourcesDecoder_eq_ok_iff hv
      cases sources with
      | some ss => simp
      | none =>
        cases hread : sourcesDecoder (Document.ofJson v) with
        | error e => simp [← hgiven, hread]
        | ok ss =>
          have hsame : Source.AreGiven derivedFrom v ↔ derivedFrom = ss := by
            rw [← hgiven, hread]
            exact ⟨fun h => (Except.ok.inj h).symm, fun h => h ▸ rfl⟩
          change readMembers (some ss) other _ true = _ ↔ _
          rw [ih hmembers]
          simp [hsame]
    · have hothers : otherMembers ((name, v) :: members) = (name, v) :: otherMembers members := by
        simp [otherMembers, hname]
      have hsources : sourceMembers ((name, v) :: members) = sourceMembers members := by
        simp [sourceMembers, hname]
      rw [if_neg fun h => hname (List.contains_iff_mem.mp h), Decoder.json_ofJson hv, hothers,
        hsources]
      simp [ih hmembers]

section
variable {members : List (String × Json)} (hsorted : members.Pairwise (fun a b => a.1 < b.1))
include hsorted

private theorem sourceMembers_eq_nil_iff :
    sourceMembers members = [] ↔
      ∀ name ∈ derivedFromNames, KeyMap.findEntry name members = none := by
  rw [sourceMembers, List.filter_eq_nil_iff]
  constructor
  · intro h name hname
    rw [Option.eq_none_iff_forall_ne_some]
    intro v hv
    exact h (name, v) (KeyMap.mem_of_findEntry hv) (List.contains_iff_mem.mpr hname)
  · rintro h ⟨name, v⟩ hmem hname
    have hnone := h name (List.contains_iff_mem.mp hname)
    rw [KeyMap.findEntry_of_mem hsorted hmem] at hnone
    cases hnone

private theorem sourceMembers_eq_singleton_iff {name : String} {v : Json} :
    sourceMembers members = [(name, v)] ↔
      name ∈ derivedFromNames ∧ KeyMap.findEntry name members = some v ∧
        ∀ other ∈ derivedFromNames, other ≠ name → KeyMap.findEntry other members = none := by
  constructor
  · intro h
    have hmem : (name, v) ∈ sourceMembers members := h ▸ List.mem_singleton_self _
    obtain ⟨hmem, hname⟩ := List.mem_filter.mp hmem
    refine ⟨List.contains_iff_mem.mp hname, KeyMap.findEntry_of_mem hsorted hmem, ?_⟩
    intro other hother hne
    rw [Option.eq_none_iff_forall_ne_some]
    intro w hw
    have hkept : (other, w) ∈ sourceMembers members :=
      List.mem_filter.mpr ⟨KeyMap.mem_of_findEntry hw, List.contains_iff_mem.mpr hother⟩
    rw [h] at hkept
    cases List.mem_singleton.mp hkept
    exact hne rfl
  · rintro ⟨hname, hv, hothers⟩
    have hsame : (⟨sourceMembers members, hsorted.filter _⟩ : KeyMap Json) =
        ⟨[(name, v)], List.pairwise_singleton _ _⟩ := by
      refine KeyMap.ext_get? fun key => ?_
      change KeyMap.findEntry key (sourceMembers members) = KeyMap.findEntry key [(name, v)]
      rw [sourceMembers, KeyMap.findEntry_filter, KeyMap.findEntry, KeyMap.findEntry]
      by_cases hkey : key = name
      · subst hkey
        rw [if_pos (List.contains_iff_mem.mpr hname), if_pos rfl, hv]
      · rw [if_neg hkey]
        split
        · next hmem => exact hothers key (List.contains_iff_mem.mp hmem) hkey
        · rfl
    exact congrArg KeyMap.entries hsame

end

private theorem eq_ofList_otherMembers_iff {members : List (String × Json)}
    (hsorted : members.Pairwise (fun a b => a.1 < b.1)) {map : KeyMap Json} :
    map = .ofList (otherMembers members) ↔ ∀ name, map.get? name =
      if name ∈ derivedFromNames then none else KeyMap.findEntry name members := by
  have hfound (name : String) : (KeyMap.ofList (otherMembers members)).get? name =
      if name ∈ derivedFromNames then none else KeyMap.findEntry name members := by
    change KeyMap.findEntry name (KeyMap.ofList (otherMembers members)).entries = _
    rw [KeyMap.entries_ofList, otherMembers, KeyMap.sortEntries_of_pairwise (hsorted.filter _),
      KeyMap.findEntry_filter fun name => !derivedFromNames.contains name]
    by_cases hname : name ∈ derivedFromNames <;> simp [hname]
  constructor
  · rintro rfl
    exact hfound
  · intro h
    exact KeyMap.ext_get? fun name => (h name).trans (hfound name).symm

theorem decoder_eq_ok_iff {members : List (String × Json)}
    (hordered : (Json.object members).IsOrdered) :
    decoder (Document.ofJson (.object members)) = .ok p ↔ p.IsGiven (.object members) := by
  obtain ⟨derivedFrom, other⟩ := p
  rw [Document.ofJson, decoder, readMembers_eq_ok_iff (areOrderedMembers_iff.mp hordered.2),
    List.reverse_nil, List.nil_append, eq_ofList_otherMembers_iff hordered.1,
    sourceMembers_eq_nil_iff hordered.1]
  simp only [sourceMembers_eq_singleton_iff hordered.1]
  constructor
  · rintro ⟨hother, ⟨hnone, rfl⟩ | ⟨-, name, v, ⟨hname, hv, hothers⟩, hgiven⟩⟩
    · exact ⟨.none hnone, hother⟩
    · exact ⟨.under hname hv hothers hgiven, hother⟩
  · rintro ⟨hderived, hother⟩
    refine ⟨hother, ?_⟩
    cases hderived with
    | none hnone => exact .inl ⟨hnone, rfl⟩
    | under hname hv hothers hgiven => exact .inr ⟨trivial, _, _, ⟨hname, hv, hothers⟩, hgiven⟩

/-- The relations that are not understood are values, and none of them goes by a name of the
sources. -/
structure IsPlain (p : Provenance) : Prop where
  ordered : ∀ name v, p.other.get? name = some v → v.IsOrdered
  avoids : ∀ name ∈ derivedFromNames, p.other.get? name = none

/-- All that is kept from an object can be written. -/
theorem IsGiven.isPlain {members : List (String × Json)} (hordered : (Json.object members).IsOrdered)
    (h : p.IsGiven (.object members)) : p.IsPlain where
  ordered name v hv := by
    rw [h.other] at hv
    split at hv
    · cases hv
    · exact areOrderedMembers_iff.mp hordered.2 _ (KeyMap.mem_of_findEntry hv)
  avoids name hname := by rw [h.other, if_pos hname]

private theorem isOrdered_sources (sources : List Source) :
    (Json.array (sources.map Source.toJson)).IsOrdered := by
  have hwell : (Json.array (sources.map Source.toJson)).WellFormed 2 := by
    refine wellFormed_array fun item hitem => ?_
    obtain ⟨source, -, rfl⟩ := List.mem_map.mp hitem
    exact wellFormed_ofMembers (by simp [wellFormed_string])
  exact hwell.ordered

private theorem areGiven_toJson (sources : List Source) :
    Source.AreGiven sources (.array (sources.map Source.toJson)) :=
  .list (List.forall₂_map_right_iff.mpr
    (List.forall₂_same.mpr fun source _ => source.isGiven_toJson))

theorem decoder_toJson (h : p.IsPlain) : decoder (Document.ofJson p.toJson) = .ok p := by
  obtain ⟨derivedFrom, other⟩ := p
  have hread {map : KeyMap Json} (hvalues : ∀ name v, map.get? name = some v → v.IsOrdered)
      (hgiven : IsGiven ⟨derivedFrom, other⟩ (.object map.entries)) :
      decoder (Document.ofJson (.object map.entries)) = .ok ⟨derivedFrom, other⟩ := by
    refine (decoder_eq_ok_iff ⟨map.sorted, areOrderedMembers_iff.mpr ?_⟩).mpr hgiven
    exact fun member hmember => hvalues _ _ (KeyMap.get?_eq_some_iff_mem.mpr hmember)
  cases derivedFrom with
  | nil =>
    refine hread h.ordered ⟨.none h.avoids, fun name => ?_⟩
    split
    · next hname => exact h.avoids name hname
    · rfl
  | cons source sources =>
    refine @hread (other.insert "prov:wasDerivedFrom" (.array ((source :: sources).map
      Source.toJson))) (fun name v hv => ?_) ⟨.under List.mem_cons_self
        (KeyMap.get?_insert_self ..) (fun name hname hne => ?_) (areGiven_toJson _), fun name => ?_⟩
    · rw [KeyMap.get?_insert] at hv
      split at hv
      · cases hv
        exact isOrdered_sources _
      · exact h.ordered name v hv
    · exact (KeyMap.get?_insert_of_ne other _ hne).trans (h.avoids name hname)
    · split
      · next hname => exact h.avoids name hname
      · next hname =>
        have hne : name ≠ "prov:wasDerivedFrom" := fun heq => hname (heq ▸ List.mem_cons_self)
        exact (KeyMap.get?_insert_of_ne other _ hne).symm

end Provenance

/-! ## Descriptions -/

namespace Resource

/-- What a description gives for its relations. -/
def givenRelations? : Json → Option Json
  | .object members => KeyMap.findEntry "resource_relations" members
  | .array items => items[1]?
  | _ => none

private theorem relations_of_decoder {j : Json} {r : Resource}
    (h : decoder (Document.ofJson j) = .ok r) :
    r.relations = none ∧ (givenRelations? j = none ∨ givenRelations? j = some .null) ∨
      ∃ given p, givenRelations? j = some given ∧
        Provenance.decoder (Document.ofJson given) = .ok p ∧ r.relations = some p := by
  have hbuild {held : Option Json} {first : Option Document} {others : List (Option Document)}
      (h : (Resource.mk <$> required "resource_scopes" (.list Decoder.string)
        <*> optional "resource_relations" Provenance.decoder
        <*> optional "name" Decoder.string
        <*> optional "type" Decoder.string
        <*> optional "description" Decoder.string).build
          (first :: held.map Document.ofJson :: others) = .ok r) :
      r.relations = none ∧ (held = none ∨ held = some .null) ∨
        ∃ given p, held = some given ∧
          Provenance.decoder (Document.ofJson given) = .ok p ∧ r.relations = some p := by
    obtain ⟨_, description, h4, -, rfl⟩ := build_seq_eq_ok h
    obtain ⟨_, type, h3, -, rfl⟩ := build_seq_eq_ok h4
    obtain ⟨_, name, h2, -, rfl⟩ := build_seq_eq_ok h3
    obtain ⟨_, relations, h1, hrelations, rfl⟩ := build_seq_eq_ok h2
    obtain ⟨_, scopes, h0, -, rfl⟩ := build_seq_eq_ok h1
    cases h0
    exact build_optional_eq_ok hrelations
  cases j with
  | object members =>
    exact hbuild (build_of_decode_object ["resource_scopes", "resource_relations", "name", "type",
      "description"] ⟨rfl, by decide⟩ h)
  | array items => exact hbuild (build_of_decode_array h).2
  | _ => cases h

theorem decoder_toJson {r : Resource} (h : ∀ p, r.relations = some p → p.IsPlain) :
    decoder (Document.ofJson r.toJson) = .ok r := by
  obtain ⟨scopes, relations, name, type, description⟩ := r
  refine decode_ofSome ["resource_scopes", "resource_relations", "name", "type", "description"]
    ⟨rfl, by decide⟩ (by simp) ?_
  have hrelations {look : String → Option Json}
      (hlook : look "resource_relations" = relations.map Provenance.toJson) :
      (optional "resource_relations" Provenance.decoder).Finds look relations :=
    finds_optional hlook fun p hp => ⟨nofun, Provenance.decoder_toJson (h p hp)⟩
  exact ((((Finds.map Resource.mk (finds_required rfl (Decoder.list_strings scopes))).seq
    (hrelations rfl)).seq (finds_optional_string rfl)).seq (finds_optional_string rfl)).seq
      (finds_optional_string rfl)

private theorem isOrdered_of_givenRelations? {j given : Json} (hordered : j.IsOrdered)
    (h : givenRelations? j = some given) : given.IsOrdered := by
  cases j with
  | object members =>
    exact areOrderedMembers_iff.mp hordered.2 _ (KeyMap.mem_of_findEntry h)
  | array items => exact areOrdered_iff.mp hordered _ (List.mem_of_getElem? h)
  | _ => cases h

/-- A description that is read has the sources that are given for it and every other relation as it
stands, and it is read back as it is; so is every description whose other relations leave the names
of the sources alone, however many sources it has. -/
theorem descriptions_keep_relations :
    (∀ j r, j.IsOrdered → decodeWith decoder j = some r →
      decodeWith decoder r.toJson = some r ∧
        (r.relations = none ∧ (givenRelations? j = none ∨ givenRelations? j = some .null) ∨
          ∃ members p, givenRelations? j = some (.object members) ∧ r.relations = some p ∧
            p.IsGiven (.object members) ∧ p.IsPlain)) ∧
      ∀ r : Resource, (∀ p, r.relations = some p → p.IsPlain) →
        decodeWith decoder r.toJson = some r := by
  refine ⟨fun j r hordered hread => ?_, fun r h => toOption_eq_some_iff.mpr (decoder_toJson h)⟩
  rcases relations_of_decoder (toOption_eq_some_iff.mp hread) with
    ⟨hnone, hgiven⟩ | ⟨given, p, hgiven, hp, hrelations⟩
  · have hplain : ∀ p, r.relations = some p → p.IsPlain := fun p hp => by cases hnone.symm.trans hp
    exact ⟨toOption_eq_some_iff.mpr (decoder_toJson hplain), .inl ⟨hnone, hgiven⟩⟩
  · have hgivenOrdered := isOrdered_of_givenRelations? hordered hgiven
    cases given with
    | object members =>
      have hisGiven := (Provenance.decoder_eq_ok_iff hgivenOrdered).mp hp
      have hplain := hisGiven.isPlain hgivenOrdered
      have hwritten : decoder (Document.ofJson r.toJson) = .ok r :=
        decoder_toJson fun q hq => by cases hrelations.symm.trans hq; exact hplain
      exact ⟨toOption_eq_some_iff.mpr hwritten,
        .inr ⟨members, p, hgiven, hrelations, hisGiven, hplain⟩⟩
    | _ => cases hp

/-- Two sources under the shorter name, each an array of its two texts, beside another relation. -/
def sampleTwoSources : Json :=
  .object [("resource_relations", .object
    [("dcterms:source", .object [("a", .null), ("issuer", .string "https://a")]),
      ("wasDerivedFrom", .array [.array [.string "https://a", .string "D1"],
        .array [.string "https://b", .string "D2"]])]),
    ("resource_scopes", .strings ["read"])]

def sampleTwoDerived : Resource where
  scopes := ["read"]
  relations := some ⟨[⟨"https://a", "D1"⟩, ⟨"https://b", "D2"⟩],
    .ofList [("dcterms:source", .object [("a", .null), ("issuer", .string "https://a")])]⟩
  name := none
  type := none
  description := none

theorem sample_keeps_relations :
    (sampleTwoSources.IsOrdered ∧
      decodeWith decoder sampleTwoSources = some sampleTwoDerived ∧
      decodeWith decoder sampleTwoDerived.toJson = some sampleTwoDerived) ∧
    (∀ p, sampleTwoDerived.relations = some p → p.IsPlain) ∧
      decodeWith decoder sampleTwoDerived.toJson = some sampleTwoDerived := by
  have hordered : sampleTwoSources.IsOrdered := by
    simp only [sampleTwoSources, Json.IsOrdered, AreOrdered, AreOrderedMembers, Json.strings,
      List.map]
    decide
  have hread : decodeWith decoder sampleTwoSources = some sampleTwoDerived := rfl
  have hplain : ∀ p, sampleTwoDerived.relations = some p → p.IsPlain := by
    rintro p ⟨⟩
    constructor
    · intro name v hv
      rw [KeyMap.get?_eq_some_iff_mem] at hv
      cases List.mem_singleton.mp hv
      simp only [Json.IsOrdered, AreOrderedMembers]
      decide
    · decide
  exact ⟨⟨hordered, hread, (descriptions_keep_relations.1 _ _ hordered hread).1⟩, hplain,
    descriptions_keep_relations.2 _ hplain⟩

end Resource

end UserManagedAccess
