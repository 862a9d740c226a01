import UserManagedAccess.Proofs.SignedTokens

/-! Who may speak for a WebID: what is found in a document about it is what the document says, in
whichever shape it says so, and issuers are the same if they differ in slashes at the end alone. -/
namespace UserManagedAccess.WebIdProfile

/-! ## Slashes at the end -/

/-- The texts differ at most in how many slashes they end with. -/
def SameUpToSlashes (a b : String) : Prop :=
  ∃ (stem : List Char) (m n : Nat),
    a.toList = stem ++ List.replicate m '/' ∧ b.toList = stem ++ List.replicate n '/'

private theorem exists_toList_dropTrailing (c : Char) (s : String) :
    ∃ n, s.toList = (Text.dropTrailing c s).toList ++ List.replicate n c := by
  have hjoin := List.takeWhile_append_dropWhile (p := (· == c)) (l := s.toList.reverse)
  have hend : s.toList.reverse.takeWhile (· == c) =
      List.replicate (s.toList.reverse.takeWhile (· == c)).length c := by
    refine List.eq_replicate_iff.mpr ⟨rfl, fun x hx => ?_⟩
    exact beq_iff_eq.mp (List.all_eq_true.mp List.all_takeWhile x hx)
  refine ⟨(s.toList.reverse.takeWhile (· == c)).length, ?_⟩
  rw [Text.dropTrailing, String.toList_ofList, ← List.reverse_inj, List.reverse_append,
    List.reverse_reverse, List.reverse_replicate, ← hend, hjoin]

private theorem dropTrailing_of_toList {c : Char} {s : String} {stem : List Char} {n : Nat}
    (h : s.toList = stem ++ List.replicate n c) :
    Text.dropTrailing c s = .ofList (stem.reverse.dropWhile (· == c)).reverse := by
  rw [Text.dropTrailing, h, List.reverse_append, List.reverse_replicate,
    List.dropWhile_append_of_pos (by simp)]

theorem equalIssuers_iff {a b : String} : equalIssuers a b = true ↔ SameUpToSlashes a b := by
  rw [equalIssuers, beq_iff_eq]
  constructor
  · intro h
    obtain ⟨m, ha⟩ := exists_toList_dropTrailing '/' a
    obtain ⟨n, hb⟩ := exists_toList_dropTrailing '/' b
    exact ⟨_, m, n, ha, h ▸ hb⟩
  · rintro ⟨stem, m, n, ha, hb⟩
    rw [dropTrailing_of_toList ha, dropTrailing_of_toList hb]

/-! ## Documents -/

/-- The address of the document is the WebID up to its first `#`. -/
def IsDocumentOf (address webid : String) : Prop :=
  '#' ∉ address.toList ∧ ∃ rest, webid.toList = address.toList ++ rest ∧
    (rest = [] ∨ ∃ fragment, rest = '#' :: fragment)

theorem isDocumentOf_documentAddress (webid : String) :
    IsDocumentOf (documentAddress webid) webid := by
  have hjoin := List.takeWhile_append_dropWhile (p := (· ≠ '#')) (l := webid.toList)
  have hfront := List.all_takeWhile (p := (· ≠ '#')) (l := webid.toList)
  have hhead := List.head?_dropWhile_not (· ≠ '#') webid.toList
  simp only [IsDocumentOf, documentAddress, String.toList_ofList]
  refine ⟨fun hmem => by simpa using List.all_eq_true.mp hfront '#' hmem, _, hjoin.symm, ?_⟩
  cases hrest : webid.toList.dropWhile (· ≠ '#') with
  | nil => exact .inl rfl
  | cons c fragment =>
    rw [hrest] at hhead
    have hc : c = '#' := by simpa using hhead
    exact .inr ⟨fragment, by rw [hc]⟩

/-- A node of a document: an item of it, an item of its graph, or, if it has no graph, the document
itself. -/
inductive IsNode : Json → Json → Prop
  | item {items : List Json} {node : Json} (mem : node ∈ items) : IsNode (.array items) node
  | ofGraph {members : List (String × Json)} {graph : List Json} {node : Json}
      (found : (Json.object members).member? "@graph" = some (.array graph))
      (mem : node ∈ graph) : IsNode (.object members) node
  | itself {members : List (String × Json)}
      (noGraph : ∀ graph, (Json.object members).member? "@graph" ≠ some (.array graph)) :
      IsNode (.object members) (.object members)

/-- The value names the address, as a text or as the identifier of an object. -/
def NamesAddress (value : Json) (address : String) : Prop :=
  value = .string address ∨ value.member? "@id" = some (.string address)

/-- Under one of the names for that, the node lists an issuer, alone or among others. -/
def ListsIssuer (node : Json) (issuer : String) : Prop :=
  ∃ name ∈ issuerNames, ∃ value, node.member? name = some value ∧
    (NamesAddress value issuer ∨
      ∃ items, value = .array items ∧ ∃ item ∈ items, NamesAddress item issuer)

theorem mem_nodes_iff {document node : Json} : node ∈ nodes document ↔ IsNode document node := by
  cases document with
  | array items => exact ⟨.item, fun h => by cases h; assumption⟩
  | object members =>
    rw [nodes]
    split
    · next graph hgraph =>
      refine ⟨.ofGraph hgraph, fun h => ?_⟩
      cases h with
      | ofGraph hfound hmem =>
        cases hgraph.symm.trans hfound
        exact hmem
      | itself hnone => exact absurd hgraph (hnone graph)
    · next hnone =>
      rw [List.mem_singleton]
      constructor
      · rintro rfl
        exact .itself hnone
      · intro h
        cases h with
        | ofGraph hfound => exact absurd hfound (hnone _)
        | itself => rfl
  | null | bool | number | string =>
    constructor
    · intro h
      exact absurd h List.not_mem_nil
    · intro h
      cases h

theorem address?_eq_some_iff {value : Json} {address : String} :
    address? value = some address ↔ NamesAddress value address := by
  cases value <;> simp [address?, NamesAddress, Json.text?_eq_some_iff, Json.member?]

private theorem exists_valuesOf_iff {value : Json} {address : String} :
    (∃ v ∈ valuesOf value, address? v = some address) ↔
      NamesAddress value address ∨
        ∃ items, value = .array items ∧ ∃ item ∈ items, NamesAddress item address := by
  simp only [address?_eq_some_iff]
  cases value with
  | array items => simp [valuesOf, NamesAddress, Json.member?]
  | _ => simp [valuesOf]

/-- The issuers that are found for a WebID are those that a node about exactly this WebID lists. -/
theorem mem_issuers_iff {document : Json} {webid issuer : String} :
    issuer ∈ issuers document webid ↔
      ∃ node, IsNode document node ∧ node.member? "@id" = some (.string webid) ∧
        ListsIssuer node issuer := by
  simp only [issuers, List.mem_filterMap, List.mem_flatMap, List.mem_filter, beq_iff_eq,
    mem_nodes_iff, Json.text?_eq_some_iff, ListsIssuer, ← exists_valuesOf_iff]
  constructor
  · rintro ⟨v, ⟨value, ⟨node, ⟨hnode, hid⟩, name, hname, hvalue⟩, hv⟩, haddress⟩
    exact ⟨node, hnode, hid, name, hname, value, hvalue, v, hv, haddress⟩
  · rintro ⟨node, hnode, hid, name, hname, value, hvalue, v, hv, haddress⟩
    exact ⟨v, ⟨value, ⟨node, ⟨hnode, hid⟩, name, hname, hvalue⟩, hv⟩, haddress⟩

/-! ## Permission to speak for a WebID -/

/-- The document of a WebID has a node about it that lists the issuer. -/
def Lists [Url.DomainRules] (fetcher : Fetcher) (webid issuer : String) : Prop :=
  ∃ address url document node listed, IsDocumentOf address webid ∧
    Discovery.readUrl address = .ok url ∧ fetcher url.toText = .ok document ∧
    IsNode document node ∧ node.member? "@id" = some (.string webid) ∧
    ListsIssuer node listed ∧ SameUpToSlashes listed issuer

theorem entitled_of_checkIssuer [Url.DomainRules] {trusted : List String} {webid issuer : String}
    {fetcher : Fetcher} (h : (IdToken.checkIssuer trusted webid issuer fetcher).result = .ok ()) :
    (∃ known ∈ trusted, SameUpToSlashes known issuer) ∨ Lists fetcher webid issuer := by
  rw [IdToken.checkIssuer] at h
  split at h
  · next htrusted =>
    obtain ⟨known, hknown, hsame⟩ := List.any_eq_true.mp htrusted
    exact .inl ⟨known, hknown, equalIssuers_iff.mp hsame⟩
  · obtain ⟨document, hdocument, h⟩ := (Fetching.result_bind_eq_ok fetcher).mp h
    split at h
    · next hlisted =>
      obtain ⟨listed, hmem, hsame⟩ := List.any_eq_true.mp hlisted
      obtain ⟨node, hnode, hid, hlists⟩ := mem_issuers_iff.mp hmem
      rw [Discovery.document] at hdocument
      obtain ⟨url, hurl, hfetched⟩ := (Fetching.result_bind_eq_ok fetcher).mp hdocument
      rw [Fetching.result_liftM] at hurl
      rw [Fetching.result_ask] at hfetched
      exact .inr ⟨_, url, document, node, listed, isDocumentOf_documentAddress webid, hurl,
        hfetched, hnode, hid, hlists, equalIssuers_iff.mp hsame⟩
    · cases h

end UserManagedAccess.WebIdProfile
