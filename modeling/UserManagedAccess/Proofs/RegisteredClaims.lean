import UserManagedAccess.Proofs.KeyMap
import UserManagedAccess.Proofs.Records
import UserManagedAccess.Proofs.SignedTokens

/-! A payload is read twice under a check: as the members that are handed on, and as the claims that
bound its use. The second reader takes a claim at most once and overlooks values of another type;
where both readers take a payload, they have seen the same values. -/
namespace UserManagedAccess

namespace Json

/-- One text or a list of them. -/
def texts? : Json → Option (List String)
  | .string s => some [s]
  | .array items => items.mapM string?
  | _ => none

/-- A point in time, in whole seconds, as the reader of claims takes it. -/
def time? (value : Json) : Option Nat := Jose.RegisteredClaims.time? (.ofJson value)

namespace Decoder

/-- The values under a name are read one by one, in order. -/
theorem mapM_valuesOf_of_entries {members : List (Option String × Document)} {closed : Bool}
    {found : List (String × Json)} (h : entries json members closed = .ok found) (name : String) :
    (Jose.RegisteredClaims.valuesOf name members).mapM Document.toJson? =
      some ((found.filter (·.1 == name)).map (·.2)) := by
  induction members generalizing found with
  | nil =>
    rw [entries] at h
    split at h <;> cases h
    rfl
  | cons member rest ih =>
    obtain ⟨_ | own, d⟩ := member
    · cases h
    · rw [entries] at h
      obtain ⟨value, hvalue, h⟩ := exists_of_bind_eq_ok h
      obtain ⟨others, hothers, h⟩ := exists_of_bind_eq_ok h
      cases h
      have hrest := ih hothers
      simp only [Jose.RegisteredClaims.valuesOf] at hrest
      by_cases hname : own = name
      · subst hname
        simp [Jose.RegisteredClaims.valuesOf, json_eq_ok hvalue, hrest]
      · have hother : (own == name) = false := beq_false_of_ne hname
        simp [Jose.RegisteredClaims.valuesOf, hname, hother, hrest]

end Decoder

end Json

namespace Jose

namespace Payload

/-- The audience that a payload names; one of another kind counts as none. -/
def audience? (payload : Payload) : Option (List String) := (payload.get? "aud").bind Json.texts?

/-- When a payload expires; a value that is no time counts as never. -/
def expiry? (payload : Payload) : Option Nat := (payload.get? "exp").bind Json.time?

end Payload

namespace RegisteredClaims
open Json

/-- A reading that overlooks arrays and objects comes to the same on the tree of a value. -/
private theorem eq_ofJson_of_overlooks {α : Type} {read : Document → Option α}
    (hoverlooks : ∀ d, isContainer d = true → read d = none) {d : Document} {value : Json}
    (h : d.toJson? = some value) : read d = read (.ofJson value) := by
  cases d with
  | array items closed | object items closed =>
    simp only [Document.toJson?, Option.ite_none_right_eq_some, Option.map_eq_some_iff] at h
    obtain ⟨-, _, -, rfl⟩ := h
    exact (hoverlooks _ rfl).trans (hoverlooks _ rfl).symm
  | unreadable | broken => cases h
  | _ =>
    cases h
    rfl

private theorem text?_eq_string? {d : Document} {value : Json} (h : d.toJson? = some value) :
    text? d = value.string? := by
  have hoverlooks : ∀ d, isContainer d = true → text? d = none := by
    intro d hd
    cases d <;> first | rfl | cases hd
  rw [eq_ofJson_of_overlooks hoverlooks h]
  cases value <;> rfl

private theorem time?_eq_time? {d : Document} {value : Json} (h : d.toJson? = some value) :
    RegisteredClaims.time? d = value.time? := by
  refine eq_ofJson_of_overlooks (fun d hd => ?_) h
  cases d <;> first | rfl | cases hd

private theorem mapM_text?_eq_mapM_string? {items : List Document} {values : List Json}
    (h : Document.toItems? items = some values) : items.mapM text? = values.mapM string? := by
  induction items generalizing values with
  | nil =>
    cases h
    rfl
  | cons item rest ih =>
    rw [Document.toItems?] at h
    split at h
    · next value others hvalue hothers =>
      cases h
      simp only [List.mapM_cons, text?_eq_string? hvalue, ih hothers]
    · cases h

private theorem texts?_eq_texts? {d : Document} {value : Json} (h : d.toJson? = some value) :
    RegisteredClaims.texts? d = value.texts? := by
  cases d with
  | array items closed =>
    simp only [Document.toJson?, Option.ite_none_right_eq_some, Option.map_eq_some_iff] at h
    obtain ⟨-, values, hvalues, rfl⟩ := h
    exact mapM_text?_eq_mapM_string? hvalues
  | object members closed =>
    simp only [Document.toJson?, Option.ite_none_right_eq_some, Option.map_eq_some_iff] at h
    obtain ⟨-, _, -, rfl⟩ := h
    rfl
  | _ => simp_all [Document.toJson?] <;> (subst h; rfl)

variable {d : Document} {payload : Payload} {claims : RegisteredClaims}

/-- A claim that stands in a payload once at most is the member of its name there; so a reading of
it comes to the same if it does on every value that can be read. -/
private theorem bind_eq_of_single? {α : Type} {members : List (Option String × Document)}
    {closed : Bool} {found : List (String × Json)} {losesReader : Document → Bool} {name : String}
    {claim : Option Document} {read : Document → Option α} {meaning : Json → Option α}
    (hentries : Decoder.entries .json members closed = .ok found)
    (hclaim : single? losesReader name members = some claim)
    (hread : ∀ {d value}, Document.toJson? d = some value → read d = meaning value) :
    claim.bind read = ((KeyMap.ofList found).get? name).bind meaning := by
  have hvalues := Decoder.mapM_valuesOf_of_entries hentries name
  rw [KeyMap.get?_ofList, ← List.getLast?_map]
  rw [single?] at hclaim
  split at hclaim
  · next hnone =>
    cases hclaim
    rw [hnone] at hvalues
    simp only [List.mapM_nil, Option.pure_def, Option.some.injEq] at hvalues
    simp [← hvalues]
  · next d hone =>
    split at hclaim
    · cases hclaim
    · cases hclaim
      rw [hone] at hvalues
      simp only [List.mapM_cons, List.mapM_nil, Option.pure_def, Option.bind_eq_bind,
        Option.bind_some, Option.bind_eq_some_iff, Option.some.injEq] at hvalues
      obtain ⟨value, hvalue, hfound⟩ := hvalues
      simp [← hfound, hread hvalue]
  · cases hclaim

/-- The audience that is checked is the one that the payload names. -/
theorem audiences_eq_audience? (hpayload : Decoder.keyMap .json d = .ok payload)
    (hclaims : ofDocument? d = some claims) : claims.audiences = payload.audience? := by
  obtain ⟨members, closed, found, rfl, hentries, rfl⟩ := Decoder.keyMap_eq_ok hpayload
  simp only [ofDocument?, Option.bind_eq_bind, Option.bind_eq_some_iff, Option.pure_def,
    Option.some.injEq] at hclaims
  obtain ⟨_, -, _, -, _, -, _, -, audience, haudience, rfl⟩ := hclaims
  exact bind_eq_of_single? hentries haudience texts?_eq_texts?

/-- The expiry that is checked is the one of the payload. -/
theorem expires_eq_expiry? (hpayload : Decoder.keyMap .json d = .ok payload)
    (hclaims : ofDocument? d = some claims) : claims.expires = payload.expiry? := by
  obtain ⟨members, closed, found, rfl, hentries, rfl⟩ := Decoder.keyMap_eq_ok hpayload
  simp only [ofDocument?, Option.bind_eq_bind, Option.bind_eq_some_iff, Option.pure_def,
    Option.some.injEq] at hclaims
  obtain ⟨expires, hexpires, _, -, _, -, _, -, _, -, rfl⟩ := hclaims
  exact bind_eq_of_single? hentries hexpires time?_eq_time?

/-- Claims that pass, and that have to expire, have not expired, up to what clocks may differ by. -/
theorem exists_expires_of_check {expected : Expectation} {now : Nat}
    (h : claims.check expected now = .ok ()) (hrequired : "exp" ∈ expected.required) :
    ∃ time, claims.expires = some time ∧ now ≤ time + leeway := by
  rw [check] at h
  split at h
  · cases h
  · next hnone =>
    have hthere : claims.lacks "exp" = false := by
      simpa using List.find?_eq_none.mp hnone "exp" hrequired
    obtain ⟨time, htime⟩ : ∃ time, claims.expires = some time := by
      simpa [lacks, Option.isSome_iff_exists] using hthere
    split at h
    · cases h
    · next hpassed => exact ⟨time, htime, by simpa [htime] using hpassed⟩

end RegisteredClaims

/-- A token that was checked and that has to expire says when, and has not by then. -/
theorem exists_expiry_of_check {text : String} {key : VerificationKey} {algorithm : Algorithm}
    {expected : Expectation} {now : Nat} {payload : Payload}
    (h : check text key algorithm expected now = .ok payload)
    (hrequired : "exp" ∈ expected.required) :
    ∃ time, payload.expiry? = some time ∧ now ≤ time + leeway := by
  obtain ⟨_, _, _, claims, -, -, -, -, -, -, hpayload, hclaims, hcheck⟩ := check_eq_ok h
  obtain ⟨time, htime, hnow⟩ := RegisteredClaims.exists_expires_of_check hcheck hrequired
  exact ⟨time, (RegisteredClaims.expires_eq_expiry? hpayload hclaims).symm.trans htime, hnow⟩

end Jose

end UserManagedAccess
