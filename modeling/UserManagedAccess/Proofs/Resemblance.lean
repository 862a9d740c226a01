import Mathlib.Data.List.Forall2
import UserManagedAccess.Proofs.RuleDecisions

/-! Tickets that look alike. Two rule tables may name different identities; as long as nobody shows
one that only one of them names, tickets that were set up under them are struck out, settled and
hinted at alike. -/
namespace UserManagedAccess

/-- Related results stay related by what is made of them. -/
theorem rel_bind {α α' β β' : Type} {R : α → α' → Prop} {S : β → β' → Prop} {x : Option α}
    {x' : Option α'} (h : Option.Rel R x x') {f : α → Option β} {f' : α' → Option β'}
    (hf : ∀ a a', x = some a → R a a' → Option.Rel S (f a) (f' a')) :
    Option.Rel S (x.bind f) (x'.bind f') := by
  cases h with
  | none => exact .none
  | some h => exact hf _ _ rfl h

theorem eq_of_rel {α : Type} {x y : Option α} (h : Option.Rel (· = ·) x y) : x = y := by
  cases h with
  | none => rfl
  | some h => rw [h]

/-- All identities among the claims are known. -/
def Claims.Shows (claims : Claims) (known : String → Prop) : Prop :=
  ∀ webid, .string webid ∈ claims.values ClaimName.webid → known webid

/-- Under a claim name, two conditions are the same, or each asks for one of its own identities, and
of those known they name the same. -/
inductive Condition.Resembles (known : String → Prop) (name : String) :
    Condition → Condition → Prop
  | same (p : Condition) : Resembles known name p p
  | identity (names names' : List String) (isWebid : name = ClaimName.webid)
      (mem_iff : ∀ webid, known webid → (webid ∈ names ↔ webid ∈ names')) :
      Resembles known name (.oneOf (names.map .string)) (.oneOf (names'.map .string))

/-- Under the same claim names, as many conditions, each of which resembles its counterpart. -/
def Requirements.Resembles (known : String → Prop) (r r' : Requirements) : Prop :=
  ∀ name, Option.Rel (List.Forall₂ (Condition.Resembles known name))
    (r.claims.get? name) (r'.claims.get? name)

/-- Two tickets for the same permissions, on which the same was proven, and that ask alike. -/
structure Ticket.Resembles (known : String → Prop) (ticket ticket' : Ticket) : Prop where
  permissions_eq : ticket'.permissions = ticket.permissions
  provided_eq : ticket'.provided = ticket.provided
  shows : ticket.provided.Shows known
  required : List.Forall₂ (Requirements.Resembles known) ticket.required ticket'.required

variable {known : String → Prop}

/-! ## Conditions -/

namespace Condition.Resembles
variable {name : String} {p p' : Condition}

theorem hint_eq (h : Resembles known name p p') : Ticket.hint name p = Ticket.hint name p' := by
  cases h <;> rfl

theorem eq_of_ne (h : Resembles known name p p') (hname : name ≠ ClaimName.webid) : p = p' := by
  cases h with
  | same => rfl
  | identity _ _ isWebid => exact absurd isWebid hname

/-- Claims meet both or none. -/
theorem isMetByAny_eq (h : Resembles known name p p') {claims : Claims}
    (hshows : claims.Shows known) :
    p.isMetByAny (claims.values name) = p'.isMetByAny (claims.values name) := by
  cases h with
  | same => rfl
  | identity names names' isWebid mem_iff =>
    subst isWebid
    rw [Bool.eq_iff_iff, RuleTable.isMetByAny_oneOf_iff, RuleTable.isMetByAny_oneOf_iff]
    exact exists_congr fun webid => and_congr_left fun hproven =>
      mem_iff webid (hshows webid hproven)

end Condition.Resembles

/-! ## Requirements -/

namespace Requirements

/-- What is hinted at under each claim name. -/
def hints (r : Requirements) : KeyMap (List WantedClaim) :=
  r.claims.filterMap fun name conditions => some (conditions.map (Ticket.hint name))

namespace Resembles
variable {r r' : Requirements}

protected theorem refl (r : Requirements) : Resembles known r r := by
  intro name
  cases r.claims.get? name with
  | none => exact .none
  | some listed => exact .some (List.forall₂_same.mpr fun p _ => .same p)

/-- Both ask for an identity, and of those known for the same. -/
theorem identity {names names' : List String}
    (h : ∀ webid, known webid → (webid ∈ names ↔ webid ∈ names')) :
    Resembles known (.single ClaimName.webid (.oneOf (names.map .string)))
      (.single ClaimName.webid (.oneOf (names'.map .string))) := by
  intro name
  simp only [single, require, KeyMap.get?_insert]
  split
  · next hname => exact .some (.cons (.identity names names' hname h) .nil)
  · exact .none

/-- But for identities, both ask for the same. -/
theorem get?_eq (h : Resembles known r r') {name : String} (hname : name ≠ ClaimName.webid) :
    r.claims.get? name = r'.claims.get? name := by
  rw [← Option.bind_fun_some (r.claims.get? name), ← Option.bind_fun_some (r'.claims.get? name)]
  refine eq_of_rel (rel_bind (h name) fun listed listed' _ hlisted => .some ?_)
  rw [← List.forall₂_eq_eq_eq]
  exact hlisted.imp fun _ _ hp => hp.eq_of_ne hname

protected theorem require (h : Resembles known r r') {claim : String}
    (hclaim : claim ≠ ClaimName.webid) (p : Condition) :
    Resembles known (r.require claim p) (r'.require claim p) := by
  intro name
  simp only [require, conditions, KeyMap.get?_insert, h.get?_eq hclaim]
  split
  · exact .some (List.forall₂_same.mpr fun q _ => .same q)
  · exact h name

protected theorem requireSources (h : Resembles known r r') (found : Option Resource) :
    Resembles known (Policy.requireSources r found) (Policy.requireSources r' found) := by
  have hsource : ClaimName.sourceAccess ≠ ClaimName.webid := by decide
  rw [Policy.requireSources, Policy.requireSources]
  induction (found.map Resource.sources).getD [] generalizing r r' with
  | nil => exact h
  | cons source rest ih => exact ih (h.require hsource _)

protected theorem eliminate (h : Resembles known r r') {claims : Claims}
    (hshows : claims.Shows known) :
    Resembles known (r.eliminate claims) (r'.eliminate claims) := by
  intro name
  simp only [eliminate, KeyMap.get?_filterMap]
  refine rel_bind (h name) fun listed listed' _ hlisted => ?_
  have hunmet : List.Forall₂ (Condition.Resembles known name)
      (listed.filter fun p => !p.isMetByAny (claims.values name))
      (listed'.filter fun p => !p.isMetByAny (claims.values name)) :=
    List.rel_filter (fun {p p'} hp => by simp [hp.isMetByAny_eq hshows]) hlisted
  generalize listed.filter _ = unmet at hunmet ⊢
  generalize listed'.filter _ = unmet' at hunmet ⊢
  cases hunmet with
  | nil => exact .none
  | cons hfirst hrest => exact .some (.cons hfirst hrest)

/-- The same is hinted at. -/
theorem hints_eq (h : Resembles known r r') : r.hints = r'.hints := by
  apply KeyMap.ext_get?
  intro name
  simp only [hints, KeyMap.get?_filterMap]
  refine eq_of_rel (rel_bind (h name) fun listed listed' _ hlisted => .some ?_)
  rw [← List.forall₂_eq_eq_eq, List.forall₂_map_left_iff, List.forall₂_map_right_iff]
  exact hlisted.imp fun _ _ hp => hp.hint_eq

end Resembles

theorem isEmpty_hints (r : Requirements) : r.hints.isEmpty = r.isEmpty := by
  simp [hints, KeyMap.filterMap, KeyMap.isEmpty, isEmpty]

theorem entries_hints (r : Requirements) :
    r.hints.entries.flatMap (·.2) =
      r.claims.entries.flatMap fun entry => entry.2.map (Ticket.hint entry.1) := by
  simp [hints, KeyMap.filterMap, List.flatMap_map]

end Requirements

/-! ## Tickets -/

theorem Ticket.wantedClaims_eq (ticket : Ticket) :
    ticket.wantedClaims =
      ((ticket.required.map Requirements.hints).flatMap fun hints =>
        hints.entries.flatMap (·.2)).eraseDups := by
  simp only [wantedClaims, List.flatMap_map, Requirements.entries_hints]

namespace Ticket.Resembles
variable {ticket ticket' : Ticket}

theorem hints_eq (h : Resembles known ticket ticket') :
    ticket.required.map Requirements.hints = ticket'.required.map Requirements.hints := by
  rw [← List.forall₂_eq_eq_eq, List.forall₂_map_left_iff, List.forall₂_map_right_iff]
  exact h.required.imp fun _ _ hr => hr.hints_eq

/-- Both settle or none. -/
theorem isSettled_eq (h : Resembles known ticket ticket') :
    ticket.isSettled = ticket'.isSettled := by
  have hall (t : Ticket) : t.required.all Requirements.isEmpty =
      (t.required.map Requirements.hints).all KeyMap.isEmpty := by
    simp [List.all_map, Function.comp_def, Requirements.isEmpty_hints]
  rw [isSettled, isSettled, hall, hall, h.hints_eq, h.required.length_eq, h.permissions_eq]

/-- The requester is told the same. -/
theorem missing_eq (h : Resembles known ticket ticket') :
    Server.missing ticket = Server.missing ticket' := by
  rw [Server.missing, Server.missing, wantedClaims_eq, wantedClaims_eq, h.hints_eq,
    h.required.length_eq, h.permissions_eq]

theorem absorb (h : Resembles known ticket ticket') {claims : Claims}
    (hshows : claims.Shows known) :
    Resembles known (Strategy.elimination.absorb ticket claims)
      (Strategy.elimination.absorb ticket' claims) := by
  have hprovided : (ticket.provided.merge claims).Shows known := by
    intro webid hproven
    rw [Claims.values_merge, List.mem_append] at hproven
    exact hproven.elim (h.shows webid) (hshows webid)
  refine ⟨h.permissions_eq, ?_, hprovided, ?_⟩
  · simp only [Strategy.absorb, h.provided_eq]
  · simp only [Strategy.absorb, h.provided_eq]
    rw [List.forall₂_map_left_iff, List.forall₂_map_right_iff]
    exact h.required.imp fun _ _ hr => hr.eliminate hprovided

end Ticket.Resembles

/-! ## Rules -/

namespace RuleTable
variable {table table' : RuleTable} {p : Permission} {permissions : List Permission}

/-- Two tables agree on whether a permission is open to everybody, whether anybody else qualifies
for it, and which of the known identities do. -/
structure AgreeOn (known : String → Prop) (table table' : RuleTable) (p : Permission) : Prop where
  isOpen_iff : table.IsOpen p ↔ table'.IsOpen p
  qualifies_iff : (∃ name, table.Qualifies p name) ↔ ∃ name, table'.Qualifies p name
  known_iff : ∀ webid, known webid → (table.Qualifies p webid ↔ table'.Qualifies p webid)

/-- The rules are asked about a permission of a list if they can grant all permissions before
it. -/
def ComesTo (table : RuleTable) (permissions : List Permission) (p : Permission) : Prop :=
  ∃ before after, permissions = before ++ p :: after ∧
    ∀ q ∈ before, ∃ r, table.requirements? q = some r

/-- The tables agree on all permissions of a list that the first of them is asked about. -/
def AgreeAbout (known : String → Prop) (table table' : RuleTable) (permissions : List Permission) :
    Prop :=
  ∀ p, table.ComesTo permissions p → AgreeOn known table table' p

theorem AgreeOn.requirements? (h : AgreeOn known table table' p) :
    Option.Rel (Requirements.Resembles known) (table.requirements? p) (table'.requirements? p) := by
  have hasks := table.asks_requirements? p
  have hasks' := table'.asks_requirements? p
  generalize table.requirements? p = asked at hasks
  generalize table'.requirements? p = asked' at hasks'
  cases hasks with
  | nothing isOpen =>
    cases hasks' with
    | nothing => exact .some (.refl ∅)
    | identity _ closed | impossible closed => exact absurd (h.isOpen_iff.mp isOpen) closed
  | identity names closed nonempty mem_iff =>
    cases hasks' with
    | nothing isOpen => exact absurd (h.isOpen_iff.mpr isOpen) closed
    | identity names' _ _ mem_iff' =>
      refine .some (.identity fun webid hknown => ?_)
      rw [mem_iff, mem_iff', h.known_iff webid hknown]
    | impossible _ nobody =>
      obtain ⟨name, hname⟩ := List.exists_mem_of_ne_nil names nonempty
      obtain ⟨name', hname'⟩ := h.qualifies_iff.mp ⟨name, (mem_iff name).mp hname⟩
      exact absurd hname' (nobody name')
  | impossible closed nobody =>
    cases hasks' with
    | nothing isOpen => exact absurd (h.isOpen_iff.mpr isOpen) closed
    | identity names' _ nonempty' mem_iff' =>
      obtain ⟨name', hname'⟩ := List.exists_mem_of_ne_nil names' nonempty'
      obtain ⟨name, hname⟩ := h.qualifies_iff.mpr ⟨name', (mem_iff' name').mp hname'⟩
      exact absurd hname (nobody name)
    | impossible => exact .none

/-- Tables that agree on all permissions that they are asked about refuse the same lists, and ask
alike for the others. -/
theorem AgreeAbout.mapM_requirements? (h : AgreeAbout known table table' permissions) :
    Option.Rel (List.Forall₂ (Requirements.Resembles known))
      (permissions.mapM table.requirements?) (permissions.mapM table'.requirements?) := by
  induction permissions with
  | nil => exact .some .nil
  | cons p rest ih =>
    have hfirst := (h p ⟨[], rest, rfl, fun _ hq => absurd hq List.not_mem_nil⟩).requirements?
    simp only [List.mapM_cons, Option.pure_def, Option.bind_eq_bind]
    refine rel_bind hfirst fun r r' hasked hr => ?_
    -- with this one granted, the rules go on to the others
    have hrest : AgreeAbout known table table' rest := by
      rintro q ⟨before, after, rfl, hbefore⟩
      exact h q ⟨p :: before, after, rfl, List.forall_mem_cons.mpr ⟨⟨r, hasked⟩, hbefore⟩⟩
    exact rel_bind (ih hrest) fun _ _ _ hothers => .some (.cons hr hothers)

end RuleTable

namespace Policy
variable {s s' : ServerState} {permissions : List Permission}

theorem withAllSources_resemble (hresources : s'.resources = s.resources)
    {required required' : List Requirements}
    (h : List.Forall₂ (Requirements.Resembles known) required required') :
    List.Forall₂ (Requirements.Resembles known) (withAllSources s permissions required)
      (withAllSources s' permissions required') := by
  induction permissions generalizing required required' with
  | nil => rwa [withAllSources_nil_left, withAllSources_nil_left]
  | cons p rest ih =>
    cases h with
    | nil => exact .nil
    | cons hfirst hothers =>
      rw [withAllSources_cons, withAllSources_cons]
      refine .cons ?_ (ih hothers)
      rw [withSources, withSources, hresources]
      split
      · exact hfirst
      · exact hfirst.requireSources _

/-- Whatever the policy, it asks alike under tables that agree on what they are asked about. -/
theorem demands_resemble (policy : Policy) (hresources : s'.resources = s.resources)
    (h : s.rulesInForce.AgreeAbout known s'.rulesInForce permissions) :
    List.Forall₂ (Requirements.Resembles known) (policy.demands s permissions)
      (policy.demands s' permissions) := by
  induction policy with
  | all | none => exact List.forall₂_same.mpr fun r _ => .refl r
  | namespaced namespaces =>
    rw [demands_namespaced, demands_namespaced]
    exact List.forall₂_same.mpr fun r _ => .refl r
  | rules =>
    rw [demands_rules, demands_rules]
    have hall := h.mapM_requirements?
    generalize permissions.mapM s.rulesInForce.requirements? = found at hall
    generalize permissions.mapM s'.rulesInForce.requirements? = found' at hall
    cases hall with
    | none => exact .nil
    | some hrequired => exact hrequired
  | derived inner ih =>
    rw [demands_derived, demands_derived]
    exact withAllSources_resemble hresources ih

end Policy

end UserManagedAccess
