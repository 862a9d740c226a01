import Mathlib.Data.Set.Basic
import Mathlib.Data.Fintype.EquivFin
import UserManagedAccess.Permission

/-! What a permission allows, as the set of all pairs of a resource and a scope that it stands for.
A grant covers a request that lists some scope, or leaves them open, exactly when it allows all that
the request would. -/
namespace UserManagedAccess

/-- No list has every text in it. -/
theorem Text.exists_not_mem (texts : List String) : ∃ text, text ∉ texts := by
  obtain ⟨text, htext⟩ := Infinite.exists_notMem_finset texts.toFinset
  exact ⟨text, fun hmem => htext (List.mem_toFinset.mpr hmem)⟩

namespace Permission
variable {g p r : Permission}

/-- The pairs of a resource and a scope that a permission allows. -/
def rights (p : Permission) : Set (String × String) :=
  {right | (∀ id, p.resource = some id → right.1 = id) ∧
    ∀ listed, p.scopes = some listed → right.2 ∈ listed}

/-- A grant that names its resource covers requests for this one, a grant that lists its scopes
covers requests that list some of these. -/
theorem covers_iff : g.covers r = true ↔
    (∀ id, g.resource = some id → r.resource = some id) ∧
      ∀ listed, g.scopes = some listed →
        ∃ asked, r.scopes = some asked ∧ ∀ scope ∈ asked, scope ∈ listed := by
  obtain ⟨resource, scopes⟩ := g
  obtain ⟨resource', scopes'⟩ := r
  rw [covers, Bool.and_eq_true]
  refine and_congr ?_ ?_
  · cases resource with
    | none => simp [coversResource]
    | some id =>
      cases resource' with
      | none => simp [coversResource]
      | some id' => simpa [coversResource] using eq_comm
  · cases scopes <;> cases scopes' <;> simp [coversScopes]

theorem covers_refl (p : Permission) : p.covers p = true :=
  covers_iff.mpr ⟨fun _ h => h, fun listed h => ⟨listed, h, fun _ hscope => hscope⟩⟩

theorem covers_trans (h : g.covers p = true) (h' : p.covers r = true) : g.covers r = true := by
  obtain ⟨hresource, hscopes⟩ := covers_iff.mp h
  obtain ⟨hresource', hscopes'⟩ := covers_iff.mp h'
  refine covers_iff.mpr ⟨fun id hid => hresource' id (hresource id hid), fun listed hlisted => ?_⟩
  obtain ⟨between, hbetween, hwithin⟩ := hscopes listed hlisted
  obtain ⟨asked, hasked, hwithin'⟩ := hscopes' between hbetween
  exact ⟨asked, hasked, fun scope hscope => hwithin scope (hwithin' scope hscope)⟩

theorem rights_subset_of_covers (h : g.covers r = true) : r.rights ⊆ g.rights := by
  obtain ⟨hresource, hscopes⟩ := covers_iff.mp h
  rintro ⟨id, scope⟩ ⟨hid, hscope⟩
  refine ⟨fun id' hid' => hid id' (hresource id' hid'), fun listed hlisted => ?_⟩
  obtain ⟨asked, hasked, hwithin⟩ := hscopes listed hlisted
  exact hwithin scope (hscope asked hasked)

/-- Some right is of a given resource, if the permission is for this resource and has a scope. -/
theorem exists_mem_rights (hscopes : r.scopes ≠ some []) (id : String)
    (hid : ∀ id', r.resource = some id' → id = id') : ∃ scope, (id, scope) ∈ r.rights := by
  cases hlisted : r.scopes with
  | none => exact ⟨"", hid, by simp [hlisted]⟩
  | some listed =>
    obtain ⟨scope, hscope⟩ := List.exists_mem_of_ne_nil listed fun h => hscopes (h ▸ hlisted)
    exact ⟨scope, hid, by simpa [hlisted] using hscope⟩

/-- A right of each resource that the request stands for, or of one resource and each of its scopes,
tells what a grant has to leave open. -/
theorem covers_of_rights_subset (hscopes : r.scopes ≠ some []) (h : r.rights ⊆ g.rights) :
    g.covers r = true := by
  refine covers_iff.mpr ⟨fun id hid => ?_, fun listed hlisted => ?_⟩
  · cases hr : r.resource with
    | none =>
      -- a request for every resource is for one that the grant does not name
      obtain ⟨other, hother⟩ := Text.exists_not_mem [id]
      obtain ⟨scope, hright⟩ := exists_mem_rights hscopes other (by simp [hr])
      exact absurd (List.mem_singleton.mpr ((h hright).1 id hid)) hother
    | some id' =>
      obtain ⟨scope, hright⟩ := exists_mem_rights hscopes id' (by simp [hr])
      exact congrArg some ((h hright).1 id hid)
  · have allowed (scope : String) (hscope : ∀ asked, r.scopes = some asked → scope ∈ asked) :
        scope ∈ listed :=
      (@h (r.resource.getD "", scope) ⟨by simp +contextual, hscope⟩).2 listed hlisted
    cases hr : r.scopes with
    | none =>
      -- a request for every scope is for one that the grant does not list
      obtain ⟨scope, hscope⟩ := Text.exists_not_mem listed
      exact absurd (allowed scope (by simp [hr])) hscope
    | some asked => exact ⟨asked, rfl, fun scope hscope => allowed scope (by simpa [hr] using hscope)⟩

/-- Covering is inclusion of rights for every request but one with an empty list of scopes, which
has no rights and is covered only by grants for its resource. It is a preorder on all permissions. -/
theorem covers_iff_rights_subset :
    (∀ g r : Permission, r.scopes ≠ some [] → (g.covers r = true ↔ r.rights ⊆ g.rights)) ∧
      (∀ p : Permission, p.covers p = true) ∧
        ∀ g p r : Permission, g.covers p = true → p.covers r = true → g.covers r = true :=
  ⟨fun _ _ hscopes => ⟨rights_subset_of_covers, covers_of_rights_subset hscopes⟩, covers_refl,
    fun _ _ _ => covers_trans⟩

example : covers ⟨some "R1", some ["read"]⟩ ⟨some "R2", some []⟩ = false := by decide

/-- A grant of two scopes does not allow all that can be done with the resource. -/
theorem sample_covers :
    let grant : Permission := ⟨some "R1", some ["read", "write"]⟩
    let request : Permission := ⟨some "R1", some ["write"]⟩
    let whole : Permission := ⟨some "R1", none⟩
    request.scopes ≠ some [] ∧ whole.scopes ≠ some [] ∧ request.rights ⊆ grant.rights ∧
      ¬ whole.rights ⊆ grant.rights ∧ everything.covers request = true := by
  intro grant request whole
  obtain ⟨hiff, -, htrans⟩ := covers_iff_rights_subset
  have hrequest : request.scopes ≠ some [] := by decide
  have hwhole : whole.scopes ≠ some [] := by decide
  exact ⟨hrequest, hwhole, (hiff grant request hrequest).mp (by decide),
    (hiff grant whole hwhole).not.mp (by decide),
    htrans everything whole request (by decide) (by decide)⟩

end Permission

end UserManagedAccess
