import UserManagedAccess.Proofs.DerivationHandles
import UserManagedAccess.Proofs.DerivedResources
import UserManagedAccess.Proofs.Stores

/-! The registry of resources. It has two writers, the registration and the rounds that make
derivation handles, and it holds exactly what either has put into it and nobody has removed since,
as it was described then. -/
namespace UserManagedAccess

namespace Event

/-- The resource that an event has put into the registry: one that was registered, or a derivation
handle that was made along with a token. -/
def added? (event : Event) : Option (String × Resource) :=
  match event.command, event.reply with
  | .register description, .registered (.ok id) => some (id, description)
  | _, .negotiated (.ok (.granted grant)) =>
    grant.derivationResource.map (·, ⟨[Scope.derivationRead], none, none, none, none⟩)
  | _, _ => none

/-- The id of the resource that an event has removed. -/
def removed? (event : Event) : Option String :=
  match event.command, event.reply with
  | .unregister id, .unregistered (.ok ()) => some id
  | _, _ => none

end Event

/-- The resource was put into the registry under the id and was not removed later. The latest event
stands first. -/
def Registered (events : List Event) (id : String) (description : Resource) : Prop :=
  ∃ later event earlier, events = later ++ event :: earlier ∧
    event.added? = some (id, description) ∧ ∀ e ∈ later, e.removed? ≠ some id

theorem registered_cons_iff {event : Event} {events : List Event} {id : String}
    {description : Resource} :
    Registered (event :: events) id description ↔
      event.added? = some (id, description) ∨
        Registered events id description ∧ event.removed? ≠ some id := by
  constructor
  · rintro ⟨later, e, earlier, heq, hadded, hkept⟩
    cases later with
    | nil =>
      obtain ⟨rfl, rfl⟩ := List.cons.inj heq
      exact .inl hadded
    | cons first later =>
      obtain ⟨rfl, rfl⟩ := List.cons.inj heq
      obtain ⟨hfirst, hlater⟩ := List.forall_mem_cons.mp hkept
      exact .inr ⟨⟨later, e, earlier, rfl, hadded, hlater⟩, hfirst⟩
  · rintro (hadded | ⟨⟨later, e, earlier, rfl, hadded, hkept⟩, hremoved⟩)
    · exact ⟨[], event, events, rfl, hadded, fun _ h => absurd h List.not_mem_nil⟩
    · exact ⟨event :: later, e, earlier, rfl, hadded, List.forall_mem_cons.mpr ⟨hremoved, hkept⟩⟩

section
variable [Url.DomainRules]

/-- What an event may do to the registry: it leaves it as it is, puts one valid resource under an id
that was free, or removes one that was there. -/
inductive RegistryStep (event : Event) (after : KeyMap Resource) : Prop
  | kept (added : event.added? = none) (removed : event.removed? = none)
      (eq : after = event.before.resources)
  | added (id : String) (description : Resource)
      (added : event.added? = some (id, description)) (removed : event.removed? = none)
      (fresh : event.before.resources.get? id = none) (valid : description.validate = .ok ())
      (eq : after = event.before.resources.insert id description)
  | removed (id : String) (added : event.added? = none) (removed : event.removed? = some id)
      (present : event.before.resources.contains id = true)
      (eq : after = event.before.resources.erase id)

/-- After an event, a resource is there that the event has put there, or that was there before and
is not the one that the event has removed. -/
theorem RegistryStep.get?_eq_some_iff {event : Event} {after : KeyMap Resource}
    (h : RegistryStep event after) {id : String} {description : Resource} :
    after.get? id = some description ↔
      event.added? = some (id, description) ∨
        event.before.resources.get? id = some description ∧ event.removed? ≠ some id := by
  cases h with
  | kept added removed eq => simp [added, removed, eq]
  | added id' description' added removed fresh valid eq =>
    rw [eq, KeyMap.get?_insert, added, removed]
    by_cases hid : id = id'
    · subst hid
      simp [fresh]
    · simp [hid, Ne.symm hid]
  | removed id' added removed present eq =>
    rw [eq, KeyMap.get?_erase, added, removed]
    by_cases hid : id = id'
    · simp [hid]
    · simp [hid, Ne.symm hid]

theorem RegistryStep.validate {event : Event} {after : KeyMap Resource}
    (h : RegistryStep event after)
    (hvalid : ∀ id description, event.before.resources.get? id = some description →
      description.validate = .ok ()) :
    ∀ id description, after.get? id = some description → description.validate = .ok () := by
  intro id description hget
  rcases h.get?_eq_some_iff.mp hget with hadded | ⟨hbefore, -⟩
  · cases h with
    | kept added | removed _ added =>
      rw [added] at hadded
      cases hadded
    | added _ _ added _ _ valid =>
      cases added.symm.trans hadded
      exact valid
  · exact hvalid id description hbefore

end

namespace Server

section
variable [Url.DomainRules]

theorem registryStep_negotiate (server : Server) {s : ServerState} (hissued : s.Issued)
    (around : Surroundings) (request : TokenRequest) :
    RegistryStep ⟨s, .negotiate around request,
        (server.execute s (.negotiate around request)).1⟩
      (server.execute s (.negotiate around request)).2.resources := by
  obtain ⟨s', hs, -, hcases⟩ := server.negotiate_cases around request s
  simp only [execute]
  rcases hcases with ⟨e, hrun, -⟩ | ⟨ticket, -, -, hrun⟩ | ⟨ticket, -, -, hrun⟩ <;> rw [hrun]
  · exact .kept rfl rfl hs.resources_eq
  · have hissued' : s'.ids.HasIssuedKeys s'.resources := by
      rw [hs.ids_eq, hs.resources_eq]
      exact hissued.resources
    cases hhandle : handle? s' request.scopeWords with
    | none =>
      refine .kept ?_ rfl ?_
      · simp [Event.added?, grantOf, hhandle]
      · simp [stateWith, hhandle, hs.resources_eq]
    | some id =>
      obtain ⟨hfree, -⟩ := get?_handle hissued' hhandle server around ticket.permissions
      refine .added id .handle ?_ rfl (hs.resources_eq ▸ hfree) rfl ?_
      · simp [Event.added?, grantOf, hhandle, Resource.handle, Resource.ofScopes]
      · simp [stateWith, hhandle, hs.resources_eq]
  · exact .kept rfl rfl hs.resources_eq

theorem registryStep_execute (server : Server) {s : ServerState} (hissued : s.Issued)
    (command : Command) :
    RegistryStep ⟨s, command, (server.execute s command).1⟩
      (server.execute s command).2.resources := by
  cases command with
  | negotiate around request => exact server.registryStep_negotiate hissued around request
  | openTicket permissions =>
    obtain ⟨s', hs, hcases⟩ := server.openTicket_cases permissions s
    simp only [execute]
    rcases hcases with ⟨result, hrun, -⟩ | ⟨-, -, hrun⟩ <;> rw [hrun] <;>
      exact .kept rfl rfl hs.resources_eq
  | register description =>
    simp only [execute, run_register]
    cases hvalid : description.validate with
    | error e => exact .kept rfl rfl rfl
    | ok => exact .added _ description rfl rfl hissued.resources.get?_next_eq_none hvalid rfl
  | unregister id =>
    simp only [execute, run_unregister]
    cases hcontains : s.resources.contains id with
    | true => exact .removed id rfl rfl hcontains rfl
    | false =>
      refine .kept rfl rfl (KeyMap.erase_of_get?_eq_none ?_)
      simpa using hcontains
  | introspect around token =>
    obtain ⟨tokens, ids, hstate, -⟩ := server.introspect_cases around token s
    simp only [execute, Prod.map_snd, id_eq, hstate]
    exact .kept rfl rfl rfl
  | changeRules file => exact .kept rfl rfl rfl

/-- The registry holds what its events have left in it, and all of that is valid. -/
structure KeepsRegistry (past : History) : Prop where
  issued : past.state.Issued
  get?_iff : ∀ id description, past.state.resources.get? id = some description ↔
    Registered past.events id description
  valid : ∀ id description, past.state.resources.get? id = some description →
    description.validate = .ok ()

theorem KeepsRegistry.serve {past : History} (h : KeepsRegistry past) (server : Server)
    (command : Command) : KeepsRegistry (server.serve past command) := by
  have hstep := server.registryStep_execute h.issued command
  refine ⟨server.issued_execute h.issued command, fun id description => ?_, hstep.validate h.valid⟩
  rw [Server.serve, registered_cons_iff, ← h.get?_iff]
  exact hstep.get?_eq_some_iff

theorem keepsRegistry_history (server : Server) {start : ServerState} (hstart : start.IsInitial)
    (commands : List Command) : KeepsRegistry (server.history start commands) := by
  refine history_induction (motive := KeepsRegistry) ⟨hstart.issued, ?_, ?_⟩
    (fun _ command hpast => hpast.serve server command) commands
  · intro id description
    simp [hstart.resources_eq, Registered]
  · intro id description h
    simp [hstart.resources_eq] at h

/-- In every history: a resource stands under an id, and as described, exactly if it was registered
or made as a derivation handle, and given that id, and no later removal of the id succeeded. All
resources that stand there are valid. A removal succeeds if something stands under the id, and fails
because nothing is found otherwise. -/
theorem registry_exact (server : Server) {start : ServerState} (hstart : start.IsInitial)
    (commands : List Command) :
    let past := server.history start commands
    (∀ id description, past.state.resources.get? id = some description ↔
        Registered past.events id description) ∧
      (∀ id description, past.state.resources.get? id = some description →
        description.validate = .ok ()) ∧
      ∀ id, ((∃ description, Registered past.events id description) →
          ((unregister id).run past.state).1 = .ok ()) ∧
        ((¬ ∃ description, Registered past.events id description) →
          ((unregister id).run past.state).1 = .error (.notFound (.resource id))) := by
  intro past
  obtain ⟨-, hget, hvalid⟩ := server.keepsRegistry_history hstart commands
  refine ⟨hget, hvalid, fun id => ?_⟩
  have hpresent : past.state.resources.contains id = true ↔
      ∃ description, Registered past.events id description := by
    rw [KeyMap.contains_eq, Option.isSome_iff_exists]
    exact exists_congr fun description => hget id description
  rw [← hpresent, run_unregister]
  exact ⟨fun h => if_pos h, fun h => if_neg h⟩

end

/-- One resource is registered, a handle is made, and the resource is removed. -/
def sampleCommands : List Command :=
  [.register sampleDerived,
    .negotiate offline (sampleAsk [⟨some (sampleId 0), some ["read"]⟩]
      (some Scope.derivationCreation)),
    .unregister (sampleId 0)]

private theorem sample_kept :
    let kept := ((sample .all).history ∅ sampleCommands).state.resources
    kept.get? (sampleId 0) = none ∧ kept.get? (sampleId 2) = some .handle :=
  ⟨rfl, rfl⟩

/-- Of a resource that was registered and a handle that was made, the first was removed since. It
cannot be removed again, and the handle can. -/
theorem sample_registry :
    let past := (sample .all).history ∅ sampleCommands
    (∅ : ServerState).IsInitial ∧
      (¬ ∃ description, Registered past.events (sampleId 0) description) ∧
      Registered past.events (sampleId 2) .handle ∧
      ((unregister (sampleId 0)).run past.state).1 = .error (.notFound (.resource (sampleId 0))) ∧
      ((unregister (sampleId 2)).run past.state).1 = .ok () := by
  intro past
  obtain ⟨hfirst, hsecond⟩ := sample_kept
  have hstart : (∅ : ServerState).IsInitial := ⟨rfl, rfl, rfl⟩
  obtain ⟨hget, -, hremoval⟩ := registry_exact (sample .all) hstart sampleCommands
  have hgone : ¬ ∃ description, Registered past.events (sampleId 0) description := by
    rintro ⟨description, h⟩
    rw [← hget, hfirst] at h
    cases h
  have hhandle : Registered past.events (sampleId 2) .handle := (hget _ _).mp hsecond
  exact ⟨hstart, hgone, hhandle, (hremoval _).2 hgone, (hremoval _).1 ⟨_, hhandle⟩⟩

end Server

end UserManagedAccess
