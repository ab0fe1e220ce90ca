import Wcp.Registry.Replays
/-!
# The registry as a log

Whatever has been requested, what the registry says of a coordinator is said by the last accepted
request that names it: the descriptor of a registration, or nothing after a deletion.  Whether the
next request is accepted is decided by that descriptor, by the one that the request carries, and by
what the database takes and reads back (`registry_is_log`).
-/

namespace Wcp.Registry

open Wcp.Base

variable {repr : Json → String} {nacl : Nacl} {database : Database} {table : Table}
  {history : List Request} {did : String} {d d' : CoordinatorDescriptor} {request : Request}

/-! ## The log -/

section Definitions

variable (repr nacl database)

/-- The table after some requests to an empty registry. -/
def tableAfter (history : List Request) : Table :=
  run (fun table request => (serve repr nacl database table request).1) Dict.empty history

/-- The answer to a request after some others. -/
def answered (history : List Request) (request : Request) : Except RErr Response :=
  (serve repr nacl database (tableAfter repr nacl database history) request).2

/-- A request after some others is accepted. -/
def Accepted (history : List Request) (request : Request) : Prop :=
  ∃ response, answered repr nacl database history request = .ok response

/-- A request to write the entry of a coordinator. -/
def Request.names (did : String) : Request → Prop
  | .register d => d.did = did
  | .delete did' _ => did' = did
  | .get _ => False
  | .list _ => False

/-- The descriptor of an accepted registration, after which no request that names its coordinator
was accepted. -/
def Current (history : List Request) (d : CoordinatorDescriptor) : Prop :=
  ∃ before after, history = before ++ .register d :: after ∧
    Accepted repr nacl database before (.register d) ∧
    ∀ mid request rest, after = mid ++ request :: rest → request.names d.did →
      ¬ Accepted repr nacl database (before ++ .register d :: mid) request

/-- The filters of a query, over a descriptor. -/
def ListQuery.wants (query : ListQuery) (d : CoordinatorDescriptor) : Prop :=
  query.minConformance ≤ d.conformanceLevel ∧ (∀ c ∈ query.country, c = d.operatorCountry) ∧
    (∀ t ∈ query.descriptorType, t ∈ d.descriptorTypesAccepted) ∧
    ∀ c ∈ query.workerClass, c ∈ d.workerClassesAccepted

end Definitions

theorem tableAfter_concat (history : List Request) (request : Request) :
    tableAfter repr nacl database (history ++ [request]) =
      (serve repr nacl database (tableAfter repr nacl database history) request).1 := by
  rw [tableAfter, run_append]
  rfl

theorem current_nil : ¬ Current repr nacl database [] d := by
  rintro ⟨before, after, heq, -⟩
  simp at heq

/-- A descriptor is current after a request if this has just registered it, or if it was current
and the request is not accepted or does not name its coordinator. -/
theorem current_concat : Current repr nacl database (history ++ [request]) d ↔
    (request = .register d ∧ Accepted repr nacl database history (.register d)) ∨
    (Current repr nacl database history d ∧
      (request.names d.did → ¬ Accepted repr nacl database history request)) := by
  constructor
  · rintro ⟨before, after, heq, haccepted, hquiet⟩
    rcases List.eq_nil_or_concat after with rfl | ⟨mid, last, rfl⟩
    · obtain ⟨rfl, hlast⟩ := List.append_inj' heq rfl
      exact .inl ⟨List.head_eq_of_cons_eq hlast, haccepted⟩
    · rw [List.concat_eq_append] at heq hquiet
      have hsplit : history ++ [request] = (before ++ .register d :: mid) ++ [last] := by
        rw [heq, List.append_assoc, List.cons_append]
      obtain ⟨rfl, hlast⟩ := List.append_inj' hsplit rfl
      obtain rfl := List.head_eq_of_cons_eq hlast
      refine .inr ⟨⟨before, mid, rfl, haccepted, fun mid' r rest hmid => ?_⟩,
        hquiet mid request [] rfl⟩
      exact hquiet mid' r (rest ++ [request]) (by rw [hmid, List.append_assoc, List.cons_append])
  · rintro (⟨rfl, haccepted⟩ | ⟨⟨before, after, rfl, haccepted, hquiet⟩, hlast⟩)
    · refine ⟨history, [], rfl, haccepted, fun mid r rest hmid => ?_⟩
      simp at hmid
    · refine ⟨before, after ++ [request], by rw [List.append_assoc, List.cons_append], haccepted,
        fun mid r rest hmid => ?_⟩
      rcases List.eq_nil_or_concat rest with rfl | ⟨rest', last, rfl⟩
      · obtain ⟨rfl, hr⟩ := List.append_inj' hmid rfl
        obtain rfl := List.head_eq_of_cons_eq hr
        exact hlast
      · rw [List.concat_eq_append] at hmid
        have hsplit : after ++ [request] = (mid ++ r :: rest') ++ [last] := by
          rw [hmid, List.append_assoc, List.cons_append]
        obtain ⟨hafter, -⟩ := List.append_inj' hsplit rfl
        exact hquiet mid r rest' hafter

/-! ## Acceptance -/

theorem register_accepted_iff (hsound : table.Sound) :
    (∃ response, (serve repr nacl database table (.register d)).2 = .ok response) ↔
      Stores repr nacl database table d := by
  constructor
  · rintro ⟨response, hresponse⟩
    cases hroute : registerCoordinator repr nacl database table d with
    | error e =>
        rw [serve, hroute] at hresponse
        cases hresponse
    | ok result =>
        exact ((registerCoordinator_eq_ok_iff hsound).1 hroute).1
  · intro hstores
    exact ⟨_, congrArg Prod.snd (serve_register hsound hstores)⟩

theorem delete_accepted_iff :
    (∃ response, (serve repr nacl database table (.delete did d)).2 = .ok response) ↔
      d.did = did ∧ Deletes repr nacl database table d := by
  constructor
  · rintro ⟨response, hresponse⟩
    cases hroute : deleteCoordinator repr nacl database table did d with
    | error e =>
        rw [serve, hroute] at hresponse
        cases hresponse
    | ok table' =>
        obtain ⟨hdid, hdeletes, -⟩ := deleteCoordinator_eq_ok_iff.1 hroute
        exact ⟨hdid, hdeletes⟩
  · rintro ⟨rfl, hdeletes⟩
    exact ⟨_, congrArg Prod.snd (serve_delete hdeletes)⟩

theorem serve_refused
    (h : ¬ ∃ response, (serve repr nacl database table request).2 = .ok response) :
    (serve repr nacl database table request).1 = table := by
  cases request with
  | get did => rfl
  | list query => rfl
  | register d =>
      cases hroute : registerCoordinator repr nacl database table d with
      | error e => rw [serve, hroute]
      | ok result => exact absurd ⟨.descriptor result.2, by rw [serve, hroute]⟩ h
  | delete did d =>
      cases hroute : deleteCoordinator repr nacl database table did d with
      | error e => rw [serve, hroute]
      | ok table' => exact absurd ⟨.noContent, by rw [serve, hroute]⟩ h

/-! ## The table holds the current descriptors -/

/-- The rows of a table are those of the current descriptors, and the database has taken them. -/
structure Tracks (repr : Json → String) (nacl : Nacl) (database : Database)
    (history : List Request) (table : Table) : Prop where
  sound : table.Sound
  held : table.Held database
  current : ∀ did d,
    table.get did = some (newRow d) ↔ Current repr nacl database history d ∧ d.did = did

theorem Tracks.register
    (h : Tracks repr nacl database history (tableAfter repr nacl database history))
    (hstores : Stores repr nacl database (tableAfter repr nacl database history) d') :
    Tracks repr nacl database (history ++ [.register d'])
      ((tableAfter repr nacl database history).set d'.did (newRow d')) where
  sound := h.sound.set d'
  held := h.held.set hstores
  current did d := by
    have haccepted : Accepted repr nacl database history (.register d') :=
      (register_accepted_iff h.sound).2 hstores
    rw [Dict.get_set_eq, current_concat]
    by_cases hdid : did = d'.did
    · subst hdid
      rw [if_pos rfl, Option.some_inj]
      constructor
      · intro hrow
        have hd : d' = d := congrArg Coordinator.descriptorJson hrow
        subst hd
        exact ⟨.inl ⟨rfl, haccepted⟩, rfl⟩
      · rintro ⟨⟨heq, -⟩ | ⟨-, hquiet⟩, hsame⟩
        · rw [Request.register.inj heq]
        · exact absurd haccepted (hquiet hsame.symm)
    · rw [if_neg hdid, h.current did d]
      constructor
      · rintro ⟨hcurrent, rfl⟩
        exact ⟨.inr ⟨hcurrent, fun hnames => absurd hnames.symm hdid⟩, rfl⟩
      · rintro ⟨⟨heq, -⟩ | ⟨hcurrent, -⟩, rfl⟩
        · exact absurd (congrArg (·.did) (Request.register.inj heq)).symm hdid
        · exact ⟨hcurrent, rfl⟩

theorem Tracks.delete
    (h : Tracks repr nacl database history (tableAfter repr nacl database history))
    (hdeletes : Deletes repr nacl database (tableAfter repr nacl database history) d') :
    Tracks repr nacl database (history ++ [.delete d'.did d'])
      ((tableAfter repr nacl database history).pop d'.did) where
  sound := h.sound.pop d'.did
  held := h.held.pop d'.did
  current did d := by
    have haccepted : Accepted repr nacl database history (.delete d'.did d') :=
      delete_accepted_iff.2 ⟨rfl, hdeletes⟩
    rw [Dict.get_pop_eq, current_concat]
    by_cases hdid : did = d'.did
    · subst hdid
      rw [if_pos rfl]
      constructor
      · intro hnone
        cases hnone
      · rintro ⟨⟨heq, -⟩ | ⟨-, hquiet⟩, hsame⟩
        · cases heq
        · exact absurd haccepted (hquiet hsame.symm)
    · rw [if_neg hdid, h.current did d]
      constructor
      · rintro ⟨hcurrent, rfl⟩
        exact ⟨.inr ⟨hcurrent, fun hnames => absurd hnames.symm hdid⟩, rfl⟩
      · rintro ⟨⟨heq, -⟩ | ⟨hcurrent, -⟩, rfl⟩
        · cases heq
        · exact ⟨hcurrent, rfl⟩

theorem Tracks.reads (h : Tracks repr nacl database history (tableAfter repr nacl database history))
    (hreads : Reads repr nacl database (tableAfter repr nacl database history) request) :
    Tracks repr nacl database (history ++ [request]) (tableAfter repr nacl database history) where
  sound := h.sound
  held := h.held
  current did d := by
    have hrefused : ∀ name, request.names name → ¬ Accepted repr nacl database history request := by
      intro name hnames haccepted
      cases request with
      | register d' => exact hreads.stores d' rfl ((register_accepted_iff h.sound).1 haccepted)
      | delete did' d' =>
          obtain ⟨rfl, hdeletes⟩ := delete_accepted_iff.1 haccepted
          exact hreads.deletes d' rfl hdeletes
      | get did' => exact hnames
      | list query => exact hnames
    rw [h.current did d, current_concat]
    constructor
    · rintro ⟨hcurrent, rfl⟩
      exact ⟨.inr ⟨hcurrent, hrefused d.did⟩, rfl⟩
    · rintro ⟨⟨rfl, haccepted⟩ | ⟨hcurrent, -⟩, rfl⟩
      · exact absurd haccepted (hrefused d.did rfl)
      · exact ⟨hcurrent, rfl⟩

theorem tracks (history : List Request) :
    Tracks repr nacl database history (tableAfter repr nacl database history) := by
  induction history using List.reverseRecOn with
  | nil =>
      refine ⟨fun _ _ hget => absurd hget not_get_empty,
        fun _ _ hget => absurd hget not_get_empty, fun did d => ?_⟩
      exact iff_of_false not_get_empty fun hcurrent => current_nil hcurrent.1
  | append_singleton history request ih =>
      rw [tableAfter_concat]
      rcases serve_cases ih.sound request with ⟨d, rfl, hstores⟩ | ⟨d, rfl, hdeletes⟩ | hreads
      · rw [serve_register ih.sound hstores]
        exact ih.register hstores
      · rw [serve_delete hdeletes]
        exact ih.delete hdeletes
      · rw [hreads.same]
        exact ih.reads hreads

/-! ## What the registry says -/

theorem get_eq_some_iff {row : Coordinator} :
    (tableAfter repr nacl database history).get did = some row ↔
      Current repr nacl database history row.descriptorJson ∧ row = newRow row.descriptorJson ∧
        row.did = did := by
  constructor
  · intro hget
    obtain ⟨hrow, hdid⟩ := (tracks history).sound did row hget
    rw [hrow] at hget
    exact ⟨(((tracks history).current did _).1 hget).1, hrow, hdid⟩
  · rintro ⟨hcurrent, hrow, rfl⟩
    have hsame : row.descriptorJson.did = row.did := congrArg Coordinator.did hrow.symm
    have hget := ((tracks history).current row.did row.descriptorJson).2 ⟨hcurrent, hsame⟩
    rwa [← hrow] at hget

theorem admits_newRow {query : ListQuery} :
    query.admits (newRow d) = true ↔ query.wants d := by
  have hall : ∀ (o : Option String) (p : String → Bool), o.all p = true ↔ ∀ x ∈ o, p x = true := by
    intro o p
    cases o <;> simp
  have hrow : query.admits (newRow d) =
      (!decide (d.conformanceLevel < query.minConformance) &&
        query.country.all (· = d.operatorCountry) &&
        query.descriptorType.all d.descriptorTypesAccepted.contains &&
        query.workerClass.all d.workerClassesAccepted.contains) := rfl
  rw [hrow, ListQuery.wants]
  simp only [Bool.and_eq_true, hall, Bool.not_eq_true', decide_eq_false_iff_not, not_lt,
    decide_eq_true_eq, List.contains_iff_mem, and_assoc]

/-- The rows of the table, of which the list shows those that the query admits. -/
theorem mem_values_iff {row : Coordinator} :
    row ∈ (tableAfter repr nacl database history).values ↔
      ∃ d, Current repr nacl database history d ∧ newRow d = row := by
  constructor
  · intro hvalue
    obtain ⟨did, hget⟩ := Dict.mem_values_iff.1 hvalue
    obtain ⟨hcurrent, hrow, -⟩ := get_eq_some_iff.1 hget
    exact ⟨row.descriptorJson, hcurrent, hrow.symm⟩
  · rintro ⟨d, hcurrent, rfl⟩
    exact Dict.mem_values_iff.2 ⟨d.did, ((tracks history).current d.did d).2 ⟨hcurrent, rfl⟩⟩

theorem mem_admitted_iff {query : ListQuery} :
    d ∈ ((tableAfter repr nacl database history).values.filter query.admits).map
        (·.descriptorJson) ↔
      Current repr nacl database history d ∧ query.wants d := by
  rw [List.mem_map]
  constructor
  · rintro ⟨row, hrow, rfl⟩
    obtain ⟨hvalue, hadmits⟩ := List.mem_filter.1 hrow
    obtain ⟨d, hcurrent, rfl⟩ := mem_values_iff.1 hvalue
    exact ⟨hcurrent, admits_newRow.1 hadmits⟩
  · rintro ⟨hcurrent, hwants⟩
    refine ⟨newRow d, List.mem_filter.2 ⟨?_, admits_newRow.2 hwants⟩, rfl⟩
    exact mem_values_iff.2 ⟨d, hcurrent, rfl⟩

theorem admitted_nodup (hsound : table.Sound) (query : ListQuery) :
    (((table.values.filter query.admits).map (·.descriptorJson)).map (·.did)).Nodup := by
  have hkeys : table.values.map (·.descriptorJson.did) = table.items.map (·.1) := by
    unfold Dict.values
    rw [List.map_map]
    refine List.map_congr_left fun p hp => ?_
    obtain ⟨hrow, hdid⟩ := hsound p.1 p.2 (Dict.get_eq_some_iff.2 hp)
    exact (congrArg Coordinator.did hrow).symm.trans hdid
  have hall : (table.values.map (·.descriptorJson.did)).Nodup := hkeys ▸ table.nodup
  rw [List.map_map]
  exact hall.sublist (List.Sublist.map _ List.filter_sublist)

theorem map_eq_ok_iff {α β : Type} {f : α → β} (hf : Function.Injective f)
    {x : Except RErr α} {a : α} : x.map f = .ok (f a) ↔ x = .ok a := by
  cases x with
  | error e => exact iff_of_false (fun h => by cases h) (fun h => by cases h)
  | ok a' =>
      constructor
      · intro h
        rw [hf (Except.ok.inj h)]
      · intro h
        rw [Except.ok.inj h]
        rfl

theorem answered_get_iff :
    answered repr nacl database history (.get did) = .ok (.descriptor d) ↔
      Current repr nacl database history d ∧ d.did = did ∧ database.reads (newRow d) = true := by
  have hanswer : answered repr nacl database history (.get did) =
      (getCoordinator database (tableAfter repr nacl database history) did).map .descriptor := rfl
  rw [hanswer, map_eq_ok_iff fun _ _ => Response.descriptor.inj, getCoordinator_eq_ok_iff]
  constructor
  · rintro ⟨-, row, hget, hreads, rfl⟩
    obtain ⟨hcurrent, hrow, hdid⟩ := get_eq_some_iff.1 hget
    rw [hrow] at hreads hdid
    exact ⟨hcurrent, hdid, hreads⟩
  · rintro ⟨hcurrent, hdid, hreads⟩
    have hget := ((tracks history).current did d).2 ⟨hcurrent, hdid⟩
    exact ⟨((tracks history).held did _ hget).1, newRow d, hget, hreads, rfl⟩

theorem answered_list_iff {query : ListQuery} {ds : List CoordinatorDescriptor} :
    answered repr nacl database history (.list query) = .ok (.coordinators ds) ↔
      (∀ d, Current repr nacl database history d → database.reads (newRow d) = true) ∧
        ds = ((tableAfter repr nacl database history).values.filter query.admits).map
          (·.descriptorJson) := by
  have hanswer : answered repr nacl database history (.list query) =
      (listCoordinators database (tableAfter repr nacl database history) query).map
        .coordinators := rfl
  rw [hanswer, map_eq_ok_iff fun _ _ => Response.coordinators.inj, listCoordinators_eq_ok_iff]
  refine and_congr_left fun _ => ?_
  constructor
  · intro hreads d hcurrent
    exact hreads _ (mem_values_iff.2 ⟨d, hcurrent, rfl⟩)
  · intro hreads row hrow
    obtain ⟨d, hcurrent, rfl⟩ := mem_values_iff.1 hrow
    exact hreads d hcurrent

/-- The registry is a log.  After any requests, a current descriptor is shown if the database reads
it back, and a list shows the current descriptors that its query wants, each once, if the database
reads all of them.  A registration is stored if its signature verifies, the database takes it, and
the current descriptor of its coordinator, if there is one, can be read and has the same key; a
deletion takes place for a descriptor whose signature verifies if the current one can be read and
has its key.  What is refused changes nothing. -/
theorem registry_is_log (repr : Json → String) (nacl : Nacl) (database : Database)
    (history : List Request) :
    (∀ did d, answered repr nacl database history (.get did) = .ok (.descriptor d) ↔
      Current repr nacl database history d ∧ d.did = did ∧ database.reads (newRow d) = true) ∧
    (∀ query,
      ((∃ ds, answered repr nacl database history (.list query) = .ok (.coordinators ds)) ↔
        ∀ d, Current repr nacl database history d → database.reads (newRow d) = true) ∧
      ∀ ds, answered repr nacl database history (.list query) = .ok (.coordinators ds) →
        (ds.map (·.did)).Nodup ∧
          ∀ d, d ∈ ds ↔ Current repr nacl database history d ∧ query.wants d) ∧
    (∀ d, Accepted repr nacl database history (.register d) ↔
      verifyDescriptorSignature repr nacl d.modelDump = .ok true ∧
        database.binds d.did = true ∧ database.stores (newRow d) = true ∧
        ∀ d', Current repr nacl database history d' → d'.did = d.did →
          database.reads (newRow d') = true ∧ d'.publicKeyMultibase = d.publicKeyMultibase) ∧
    (∀ did d, Accepted repr nacl database history (.delete did d) ↔
      d.did = did ∧ verifyDescriptorSignature repr nacl d.modelDump = .ok true ∧
        ∃ d', Current repr nacl database history d' ∧ d'.did = did ∧
          database.reads (newRow d') = true ∧ d'.publicKeyMultibase = d.publicKeyMultibase) ∧
    ∀ request, ¬ Accepted repr nacl database history request →
      tableAfter repr nacl database (history ++ [request]) =
        tableAfter repr nacl database history := by
  have htracks := @tracks repr nacl database history
  refine ⟨fun did d => answered_get_iff, fun query => ⟨?_, fun ds hlist => ?_⟩, fun d => ?_,
    fun did d => ?_, fun request hrefused => ?_⟩
  · constructor
    · rintro ⟨ds, hlist⟩
      exact (answered_list_iff.1 hlist).1
    · exact fun hreads => ⟨_, answered_list_iff.2 ⟨hreads, rfl⟩⟩
  · obtain ⟨-, rfl⟩ := answered_list_iff.1 hlist
    exact ⟨admitted_nodup htracks.sound query, fun d => mem_admitted_iff⟩
  · refine (register_accepted_iff htracks.sound).trans ?_
    constructor
    · intro hstores
      refine ⟨hstores.verifies, hstores.binds, hstores.stores, fun d' hcurrent hdid => ?_⟩
      have hget := (htracks.current d.did d').2 ⟨hcurrent, hdid⟩
      exact ⟨hstores.reads _ hget, hstores.key _ hget⟩
    · rintro ⟨hverifies, hbinds, hstores, hcurrents⟩
      have hrows : ∀ row, (tableAfter repr nacl database history).get d.did = some row →
          database.reads row = true ∧ row.publicKeyMultibase = d.publicKeyMultibase := by
        intro row hget
        obtain ⟨hcurrent, hrow, hdid⟩ := get_eq_some_iff.1 hget
        rw [hrow] at hdid ⊢
        exact hcurrents _ hcurrent hdid
      exact ⟨hverifies, hbinds, fun row hget => (hrows row hget).1,
        fun row hget => (hrows row hget).2, hstores⟩
  · refine delete_accepted_iff.trans ?_
    constructor
    · rintro ⟨rfl, hverifies, -, row, hget, hreads, hkey⟩
      obtain ⟨hcurrent, hrow, hdid⟩ := get_eq_some_iff.1 hget
      rw [hrow] at hdid hreads hkey
      exact ⟨rfl, hverifies, row.descriptorJson, hcurrent, hdid, hreads, hkey⟩
    · rintro ⟨rfl, hverifies, d', hcurrent, hdid, hreads, hkey⟩
      have hget := (htracks.current _ d').2 ⟨hcurrent, hdid⟩
      exact ⟨rfl, hverifies, (htracks.held _ _ hget).1, newRow d', hget, hreads, hkey⟩
  · rw [tableAfter_concat]
    exact serve_refused hrefused

end Wcp.Registry
