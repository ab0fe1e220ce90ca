import Wcp.Registry.Service
/-!
# Replayed descriptors

Someone who does not hold a coordinator's key can only send again what the registry has
shown.  An entry then always holds a descriptor that its coordinator has sent, but the
registry cannot tell when and for what it was sent: a descriptor deletes the entry, and an
older one takes the entry back, whoever sends it.  Nothing else does (`replay_confined`).
-/

namespace Wcp.Registry

open Wcp.Base

variable {repr : Json → String} {nacl : Nacl} {database : Database} {table table' : Table}
  {did key : String}
  {d : CoordinatorDescriptor} {row : Coordinator}

/-! ## What the writing routes do -/

/-- Every row is that of the descriptor it holds, under its DID. -/
def Table.Sound (table : Table) : Prop :=
  ∀ did row, table.get did = some row → row = newRow row.descriptorJson ∧ row.did = did

theorem requireSignature_eq_ok_iff :
    requireSignature repr nacl d = .ok () ↔
      verifyDescriptorSignature repr nacl d.modelDump = .ok true := by
  unfold requireSignature
  rw [bind_eq_ok]
  constructor
  · rintro ⟨verified, hverified, hensure⟩
    rwa [ensure_eq_ok.1 hensure] at hverified
  · intro hverified
    exact ⟨true, hverified, ensure_eq_ok.2 rfl⟩

theorem commitRow_eq_ok_iff :
    commitRow database table row = .ok table' ↔
      database.stores row = true ∧ table' = table.set row.did row := by
  unfold commitRow
  rw [bind_eq_ok]
  constructor
  · rintro ⟨_, hensure, hset⟩
    exact ⟨ensure_eq_ok.1 hensure, (Except.ok.inj hset).symm⟩
  · rintro ⟨hstores, rfl⟩
    exact ⟨(), ensure_eq_ok.2 hstores, rfl⟩

theorem getRow_eq_ok_iff {found : Option Coordinator} :
    getRow database table did = .ok found ↔
      database.binds did = true ∧ (∀ row, table.get did = some row → database.reads row = true) ∧
        found = table.get did := by
  unfold getRow
  rw [bind_eq_ok]
  cases hget : table.get did with
  | none =>
      constructor
      · rintro ⟨_, hbinds, h⟩
        exact ⟨ensure_eq_ok.1 hbinds, nofun, (Except.ok.inj h).symm⟩
      · rintro ⟨hbinds, -, rfl⟩
        exact ⟨(), ensure_eq_ok.2 hbinds, rfl⟩
  | some existing =>
      constructor
      · rintro ⟨_, hbinds, h⟩
        obtain ⟨_, hreads, h⟩ := bind_eq_ok.1 h
        refine ⟨ensure_eq_ok.1 hbinds, fun row hrow => ?_, (Except.ok.inj h).symm⟩
        rw [← Option.some.inj hrow]
        exact ensure_eq_ok.1 hreads
      · rintro ⟨hbinds, hreads, rfl⟩
        exact ⟨(), ensure_eq_ok.2 hbinds,
          bind_eq_ok.2 ⟨(), ensure_eq_ok.2 (hreads existing rfl), rfl⟩⟩

theorem allRows_eq_ok_iff {rows : List Coordinator} :
    allRows database table = .ok rows ↔
      (∀ row ∈ table.values, database.reads row = true) ∧ rows = table.values := by
  unfold allRows
  rw [bind_eq_ok]
  constructor
  · rintro ⟨_, hensure, h⟩
    exact ⟨List.all_eq_true.1 (ensure_eq_ok.1 hensure), (Except.ok.inj h).symm⟩
  · rintro ⟨hreads, rfl⟩
    exact ⟨(), ensure_eq_ok.2 (List.all_eq_true.2 hreads), rfl⟩

theorem updatedRow_eq (hdid : row.did = d.did)
    (hkey : row.publicKeyMultibase = d.publicKeyMultibase) : updatedRow row d = newRow d := by
  unfold updatedRow newRow
  rw [hdid, hkey]

variable (repr nacl database) in
/-- Whether a registration is stored. -/
structure Stores (table : Table) (d : CoordinatorDescriptor) : Prop where
  verifies : verifyDescriptorSignature repr nacl d.modelDump = .ok true
  binds : database.binds d.did = true
  reads : ∀ row, table.get d.did = some row → database.reads row = true
  key : ∀ row, table.get d.did = some row → row.publicKeyMultibase = d.publicKeyMultibase
  stores : database.stores (newRow d) = true

variable (repr nacl database) in
/-- Whether a deletion takes place. -/
structure Deletes (table : Table) (d : CoordinatorDescriptor) : Prop where
  verifies : verifyDescriptorSignature repr nacl d.modelDump = .ok true
  binds : database.binds d.did = true
  key : ∃ row, table.get d.did = some row ∧ database.reads row = true ∧
    row.publicKeyMultibase = d.publicKeyMultibase

theorem registerCoordinator_eq_ok_iff (hsound : table.Sound) {d' : CoordinatorDescriptor} :
    registerCoordinator repr nacl database table d = .ok (table', d') ↔
      Stores repr nacl database table d ∧ table' = table.set d.did (newRow d) ∧ d' = d := by
  have hcommit : ∀ {row : Coordinator}, row = newRow d →
      ((do let table ← commitRow database table row
           return (table, d)) = .ok (table', d') ↔
        database.stores (newRow d) = true ∧ table' = table.set d.did (newRow d) ∧ d' = d) := by
    rintro _ rfl
    rw [bind_eq_ok]
    constructor
    · rintro ⟨table'', hcommit, hreturn⟩
      obtain ⟨hstores, hset⟩ := commitRow_eq_ok_iff.1 hcommit
      obtain ⟨rfl, rfl⟩ := Prod.mk.inj (Except.ok.inj hreturn)
      exact ⟨hstores, hset, rfl⟩
    · rintro ⟨hstores, rfl, rfl⟩
      exact ⟨_, commitRow_eq_ok_iff.2 ⟨hstores, rfl⟩, rfl⟩
  unfold registerCoordinator
  constructor
  · intro h
    obtain ⟨_, hsignature, h⟩ := bind_eq_ok.1 h
    obtain ⟨found, hfound, h⟩ := bind_eq_ok.1 h
    obtain ⟨hbinds, hreads, rfl⟩ := getRow_eq_ok_iff.1 hfound
    have hverifies := requireSignature_eq_ok_iff.1 hsignature
    cases hget : table.get d.did with
    | none =>
        rw [hget] at h
        obtain ⟨hstores, htable, hd⟩ := (hcommit rfl).1 h
        refine ⟨⟨hverifies, hbinds, hreads, fun row hrow => ?_, hstores⟩, htable, hd⟩
        cases hget.symm.trans hrow
    | some existing =>
        rw [hget] at h
        obtain ⟨_, hensure, h⟩ := bind_eq_ok.1 h
        have hkey := ensure_eq_ok.1 hensure
        obtain ⟨-, hdid⟩ := hsound d.did existing hget
        obtain ⟨hstores, htable, hd⟩ := (hcommit (updatedRow_eq hdid hkey)).1 h
        refine ⟨⟨hverifies, hbinds, hreads, fun row hrow => ?_, hstores⟩, htable, hd⟩
        rw [← Option.some.inj (hget.symm.trans hrow)]
        exact hkey
  · rintro ⟨hstored, hrest⟩
    refine bind_eq_ok.2 ⟨(), requireSignature_eq_ok_iff.2 hstored.verifies, ?_⟩
    refine bind_eq_ok.2 ⟨_, getRow_eq_ok_iff.2 ⟨hstored.binds, hstored.reads, rfl⟩, ?_⟩
    cases hget : table.get d.did with
    | none => exact (hcommit rfl).2 ⟨hstored.stores, hrest⟩
    | some existing =>
        obtain ⟨-, hdid⟩ := hsound d.did existing hget
        have hkey := hstored.key existing hget
        refine bind_eq_ok.2 ⟨(), ensure_eq_ok.2 hkey, ?_⟩
        exact (hcommit (updatedRow_eq hdid hkey)).2 ⟨hstored.stores, hrest⟩

theorem deleteCoordinator_eq_ok_iff :
    deleteCoordinator repr nacl database table did d = .ok table' ↔
      d.did = did ∧ Deletes repr nacl database table d ∧ table' = table.pop did := by
  unfold deleteCoordinator
  constructor
  · intro h
    obtain ⟨_, hdid, h⟩ := bind_eq_ok.1 h
    obtain ⟨_, hsignature, h⟩ := bind_eq_ok.1 h
    obtain ⟨found, hfound, h⟩ := bind_eq_ok.1 h
    obtain ⟨hbinds, hreads, rfl⟩ := getRow_eq_ok_iff.1 hfound
    obtain rfl := ensure_eq_ok.1 hdid
    cases hget : table.get d.did with
    | none =>
        rw [hget] at h
        cases h
    | some row =>
        rw [hget] at h
        obtain ⟨_, hkey, h⟩ := bind_eq_ok.1 h
        exact ⟨rfl, ⟨requireSignature_eq_ok_iff.1 hsignature, hbinds, row, hget, hreads row hget,
          ensure_eq_ok.1 hkey⟩, (Except.ok.inj h).symm⟩
  · rintro ⟨rfl, ⟨hverifies, hbinds, row, hget, hreads, hkey⟩, rfl⟩
    have hall : ∀ row', table.get d.did = some row' → database.reads row' = true := by
      intro row' hrow'
      rw [← Option.some.inj (hget.symm.trans hrow')]
      exact hreads
    refine bind_eq_ok.2 ⟨(), ensure_eq_ok.2 rfl, ?_⟩
    refine bind_eq_ok.2 ⟨(), requireSignature_eq_ok_iff.2 hverifies, ?_⟩
    refine bind_eq_ok.2 ⟨_, getRow_eq_ok_iff.2 ⟨hbinds, hall, rfl⟩, ?_⟩
    rw [hget]
    exact bind_eq_ok.2 ⟨(), ensure_eq_ok.2 hkey, rfl⟩

theorem getCoordinator_eq_ok_iff :
    getCoordinator database table did = .ok d ↔ database.binds did = true ∧
      ∃ row, table.get did = some row ∧ database.reads row = true ∧ row.descriptorJson = d := by
  unfold getCoordinator
  constructor
  · intro h
    obtain ⟨found, hfound, h⟩ := bind_eq_ok.1 h
    obtain ⟨hbinds, hreads, rfl⟩ := getRow_eq_ok_iff.1 hfound
    cases hget : table.get did with
    | none =>
        rw [hget] at h
        cases h
    | some row =>
        rw [hget] at h
        exact ⟨hbinds, row, rfl, hreads row hget, Except.ok.inj h⟩
  · rintro ⟨hbinds, row, hget, hreads, rfl⟩
    have hall : ∀ row', table.get did = some row' → database.reads row' = true := by
      intro row' hrow'
      rw [← Option.some.inj (hget.symm.trans hrow')]
      exact hreads
    refine bind_eq_ok.2 ⟨_, getRow_eq_ok_iff.2 ⟨hbinds, hall, rfl⟩, ?_⟩
    rw [hget]
    rfl

theorem listCoordinators_eq_ok_iff {query : ListQuery} {ds : List CoordinatorDescriptor} :
    listCoordinators database table query = .ok ds ↔
      (∀ row ∈ table.values, database.reads row = true) ∧
        ds = (table.values.filter query.admits).map (·.descriptorJson) := by
  unfold listCoordinators
  constructor
  · intro h
    obtain ⟨rows, hrows, h⟩ := bind_eq_ok.1 h
    obtain ⟨hreads, rfl⟩ := allRows_eq_ok_iff.1 hrows
    exact ⟨hreads, (Except.ok.inj h).symm⟩
  · rintro ⟨hreads, rfl⟩
    exact bind_eq_ok.2 ⟨_, allRows_eq_ok_iff.2 ⟨hreads, rfl⟩, rfl⟩

/-! ## Runs -/

inductive Sender where
  /-- Who holds the coordinator's key. -/
  | owner
  | other
deriving DecidableEq

/-- A registry, the descriptors its answers have shown, and those the owner has sent. -/
structure World where
  table : Table
  shown : List CoordinatorDescriptor
  sent : List CoordinatorDescriptor

def Request.carried : Request → List CoordinatorDescriptor
  | .register d => [d]
  | .delete _ d => [d]
  | .get _ => []
  | .list _ => []

/-- The descriptors that an answer shows. -/
def shownBy : Except RErr Response → List CoordinatorDescriptor
  | .ok (.descriptor d) => [d]
  | .ok (.coordinators ds) => ds
  | .ok .noContent => []
  | .error _ => []

variable (repr nacl database) in
/-- One request. -/
def World.step (w : World) (i : Sender × Request) : World :=
  let (table, answer) := serve repr nacl database w.table i.2
  { table
    shown := w.shown ++ shownBy answer
    sent := if i.1 = .owner then w.sent ++ i.2.carried else w.sent }

def World.start : World := ⟨Dict.empty, [], []⟩

variable (repr nacl database) in
/-- The world after some requests to an empty registry. -/
def worldAfter (history : List (Sender × Request)) : World :=
  run (World.step repr nacl database) World.start history

variable (repr nacl database) in
/-- Only the owner can sign with the key: what anyone else sends under it, and verifies, the
registry has shown before. -/
def Resubmits (key : String) (w : World) (i : Sender × Request) : Prop :=
  i.1 = .other → ∀ d ∈ i.2.carried, d.publicKeyMultibase = key →
    verifyDescriptorSignature repr nacl d.modelDump = .ok true → d ∈ w.shown

variable (repr nacl database) in
/-- A history in which the others resubmit only. -/
def Plays (key : String) (history : List (Sender × Request)) : Prop :=
  ∀ before i after, history = before ++ i :: after →
    Resubmits repr nacl key (worldAfter repr nacl database before) i

/-- The entry of the coordinator with this DID and this key. -/
def entry (table : Table) (did key : String) : Option Coordinator :=
  (table.get did).filter (·.publicKeyMultibase = key)

variable (repr nacl database) in
/-- A descriptor of the coordinator, signed with its key. -/
structure Authentic (did key : String) (d : CoordinatorDescriptor) : Prop where
  did : d.did = did
  key : d.publicKeyMultibase = key
  verifies : verifyDescriptorSignature repr nacl d.modelDump = .ok true

/-- The entry is gone, or its time of signing is earlier than in this row. -/
def Lost (did key : String) (row : Coordinator) (table : Table) : Prop :=
  ∀ row', entry table did key = some row' → row'.signedAt < row.signedAt

variable (repr nacl database) in
/-- A request that deletes the entry or takes it back, where the database reads it: it carries a
descriptor of the coordinator, and unless its owner sends it, one that the owner has sent before;
the database takes the owner's. -/
def Undoes (did key : String) (w : World) (i : Sender × Request) : Prop :=
  ∃ d row, Authentic repr nacl did key d ∧ (i.1 = .other → d ∈ w.sent) ∧
    entry w.table did key = some row ∧ database.reads row = true ∧
    (i.2 = .delete did d ∨
      i.2 = .register d ∧ (i.1 = .owner → database.stores (newRow d) = true) ∧
        d.signedAt.instant < row.signedAt)

/-! ## What one request does -/

variable (repr nacl database) in
/-- A request that changes nothing and shows only what is stored. -/
structure Reads (table : Table) (request : Request) : Prop where
  same : (serve repr nacl database table request).1 = table
  shows : ∀ d ∈ shownBy (serve repr nacl database table request).2,
    ∃ did row, table.get did = some row ∧ row.descriptorJson = d
  stores : ∀ d, request = .register d → ¬ Stores repr nacl database table d
  deletes : ∀ d, request = .delete d.did d → ¬ Deletes repr nacl database table d

theorem serve_register (hsound : table.Sound) (hstores : Stores repr nacl database table d) :
    serve repr nacl database table (.register d) =
      (table.set d.did (newRow d), .ok (.descriptor d)) := by
  have hroute : registerCoordinator repr nacl database table d =
      .ok (table.set d.did (newRow d), d) :=
    (registerCoordinator_eq_ok_iff hsound).2 ⟨hstores, rfl, rfl⟩
  rw [serve, hroute]

theorem serve_delete (hdeletes : Deletes repr nacl database table d) :
    serve repr nacl database table (.delete d.did d) = (table.pop d.did, .ok .noContent) := by
  have hroute : deleteCoordinator repr nacl database table d.did d = .ok (table.pop d.did) :=
    deleteCoordinator_eq_ok_iff.2 ⟨rfl, hdeletes, rfl⟩
  rw [serve, hroute]

theorem serve_get (hbinds : database.binds did = true) (hget : table.get did = some row)
    (hreads : database.reads row = true) :
    serve repr nacl database table (.get did) = (table, .ok (.descriptor row.descriptorJson)) := by
  have hroute : getCoordinator database table did = .ok row.descriptorJson :=
    getCoordinator_eq_ok_iff.2 ⟨hbinds, row, hget, hreads, rfl⟩
  rw [serve, hroute]
  rfl

theorem reads_register (hsound : table.Sound) (h : ¬ Stores repr nacl database table d) :
    Reads repr nacl database table (.register d) := by
  have hserve : ∃ e, serve repr nacl database table (.register d) = (table, .error e) := by
    cases hroute : registerCoordinator repr nacl database table d with
    | error e => exact ⟨e, by rw [serve, hroute]⟩
    | ok result =>
        exact absurd ((registerCoordinator_eq_ok_iff hsound).1 hroute).1 h
  obtain ⟨e, hserve⟩ := hserve
  refine ⟨by rw [hserve], ?_, ?_, nofun⟩
  · rw [hserve]
    exact fun d' hd' => absurd hd' List.not_mem_nil
  · intro d' hd'
    cases hd'
    exact h

theorem reads_delete (h : d.did = did → ¬ Deletes repr nacl database table d) :
    Reads repr nacl database table (.delete did d) := by
  have hserve : ∃ e, serve repr nacl database table (.delete did d) = (table, .error e) := by
    cases hroute : deleteCoordinator repr nacl database table did d with
    | error e => exact ⟨e, by rw [serve, hroute]⟩
    | ok result =>
        obtain ⟨hdid, hdeletes, -⟩ := deleteCoordinator_eq_ok_iff.1 hroute
        exact absurd hdeletes (h hdid)
  obtain ⟨e, hserve⟩ := hserve
  refine ⟨by rw [hserve], ?_, nofun, ?_⟩
  · rw [hserve]
    exact fun d' hd' => absurd hd' List.not_mem_nil
  · intro d' hd'
    cases hd'
    exact h rfl

theorem reads_get : Reads repr nacl database table (.get did) where
  same := rfl
  shows := by
    intro d hd
    replace hd : d ∈ shownBy ((getCoordinator database table did).map .descriptor) := hd
    cases hroute : getCoordinator database table did with
    | error e =>
        rw [hroute] at hd
        cases hd
    | ok d' =>
        rw [hroute] at hd
        obtain ⟨-, row, hget, -, hrow⟩ := getCoordinator_eq_ok_iff.1 hroute
        exact ⟨did, row, hget, hrow.trans (List.mem_singleton.1 hd).symm⟩
  stores := nofun
  deletes := nofun

theorem reads_list {query : ListQuery} : Reads repr nacl database table (.list query) where
  same := rfl
  shows := by
    intro d hd
    replace hd : d ∈ shownBy ((listCoordinators database table query).map .coordinators) := hd
    cases hroute : listCoordinators database table query with
    | error e =>
        rw [hroute] at hd
        cases hd
    | ok ds =>
        rw [hroute] at hd
        obtain ⟨-, rfl⟩ := listCoordinators_eq_ok_iff.1 hroute
        obtain ⟨row, hrow, rfl⟩ := List.mem_map.1 hd
        obtain ⟨did, hget⟩ := Dict.mem_values_iff.1 (List.mem_of_mem_filter hrow)
        exact ⟨did, row, hget, rfl⟩
  stores := nofun
  deletes := nofun

theorem serve_cases (hsound : table.Sound) (request : Request) :
    (∃ d, request = .register d ∧ Stores repr nacl database table d) ∨
    (∃ d, request = .delete d.did d ∧ Deletes repr nacl database table d) ∨
    Reads repr nacl database table request := by
  cases request with
  | register d =>
      by_cases h : Stores repr nacl database table d
      · exact .inl ⟨d, rfl, h⟩
      · exact .inr (.inr (reads_register hsound h))
  | get did => exact .inr (.inr reads_get)
  | list query => exact .inr (.inr reads_list)
  | delete did d =>
      by_cases h : d.did = did ∧ Deletes repr nacl database table d
      · obtain ⟨rfl, hdeletes⟩ := h
        exact .inr (.inl ⟨d, rfl, hdeletes⟩)
      · exact .inr (.inr (reads_delete fun hdid hdeletes => h ⟨hdid, hdeletes⟩))

/-! ## What every run keeps -/

theorem Table.Sound.set (h : table.Sound) (d : CoordinatorDescriptor) :
    Table.Sound (table.set d.did (newRow d)) := by
  intro did row hget
  rcases Dict.get_set hget with ⟨rfl, rfl⟩ | ⟨-, hget⟩
  · exact ⟨rfl, rfl⟩
  · exact h did row hget

theorem Table.Sound.pop (h : table.Sound) (did : String) : Table.Sound (table.pop did) :=
  fun did' row hget => h did' row (Dict.get_pop hget).2

/-- Every row is one that the database has taken, under a DID that can be looked up. -/
def Table.Held (database : Database) (table : Table) : Prop :=
  ∀ did row, table.get did = some row → database.binds did = true ∧ database.stores row = true

theorem Table.Held.set (h : table.Held database) (hstores : Stores repr nacl database table d) :
    Table.Held database (table.set d.did (newRow d)) := by
  intro did row hget
  rcases Dict.get_set hget with ⟨rfl, rfl⟩ | ⟨-, hget⟩
  · exact ⟨hstores.binds, hstores.stores⟩
  · exact h did row hget

theorem Table.Held.pop (h : table.Held database) (did : String) :
    Table.Held database (table.pop did) :=
  fun did' row hget => h did' row (Dict.get_pop hget).2

variable (database) in
/-- Rows are sound, what stands under the key or was shown of it comes from the owner, and the
database has taken whatever was shown. -/
structure World.Inv (key : String) (w : World) : Prop where
  sound : w.table.Sound
  held : w.table.Held database
  stored : ∀ d ∈ w.shown, database.stores (newRow d) = true
  stands : ∀ did row, w.table.get did = some row → row.publicKeyMultibase = key →
    row.descriptorJson ∈ w.sent
  known : ∀ d ∈ w.shown, d.publicKeyMultibase = key → d ∈ w.sent

theorem not_get_empty : (Dict.empty : Table).get did ≠ some row := by
  rw [Dict.get_empty]
  exact nofun

theorem inv_start : World.start.Inv database key where
  sound := fun _ _ hget => absurd hget not_get_empty
  held := fun _ _ hget => absurd hget not_get_empty
  stored := fun _ hd => absurd hd List.not_mem_nil
  stands := fun _ _ hget => absurd hget not_get_empty
  known := fun _ hd => absurd hd List.not_mem_nil

variable {w : World} {i : Sender × Request}

theorem step_eq (sender : Sender) {request : Request} {answer : Except RErr Response}
    (h : serve repr nacl database w.table request = (table, answer)) :
    w.step repr nacl database (sender, request) = ⟨table, w.shown ++ shownBy answer,
      if sender = .owner then w.sent ++ request.carried else w.sent⟩ := by
  unfold World.step
  rw [h]

theorem step_of_serve (sender : Sender) {request : Request} {answer : Except RErr Response}
    (h : serve repr nacl database w.table request = (table, answer)) :
    (w.step repr nacl database (sender, request)).table = table ∧
      (w.step repr nacl database (sender, request)).shown = w.shown ++ shownBy answer := by
  rw [step_eq sender h]
  exact ⟨rfl, rfl⟩

theorem mem_sent_step (h : d ∈ w.sent) : d ∈ (w.step repr nacl database i).sent := by
  unfold World.step
  dsimp only
  split
  · exact List.mem_append_left _ h
  · exact h

/-- A signed descriptor of the coordinator that someone sends has been sent by the owner. -/
theorem sent_of_carried (hinv : w.Inv database key) (hplay : Resubmits repr nacl key w i)
    (hd : d ∈ i.2.carried) (hkey : d.publicKeyMultibase = key)
    (hverifies : verifyDescriptorSignature repr nacl d.modelDump = .ok true)
    (hother : i.1 = .other) : d ∈ w.sent :=
  hinv.known d (hplay hother d hd hkey hverifies) hkey

theorem mem_sent_of_carried (hinv : w.Inv database key) (hplay : Resubmits repr nacl key w i)
    (hd : d ∈ i.2.carried) (hkey : d.publicKeyMultibase = key)
    (hverifies : verifyDescriptorSignature repr nacl d.modelDump = .ok true) :
    d ∈ (w.step repr nacl database i).sent := by
  cases hsender : i.1 with
  | other => exact mem_sent_step (sent_of_carried hinv hplay hd hkey hverifies hsender)
  | owner =>
      unfold World.step
      dsimp only
      rw [if_pos hsender]
      exact List.mem_append_right _ hd

theorem inv_step (hinv : w.Inv database key) (hplay : Resubmits repr nacl key w i) :
    (w.step repr nacl database i).Inv database key := by
  obtain ⟨sender, request⟩ := i
  rcases @serve_cases repr nacl database _ hinv.sound request with
    ⟨d, rfl, hstores⟩ | ⟨d, rfl, hdeletes⟩ | hreads
  · -- the new row holds what the request carried
    obtain ⟨htable, hshown⟩ := step_of_serve sender (serve_register hinv.sound hstores)
    have hcarried : d.publicKeyMultibase = key →
        d ∈ (w.step repr nacl database (sender, .register d)).sent := fun hkey =>
      mem_sent_of_carried hinv hplay List.mem_cons_self hkey hstores.verifies
    constructor
    · rw [htable]
      exact hinv.sound.set d
    · rw [htable]
      exact hinv.held.set hstores
    · intro d' hd'
      rw [hshown] at hd'
      rcases List.mem_append.1 hd' with hd' | hd'
      · exact hinv.stored d' hd'
      · obtain rfl := List.mem_singleton.1 hd'
        exact hstores.stores
    · intro did row hget hkey
      rw [htable, Dict.get_set_eq] at hget
      split at hget
      · obtain rfl := Option.some.inj hget
        exact hcarried hkey
      · exact mem_sent_step (hinv.stands did row hget hkey)
    · intro d' hd' hkey
      rw [hshown] at hd'
      rcases List.mem_append.1 hd' with hd' | hd'
      · exact mem_sent_step (hinv.known d' hd' hkey)
      · obtain rfl := List.mem_singleton.1 hd'
        exact hcarried hkey
  · obtain ⟨htable, hshown⟩ := step_of_serve sender (serve_delete hdeletes)
    rw [shownBy, List.append_nil] at hshown
    constructor
    · rw [htable]
      exact hinv.sound.pop d.did
    · rw [htable]
      exact hinv.held.pop d.did
    · rw [hshown]
      exact hinv.stored
    · intro did row hget hkey
      rw [htable] at hget
      exact mem_sent_step (hinv.stands did row (Dict.get_pop hget).2 hkey)
    · intro d' hd' hkey
      rw [hshown] at hd'
      exact mem_sent_step (hinv.known d' hd' hkey)
  · have htable : (w.step repr nacl database (sender, request)).table = w.table := hreads.same
    constructor
    · rw [htable]
      exact hinv.sound
    · rw [htable]
      exact hinv.held
    · intro d' hd'
      rcases List.mem_append.1 hd' with hd' | hd'
      · exact hinv.stored d' hd'
      · obtain ⟨did, row, hget, rfl⟩ := hreads.shows d' hd'
        obtain ⟨hrow, -⟩ := hinv.sound did row hget
        exact hrow ▸ (hinv.held did row hget).2
    · intro did row hget hkey
      rw [htable] at hget
      exact mem_sent_step (hinv.stands did row hget hkey)
    · intro d' hd' hkey
      rcases List.mem_append.1 hd' with hd' | hd'
      · exact mem_sent_step (hinv.known d' hd' hkey)
      · obtain ⟨did, row, hget, rfl⟩ := hreads.shows d' hd'
        obtain ⟨hrow, -⟩ := hinv.sound did row hget
        refine mem_sent_step (hinv.stands did row hget ?_)
        rw [hrow]
        exact hkey

/-! ## What undoes an entry -/

theorem entry_eq_some_iff :
    entry table did key = some row ↔
      table.get did = some row ∧ row.publicKeyMultibase = key := by
  unfold entry
  rw [Option.filter_eq_some_iff]
  simp

theorem entry_set_self (h : d.did = did) (hkey : d.publicKeyMultibase = key) :
    entry (table.set d.did (newRow d)) did key = some (newRow d) := by
  rw [entry_eq_some_iff, Dict.get_set_eq, if_pos h.symm]
  exact ⟨rfl, hkey⟩

theorem entry_set_ne (h : d.did ≠ did) :
    entry (table.set d.did (newRow d)) did key = entry table did key := by
  rw [entry, Dict.get_set_eq, if_neg h.symm, entry]

theorem entry_pop_self : entry (table.pop did) did key = none := by
  rw [entry, Dict.get_pop_eq, if_pos rfl, Option.filter_none]

theorem entry_pop_ne (h : d.did ≠ did) :
    entry (table.pop d.did) did key = entry table did key := by
  rw [entry, Dict.get_pop_eq, if_neg h.symm, entry]

theorem not_lost_of_entry_eq (hrow : entry table did key = some row)
    (hsame : entry table' did key = entry table did key) : ¬ Lost did key row table' := by
  intro hlost
  exact lt_irrefl _ (hlost row (hsame.trans hrow))

theorem lost_iff_undoes (hinv : w.Inv database key) (hplay : Resubmits repr nacl key w i)
    (hrow : entry w.table did key = some row) :
    Lost did key row (w.step repr nacl database i).table ↔
      Undoes repr nacl database did key w i := by
  obtain ⟨hget, hrowKey⟩ := entry_eq_some_iff.1 hrow
  obtain ⟨sender, request⟩ := i
  rcases @serve_cases repr nacl database _ hinv.sound request with
    ⟨d, rfl, hstores⟩ | ⟨d, rfl, hdeletes⟩ | hreads
  · rw [(step_of_serve sender (serve_register hinv.sound hstores)).1]
    by_cases hdid : d.did = did
    · have hget' : w.table.get d.did = some row := hdid ▸ hget
      have hkey : d.publicKeyMultibase = key := (hstores.key row hget').symm.trans hrowKey
      constructor
      · intro hlost
        have hearlier := hlost _ (entry_set_self hdid hkey)
        exact ⟨d, row, ⟨hdid, hkey, hstores.verifies⟩,
          sent_of_carried hinv hplay List.mem_cons_self hkey hstores.verifies, hrow,
          hstores.reads row hget', .inr ⟨rfl, fun _ => hstores.stores, hearlier⟩⟩
      · rintro ⟨d', row', -, -, hrow', -, hrequest | ⟨hrequest, -, hearlier⟩⟩ row'' hrow''
        · cases hrequest
        · cases hrequest
          rw [entry_set_self hdid hkey] at hrow''
          rw [hrow] at hrow'
          obtain rfl := Option.some.inj hrow'
          obtain rfl := Option.some.inj hrow''
          exact hearlier
    · refine iff_of_false (not_lost_of_entry_eq hrow (entry_set_ne hdid)) ?_
      rintro ⟨d', row', hauthentic, -, -, -, hrequest | ⟨hrequest, -⟩⟩
      · cases hrequest
      · cases hrequest
        exact hdid hauthentic.did
  · rw [(step_of_serve sender (serve_delete hdeletes)).1]
    by_cases hdid : d.did = did
    · obtain ⟨row', hget', hreads, hkey'⟩ := hdeletes.key
      rw [hdid, hget] at hget'
      obtain rfl := Option.some.inj hget'
      have hkey : d.publicKeyMultibase = key := hkey'.symm.trans hrowKey
      refine iff_of_true ?_ ⟨d, row, ⟨hdid, hkey, hdeletes.verifies⟩,
        sent_of_carried hinv hplay List.mem_cons_self hkey hdeletes.verifies, hrow, hreads,
        .inl (by rw [hdid])⟩
      intro row' hrow'
      rw [hdid, entry_pop_self] at hrow'
      cases hrow'
    · refine iff_of_false (not_lost_of_entry_eq hrow (entry_pop_ne hdid)) ?_
      rintro ⟨d', row', hauthentic, -, -, -, hrequest | ⟨hrequest, -⟩⟩
      · injection hrequest with hpath
        exact hdid hpath
      · cases hrequest
  · have htable : (w.step repr nacl database (sender, request)).table = w.table := hreads.same
    rw [htable]
    refine iff_of_false (not_lost_of_entry_eq hrow rfl) ?_
    rintro ⟨d, row', hauthentic, -, hrow', hread, hrequest⟩
    obtain rfl := Option.some.inj (hrow.symm.trans hrow')
    have hdid := hauthentic.did
    subst hdid
    have hkey : row.publicKeyMultibase = d.publicKeyMultibase :=
      hrowKey.trans hauthentic.key.symm
    have hbinds := (hinv.held d.did row hget).1
    rcases hrequest with hrequest | ⟨hrequest, howner, -⟩
    · exact hreads.deletes d hrequest ⟨hauthentic.verifies, hbinds, row, hget, hread, hkey⟩
    · have hstores : database.stores (newRow d) = true := by
        cases sender with
        | owner => exact howner rfl
        | other =>
            refine hinv.stored d (hplay rfl d ?_ hauthentic.key hauthentic.verifies)
            rw [show request = .register d from hrequest]
            exact List.mem_cons_self
      refine hreads.stores d hrequest ⟨hauthentic.verifies, hbinds, fun row' hrow' => ?_,
        fun row' hrow' => ?_, hstores⟩
      · rw [← Option.some.inj (hget.symm.trans hrow')]
        exact hread
      · rw [← Option.some.inj (hget.symm.trans hrow')]
        exact hkey

/-! ## Whole runs -/

theorem inv_worldAfter {history : List (Sender × Request)}
    (hplay : Plays repr nacl database key history) :
    (worldAfter repr nacl database history).Inv database key :=
  run_invariant_at (fun _ _ hinv hok => inv_step hinv hok) inv_start hplay

theorem worldAfter_concat (before : List (Sender × Request)) (i : Sender × Request) :
    worldAfter repr nacl database (before ++ [i]) =
      (worldAfter repr nacl database before).step repr nacl database i :=
  run_append _ _ before [i]

/-- An entry always holds a descriptor that its coordinator has sent.  A request deletes it or
takes it back exactly if it carries such a descriptor to be deleted or an earlier one to be
registered, and along a run an entry is lost by such a request only. -/
theorem replay_confined (repr : Json → String) (nacl : Nacl) (database : Database)
    (did key : String) (history : List (Sender × Request))
    (hplay : Plays repr nacl database key history) :
    (∀ row, entry (worldAfter repr nacl database history).table did key = some row →
      row = newRow row.descriptorJson ∧ row.did = did ∧
        row.descriptorJson ∈ (worldAfter repr nacl database history).sent) ∧
    (∀ before i after row, history = before ++ i :: after →
      entry (worldAfter repr nacl database before).table did key = some row →
      (Lost did key row (worldAfter repr nacl database (before ++ [i])).table ↔
        Undoes repr nacl database did key (worldAfter repr nacl database before) i)) ∧
    (∀ first middle later row, history = first ++ (middle ++ later) →
      entry (worldAfter repr nacl database first).table did key = some row →
      Lost did key row (worldAfter repr nacl database (first ++ middle)).table →
      ∃ before i after, middle = before ++ i :: after ∧
        Undoes repr nacl database did key (worldAfter repr nacl database (first ++ before)) i) := by
  have hstep : ∀ before i after row, history = before ++ i :: after →
      entry (worldAfter repr nacl database before).table did key = some row →
      (Lost did key row (worldAfter repr nacl database (before ++ [i])).table ↔
        Undoes repr nacl database did key (worldAfter repr nacl database before) i) := by
    intro before i after row hsplit hrow
    have hinv : (worldAfter repr nacl database before).Inv database key := by
      refine inv_worldAfter fun first j rest hfirst => ?_
      exact hplay first j (rest ++ i :: after) (by rw [hsplit, hfirst]; simp)
    rw [worldAfter_concat]
    exact lost_iff_undoes hinv (hplay before i after hsplit) hrow
  refine ⟨?_, hstep, ?_⟩
  · intro row hrow
    have hinv := inv_worldAfter hplay
    obtain ⟨hget, hkey⟩ := entry_eq_some_iff.1 hrow
    obtain ⟨hsame, hdid⟩ := hinv.sound did row hget
    exact ⟨hsame, hdid, hinv.stands did row hget hkey⟩
  · intro first middle later row hsplit hrow hlost
    have hstart : ¬ Lost did key row (worldAfter repr nacl database first).table :=
      not_lost_of_entry_eq hrow rfl
    rw [worldAfter, run_append] at hlost
    -- the first request after which the row is lost
    obtain ⟨before, i, after, hmiddle, hkept, hgone⟩ := run_first
      (P := fun w : World => Lost did key row w.table) hstart hlost
    have hbefore :
        run (World.step repr nacl database) (worldAfter repr nacl database first) before =
        worldAfter repr nacl database (first ++ before) := (run_append _ _ first before).symm
    rw [hbefore] at hkept hgone
    rw [← worldAfter_concat] at hgone
    obtain ⟨row', hrow', hlater⟩ : ∃ row',
        entry (worldAfter repr nacl database (first ++ before)).table
        did key = some row' ∧ ¬ row'.signedAt < row.signedAt := by
      by_contra hnone
      push Not at hnone
      exact hkept hnone
    refine ⟨before, i, after, hmiddle,
      (hstep (first ++ before) i (after ++ later) row' ?_ hrow').1 ?_⟩
    · rw [hsplit, hmiddle]
      simp
    · intro row'' hrow''
      have hearlier := hgone row'' hrow''
      omega

theorem plays_nil : Plays repr nacl database key [] := by
  intro before i after hsplit
  simp at hsplit

theorem plays_concat {history : List (Sender × Request)}
    (hplay : Plays repr nacl database key history)
    (hlast : Resubmits repr nacl key (worldAfter repr nacl database history) i) :
    Plays repr nacl database key (history ++ [i]) := by
  intro before j after hsplit
  rcases List.eq_nil_or_concat after with rfl | ⟨middle, last, rfl⟩
  · obtain ⟨rfl, hij⟩ := List.append_inj' hsplit rfl
    obtain rfl := List.singleton_inj.1 hij
    exact hlast
  · have hinit : history = before ++ j :: middle := by
      rw [List.concat_eq_append, ← List.cons_append, ← List.append_assoc] at hsplit
      exact (List.append_inj' hsplit rfl).1
    exact hplay before j middle hinit

theorem resubmits_owner {request : Request} : Resubmits repr nacl key w (.owner, request) :=
  nofun

theorem resubmits_get : Resubmits repr nacl key w (.other, .get did) :=
  fun _ _ hd => absurd hd List.not_mem_nil

/-! ## A replay -/

/-- The fields of a coordinator, signed on the first day of a month. -/
def sampleFields (month : Nat) (sig : List UInt8) : DescriptorFields where
  schemaVersion := "wcp/0.2"
  did := "did:wcp:example-coordinator"
  endpoint := "wss://wcp.example.com/wcp/ws"
  operator := "Example Operations, Ltd."
  operatorCountry := "DE"
  operatorLegalForm := some "GmbH"
  jurisdictionsServed := ["DE"]
  descriptorTypesAccepted := ["transport"]
  workerClassesAccepted := ["human"]
  conformanceLevel := 2
  conformanceAttestationUrl := none
  settlementCurrencies := ["EUR"]
  federationPeers := []
  publicKeyMultibase := "z4zvwRjXUKGfvwnParsHAS3HuSVzV5cA4McphgmoCtajS"
  signedAt := .utc (ymd2ord (2026, month, 1) * microsPerDay)
  signature := String.ofList (stripPadding (urlsafeB64encode sig))

theorem sampleFields_validated (month : Nat) (sig : List UInt8) :
    (sampleFields month sig).validated = true := by
  unfold DescriptorFields.validated
  dsimp only [sampleFields]
  decide +kernel

def januarySignature : List UInt8 := [
  0, 183, 80, 33, 190, 109, 21, 72, 170, 145, 38, 44, 71, 245, 171, 23, 185, 122, 92, 149, 65, 3,
  195, 113, 79, 138, 111, 215, 77, 156, 208, 99, 187, 166, 7, 113, 163, 48, 234, 13, 189, 204, 1,
  50, 44, 145, 231, 69, 254, 231, 109, 146, 85, 116, 105, 199, 58, 56, 89, 231, 34, 233, 231, 8]

def februarySignature : List UInt8 := [
  91, 130, 64, 208, 249, 55, 228, 178, 41, 216, 26, 150, 165, 156, 95, 130, 23, 131, 0, 96, 12,
  181, 108, 73, 141, 254, 220, 93, 55, 169, 200, 7, 232, 133, 120, 232, 71, 154, 57, 60, 189, 63,
  0, 99, 140, 139, 162, 225, 67, 74, 44, 53, 217, 206, 52, 38, 36, 59, 137, 250, 157, 2, 20, 7]

def sample (month : Nat) (sig : List UInt8) : CoordinatorDescriptor :=
  ⟨_, sampleFields_validated month sig⟩

def january : CoordinatorDescriptor := sample 1 januarySignature

def february : CoordinatorDescriptor := sample 2 februarySignature

/-- The library, as far as it is asked about the two signatures of the first key. -/
def sampleNacl : Nacl :=
  ⟨true, fun key sig message => decide (key = firstKey ∧
    (sig = januarySignature ∧ message = canonicaliseForSigning january.modelDump ∨
      sig = februarySignature ∧ message = canonicaliseForSigning february.modelDump))⟩

theorem firstKey_text :
    "z" ++ String.ofList (Sdk.Multibase.b58btcEncode firstKey) = january.publicKeyMultibase := by
  have hencode : Sdk.Multibase.b58btcEncode firstKey =
      "4zvwRjXUKGfvwnParsHAS3HuSVzV5cA4McphgmoCtajS".toList := by decide +kernel
  rw [hencode, String.ofList_toList]
  rfl

theorem lookup_key (d : CoordinatorDescriptor) :
    d.modelDump.lookup "public_key_multibase" = some (.str d.publicKeyMultibase) := by
  simp [CoordinatorDescriptor.modelDump, List.lookup_cons]

theorem lookup_signature (d : CoordinatorDescriptor) :
    d.modelDump.lookup "signature" = some (.str d.signature) := by
  simp [CoordinatorDescriptor.modelDump, List.lookup_cons]

theorem january_signature : january.signature =
    String.ofList (stripPadding (urlsafeB64encode januarySignature)) := by
  unfold january sample sampleFields
  rfl

theorem february_signature : february.signature =
    String.ofList (stripPadding (urlsafeB64encode februarySignature)) := by
  unfold february sample sampleFields
  rfl

theorem signedBy_january :
    SignedBy sampleNacl firstKey januarySignature january.modelDump where
  key := by rw [firstKey_text, lookup_key]
  text := by
    rw [lookup_signature, january_signature]
    exact .inl rfl
  length := by decide
  verifies := by
    unfold sampleNacl
    simp only [decide_eq_true_eq, true_and, true_or]

theorem signedBy_february :
    SignedBy sampleNacl firstKey februarySignature february.modelDump where
  key := by
    rw [firstKey_text, lookup_key]
    rfl
  text := by
    rw [lookup_signature, february_signature]
    exact .inl rfl
  length := by decide
  verifies := by
    unfold sampleNacl
    simp only [decide_eq_true_eq, true_and, or_true]

theorem firstKey_accepted {descriptor : List (String × Json)} {sig : List UInt8}
    (h : SignedBy sampleNacl firstKey sig descriptor) :
    verifyDescriptorSignature (fun _ => "") sampleNacl descriptor = .ok true := by
  have hlength : firstKey.length = 32 := by decide
  have hhead : firstKey.head? ≠ some 0 := by decide
  rw [verifyDescriptorSignature_signed rfl hlength h, decide_eq_true hhead]

/-- The columns hold texts up to their length and no NUL, and a time is read back between the
years 1 and 9999. -/
def samplePostgres : Database where
  binds did := !did.toList.contains '\x00'
  stores row :=
    [(row.did, 256), (row.endpoint, 2048), (row.operator, 512), (row.operatorCountry, 8),
      (row.publicKeyMultibase, 256)].all fun (text, size) =>
        decide (text.length ≤ size) && !text.toList.contains '\x00'
  reads row :=
    decide ((microsPerDay : Int) ≤ row.signedAt ∧ row.signedAt < 3652060 * (microsPerDay : Int))

theorem takes_sample :
    (samplePostgres.stores (newRow january) = true ∧ samplePostgres.reads (newRow january) = true) ∧
    (samplePostgres.stores (newRow february) = true ∧
      samplePostgres.reads (newRow february) = true) ∧
    samplePostgres.binds january.did = true ∧
    (newRow january).signedAt < (newRow february).signedAt := by
  decide +kernel

theorem binds_sample : samplePostgres.binds january.did = true := takes_sample.2.2.1

theorem earlier_january : (newRow january).signedAt < (newRow february).signedAt :=
  takes_sample.2.2.2

theorem stores_january :
    Stores (fun _ => "") sampleNacl samplePostgres Dict.empty january where
  verifies := firstKey_accepted signedBy_january
  binds := binds_sample
  reads := fun _ hget => absurd hget not_get_empty
  key := fun _ hget => absurd hget not_get_empty
  stores := takes_sample.1.1

/-- The table with the first registration. -/
def januaryTable : Table := Dict.empty.set january.did (newRow january)

/-- The table after the update. -/
def februaryTable : Table := januaryTable.set february.did (newRow february)

theorem januaryTable_get : januaryTable.get january.did = some (newRow january) := by
  rw [januaryTable, Dict.get_set_eq]
  exact if_pos rfl

theorem februaryTable_get : februaryTable.get january.did = some (newRow february) := by
  rw [februaryTable, Dict.get_set_eq]
  exact if_pos rfl

theorem stores_february :
    Stores (fun _ => "") sampleNacl samplePostgres januaryTable february where
  verifies := firstKey_accepted signedBy_february
  binds := binds_sample
  reads := by
    intro row hget
    obtain rfl := Option.some.inj (januaryTable_get.symm.trans hget)
    exact takes_sample.1.2
  key := by
    intro row hget
    obtain rfl := Option.some.inj (januaryTable_get.symm.trans hget)
    rfl
  stores := takes_sample.2.1.1

/-- The coordinator registers and updates its entry, and someone reads it in between. -/
def watched : List (Sender × Request) := [
  (.owner, .register january), (.other, .get january.did), (.owner, .register february),
  (.other, .get january.did)]

theorem worldAfter_watched :
    worldAfter (fun _ => "") sampleNacl samplePostgres watched =
      ⟨februaryTable, [january, january, february, february], [january, february]⟩ := by
  have hempty : Table.Sound Dict.empty := fun _ _ hget => absurd hget not_get_empty
  have hjanuary : Table.Sound januaryTable := by
    intro did row hrow
    rcases Dict.get_set hrow with ⟨rfl, rfl⟩ | ⟨-, hrow⟩
    · exact ⟨rfl, rfl⟩
    · exact absurd hrow not_get_empty
  have hfirst : World.start.step (fun _ => "") sampleNacl samplePostgres
      (.owner, .register january) =
      ⟨januaryTable, [january], [january]⟩ :=
    step_eq .owner (serve_register hempty stores_january)
  have hsecond : World.step (fun _ => "") sampleNacl samplePostgres
      ⟨januaryTable, [january], [january]⟩
      (.other, .get january.did) = ⟨januaryTable, [january, january], [january]⟩ := by
    rw [step_eq .other (serve_get binds_sample januaryTable_get takes_sample.1.2)]
    rfl
  have hthird : World.step (fun _ => "") sampleNacl samplePostgres
      ⟨januaryTable, [january, january], [january]⟩
      (.owner, .register february) =
      ⟨februaryTable, [january, january, february], [january, february]⟩ :=
    step_eq .owner (serve_register hjanuary stores_february)
  have hfourth : World.step (fun _ => "") sampleNacl samplePostgres
      ⟨februaryTable, [january, january, february], [january, february]⟩
      (.other, .get january.did) =
      ⟨februaryTable, [january, january, february, february], [january, february]⟩ := by
    rw [step_eq .other (serve_get binds_sample februaryTable_get takes_sample.2.1.2)]
    rfl
  rw [worldAfter, watched, run_cons, hfirst, run_cons, hsecond, run_cons, hthird, run_cons,
    hfourth, run_nil]

theorem plays_watched :
    Plays (fun _ => "") sampleNacl samplePostgres january.publicKeyMultibase watched :=
  plays_concat (plays_concat (plays_concat (plays_concat plays_nil resubmits_owner) resubmits_get)
    resubmits_owner) resubmits_get

theorem entry_watched :
    entry (worldAfter (fun _ => "") sampleNacl samplePostgres watched).table january.did
      january.publicKeyMultibase = some (newRow february) := by
  rw [worldAfter_watched, entry_eq_some_iff]
  exact ⟨februaryTable_get, rfl⟩

theorem stores_replay :
    Stores (fun _ => "") sampleNacl samplePostgres februaryTable january where
  verifies := firstKey_accepted signedBy_january
  binds := binds_sample
  reads := by
    intro row hget
    obtain rfl := Option.some.inj (februaryTable_get.symm.trans hget)
    exact takes_sample.2.1.2
  key := by
    intro row hget
    obtain rfl := Option.some.inj (februaryTable_get.symm.trans hget)
    rfl
  stores := stores_january.stores

theorem deletes_replay :
    Deletes (fun _ => "") sampleNacl samplePostgres februaryTable february where
  verifies := firstKey_accepted signedBy_february
  binds := binds_sample
  key := ⟨newRow february, februaryTable_get, takes_sample.2.1.2, rfl⟩

/-- The descriptors of the run have been shown, so that anyone can send them again. -/
theorem plays_replay {request : Request} (h : ∀ d ∈ request.carried, d = january ∨ d = february) :
    Plays (fun _ => "") sampleNacl samplePostgres january.publicKeyMultibase
      (watched ++ [(.other, request)]) := by
  refine plays_concat plays_watched fun _ d hd _ _ => ?_
  rw [worldAfter_watched]
  rcases h d hd with rfl | rfl
  · exact List.mem_cons_self
  · exact List.mem_cons_of_mem _ (List.mem_cons_of_mem _ List.mem_cons_self)

theorem sound_februaryTable : februaryTable.Sound := by
  have hinv := (inv_worldAfter plays_watched).sound
  rwa [worldAfter_watched] at hinv

theorem entry_replay :
    entry (worldAfter (fun _ => "") sampleNacl samplePostgres
      (watched ++ [(.other, .register january)])).table january.did january.publicKeyMultibase =
      some (newRow january) := by
  rw [worldAfter_concat, worldAfter_watched,
    (step_of_serve .other (serve_register sound_februaryTable stores_replay)).1]
  exact entry_set_self rfl rfl

/-- Sent again by another, the first descriptor takes the entry back, and it is the owner's. -/
theorem replay_confined_watched :
    (newRow january).descriptorJson ∈ (worldAfter (fun _ => "") sampleNacl samplePostgres
      (watched ++ [(.other, .register january)])).sent ∧
    Undoes (fun _ => "") sampleNacl samplePostgres january.did january.publicKeyMultibase
      (worldAfter (fun _ => "") sampleNacl samplePostgres watched)
      (.other, .register january) := by
  have hconfined := replay_confined (fun _ => "") sampleNacl samplePostgres january.did
    january.publicKeyMultibase (watched ++ [(.other, .register january)])
    (@plays_replay (.register january) fun d hd => .inl (List.mem_singleton.1 hd))
  refine ⟨(hconfined.1 _ entry_replay).2.2,
    (hconfined.2.1 watched _ [] (newRow february) rfl entry_watched).1 ?_⟩
  intro row' hrow'
  rw [entry_replay] at hrow'
  obtain rfl := Option.some.inj hrow'
  exact earlier_january

/-- Someone who has seen the two descriptors takes the entry back with the first and deletes it
with the second. -/
theorem replay_succeeds :
    Plays (fun _ => "") sampleNacl samplePostgres january.publicKeyMultibase
      (watched ++ [(.other, .register january)]) ∧
    Plays (fun _ => "") sampleNacl samplePostgres january.publicKeyMultibase
      (watched ++ [(.other, .delete february.did february)]) ∧
    entry (worldAfter (fun _ => "") sampleNacl samplePostgres watched).table january.did
      january.publicKeyMultibase = some (newRow february) ∧
    entry (worldAfter (fun _ => "") sampleNacl samplePostgres
      (watched ++ [(.other, .register january)])).table january.did january.publicKeyMultibase =
      some (newRow january) ∧
    (newRow january).signedAt < (newRow february).signedAt ∧
    entry (worldAfter (fun _ => "") sampleNacl samplePostgres
      (watched ++ [(.other, .delete february.did february)])).table
      january.did january.publicKeyMultibase = none := by
  refine ⟨@plays_replay (.register january) fun d hd => .inl (List.mem_singleton.1 hd),
    @plays_replay (.delete february.did february) fun d hd => .inr (List.mem_singleton.1 hd),
    entry_watched, entry_replay, earlier_january, ?_⟩
  have hdelete : (World.step (fun _ => "") sampleNacl samplePostgres
      ⟨februaryTable, [january, january, february, february], [january, february]⟩
      (.other, .delete february.did february)).table = februaryTable.pop february.did :=
    (step_of_serve .other (serve_delete deletes_replay)).1
  rw [worldAfter_concat, worldAfter_watched, hdelete]
  exact entry_pop_self

end Wcp.Registry
