import Wcp.Base.DateTime
import Wcp.Base.Dict
import Wcp.Base.Exec
import Wcp.Registry.Verify
/-!
# The public registry

A registry stores one descriptor for each coordinator.  The same signed object registers,
updates and deletes, and nothing in it says for what or when it was sent.
-/

namespace Wcp.Registry

open Wcp.Base

/-! ## Descriptors -/

/-- The text before a final line break, where `$` also matches. -/
def beforeDollar (cs : List Char) : List Char :=
  if cs.getLast? = some '\n' then cs.dropLast else cs

def isUpper (c : Char) : Bool := 'A' ≤ c && c ≤ 'Z'

def isAlphanumeric (c : Char) : Bool :=
  isUpper c || ('a' ≤ c && c ≤ 'z') || ('0' ≤ c && c ≤ '9')

/-- `_DID_RE`. -/
def matchesDid (s : String) : Bool :=
  let cs := beforeDollar s.toList
  "did:wcp:".toList.isPrefixOf cs && !(cs.drop 8).isEmpty &&
    (cs.drop 8).all fun c => isAlphanumeric c || c == '.' || c == '_' || c == '-'

/-- `_COUNTRY_RE`. -/
def matchesCountry (s : String) : Bool :=
  let cs := beforeDollar s.toList
  cs.length == 2 && cs.all isUpper

/-- `_JURISDICTION_RE`. -/
def matchesJurisdiction (s : String) : Bool :=
  let cs := beforeDollar s.toList
  let subdivision := cs.drop 3
  (cs.take 2).length == 2 && (cs.take 2).all isUpper &&
    (cs.length == 2 || (cs.getD 2 ' ' == '-' && 1 ≤ subdivision.length && subdivision.length ≤ 3 &&
      subdivision.all fun c => isUpper c || ('0' ≤ c && c ≤ '9')))

/-- `_CURRENCY_RE`. -/
def matchesCurrency (s : String) : Bool :=
  let cs := beforeDollar s.toList
  cs.length == 3 && cs.all isUpper

/-- `_WS_RE`. -/
def matchesWs (s : String) : Bool :=
  "ws://".toList.isPrefixOf s.toList || "wss://".toList.isPrefixOf s.toList

def allowedWorkerClasses : List String :=
  ["human", "autonomous_robot", "teleoperated_system", "hybrid_human_robot"]

structure DescriptorFields where
  schemaVersion : String
  did : String
  endpoint : String
  operator : String
  operatorCountry : String
  operatorLegalForm : Option String
  jurisdictionsServed : List String
  descriptorTypesAccepted : List String
  workerClassesAccepted : List String
  conformanceLevel : Int
  conformanceAttestationUrl : Option String
  settlementCurrencies : List String
  federationPeers : List String
  publicKeyMultibase : String
  signedAt : DateTime
  signature : String
deriving DecidableEq

def DescriptorFields.validated (d : DescriptorFields) : Bool :=
  matchesDid d.did && matchesWs d.endpoint && matchesCountry d.operatorCountry &&
    (!d.jurisdictionsServed.isEmpty && d.jurisdictionsServed.all matchesJurisdiction) &&
    ([1, 2, 3] : List Int).contains d.conformanceLevel &&
    d.settlementCurrencies.all matchesCurrency && d.federationPeers.all matchesDid &&
    d.workerClassesAccepted.all allowedWorkerClasses.contains

/-- `CoordinatorDescriptor`: no value exists that a validator rejects. -/
structure CoordinatorDescriptor extends DescriptorFields where
  validated : toDescriptorFields.validated = true
deriving DecidableEq

def dateTimeJson (d : DateTime) : String :=
  match d.offset with
  | none => isoformatNaive d.wall
  | some o =>
      isoformatNaive d.wall ++ if o = 0 then "Z" else String.ofList (offsetText o)

def stringsJson (xs : List String) : Json := .arr (xs.map .str)

def optionJson (s : Option String) : Json := (s.map Json.str).getD .null

/-- `descriptor.model_dump(mode="json")`. -/
def CoordinatorDescriptor.modelDump (d : CoordinatorDescriptor) : List (String × Json) := [
  ("schema_version", .str d.schemaVersion),
  ("did", .str d.did),
  ("endpoint", .str d.endpoint),
  ("operator", .str d.operator),
  ("operator_country", .str d.operatorCountry),
  ("operator_legal_form", optionJson d.operatorLegalForm),
  ("jurisdictions_served", stringsJson d.jurisdictionsServed),
  ("descriptor_types_accepted", stringsJson d.descriptorTypesAccepted),
  ("worker_classes_accepted", stringsJson d.workerClassesAccepted),
  ("conformance_level", .int d.conformanceLevel),
  ("conformance_attestation_url", optionJson d.conformanceAttestationUrl),
  ("settlement_currencies", stringsJson d.settlementCurrencies),
  ("federation_peers", stringsJson d.federationPeers),
  ("public_key_multibase", .str d.publicKeyMultibase),
  ("signed_at", .str (dateTimeJson d.signedAt)),
  ("signature", .str d.signature)]

/-! ## The table -/

/-- A row of `coordinators`.  The JSON column is held as the descriptor whose dump it is, and
`signedAt` as an instant: the column has a time zone, and the server's is UTC. -/
structure Coordinator where
  did : String
  endpoint : String
  operator : String
  operatorCountry : String
  conformanceLevel : Int
  descriptorJson : CoordinatorDescriptor
  publicKeyMultibase : String
  signedAt : Int
deriving DecidableEq

/-- What the driver and the database behind it do: which DIDs can be looked up, which rows are
taken, and which of these are read back. -/
structure Database where
  binds : String → Bool
  stores : Coordinator → Bool
  reads : Coordinator → Bool

abbrev Table := Dict String Coordinator

def newRow (d : CoordinatorDescriptor) : Coordinator where
  did := d.did
  endpoint := d.endpoint
  operator := d.operator
  operatorCountry := d.operatorCountry
  conformanceLevel := d.conformanceLevel
  descriptorJson := d
  publicKeyMultibase := d.publicKeyMultibase
  signedAt := d.signedAt.instant

def updatedRow (existing : Coordinator) (d : CoordinatorDescriptor) : Coordinator :=
  { existing with
    endpoint := d.endpoint
    operator := d.operator
    operatorCountry := d.operatorCountry
    conformanceLevel := d.conformanceLevel
    descriptorJson := d
    signedAt := d.signedAt.instant }

section Rows

variable (database : Database)

/-- `db.get(Coordinator, did)`. -/
def getRow (table : Table) (did : String) : Except RErr (Option Coordinator) := do
  Exec.ensure (database.binds did = true) (.raised .dataError)
  match table.get did with
  | none => return none
  | some row =>
      Exec.ensure (database.reads row = true) (.raised .dataError)
      return some row

/-- `db.scalars(select(Coordinator)).all()`. -/
def allRows (table : Table) : Except RErr (List Coordinator) := do
  Exec.ensure (table.values.all database.reads = true) (.raised .dataError)
  return table.values

/-- `db.commit()` with a row to write. -/
def commitRow (table : Table) (row : Coordinator) : Except RErr Table := do
  Exec.ensure (database.stores row = true) (.raised .dataError)
  return table.set row.did row

end Rows

def httpError (statusCode : Nat) (detail : String) : RErr :=
  .raised (.httpException statusCode detail)

/-! ## The routes -/

variable (repr : Json → String) (nacl : Nacl) (database : Database)

/-- What both writing routes check first. -/
def requireSignature (d : CoordinatorDescriptor) : Except RErr Unit := do
  let verified ← verifyDescriptorSignature repr nacl d.modelDump
  Exec.ensure (verified = true) (httpError 400 "signature verification failed")

def registerCoordinator (table : Table) (d : CoordinatorDescriptor) :
    Except RErr (Table × CoordinatorDescriptor) := do
  requireSignature repr nacl d
  match ← getRow database table d.did with
  | none =>
      let table ← commitRow database table (newRow d)
      return (table, d)
  | some existing =>
      Exec.ensure (existing.publicKeyMultibase = d.publicKeyMultibase)
        (httpError 400 ("public_key_multibase change on update is forbidden; " ++
          "delete the entry and re-register"))
      let table ← commitRow database table (updatedRow existing d)
      return (table, d)

def deleteCoordinator (table : Table) (did : String) (d : CoordinatorDescriptor) :
    Except RErr Table := do
  Exec.ensure (d.did = did) (httpError 400 "path DID does not match descriptor DID")
  requireSignature repr nacl d
  match ← getRow database table did with
  | none => .error (httpError 404 "coordinator not found")
  | some row =>
      Exec.ensure (row.publicKeyMultibase = d.publicKeyMultibase)
        (httpError 400 "public_key_multibase mismatch with stored descriptor")
      return table.pop did

def getCoordinator (table : Table) (did : String) : Except RErr CoordinatorDescriptor := do
  match ← getRow database table did with
  | none => .error (httpError 404 "coordinator not found")
  | some row => return row.descriptorJson

/-- The query of `list_coordinators`, within the bounds that the framework enforces. -/
structure ListQuery where
  country : Option String
  descriptorType : Option String
  workerClass : Option String
  minConformance : Int
  countryShape : ∀ c ∈ country, matchesCountry c = true
  conformanceBounds : 1 ≤ minConformance ∧ minConformance ≤ 3

/-- The filters of `list_coordinators`. -/
def ListQuery.admits (query : ListQuery) (row : Coordinator) : Bool :=
  !(row.conformanceLevel < query.minConformance) &&
    query.country.all (· = row.operatorCountry) &&
    query.descriptorType.all row.descriptorJson.descriptorTypesAccepted.contains &&
    query.workerClass.all row.descriptorJson.workerClassesAccepted.contains

/-- `list_coordinators`; the total is the length. -/
def listCoordinators (table : Table) (query : ListQuery) :
    Except RErr (List CoordinatorDescriptor) := do
  let rows ← allRows database table
  return (rows.filter query.admits).map (·.descriptorJson)

/-! ## Requests -/

inductive Request where
  | register (d : CoordinatorDescriptor)
  | get (did : String)
  | list (query : ListQuery)
  | delete (did : String) (d : CoordinatorDescriptor)

inductive Response where
  | descriptor (d : CoordinatorDescriptor)
  | coordinators (ds : List CoordinatorDescriptor)
  | noContent

/-- The table after a request and what was answered; a request that fails leaves the table as
it was. -/
def serve (table : Table) : Request → Table × Except RErr Response
  | .register d =>
      match registerCoordinator repr nacl database table d with
      | .ok (table', d) => (table', .ok (.descriptor d))
      | .error e => (table, .error e)
  | .get did => (table, (getCoordinator database table did).map .descriptor)
  | .list query => (table, (listCoordinators database table query).map .coordinators)
  | .delete did d =>
      match deleteCoordinator repr nacl database table did d with
      | .ok table' => (table', .ok .noContent)
      | .error e => (table, .error e)

end Wcp.Registry
