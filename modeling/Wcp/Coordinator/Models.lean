import Wcp.Base.DateTime
/-!
# The coordinator's tables

Rows of `models.py` as the services read and write them, and the database as the
list of rows of each table in insertion order.  Text columns hold text; JSON
columns hold the value.  Columns that no service method reads
(`created_at`, `closed_at`, `events_count`, ...) are left out.
-/

namespace Wcp.Coordinator

open Wcp.Base

inductive WorkerClass where
  | human
  | autonomousRobot
  | teleoperatedRobot
  | semiAutonomous
  | hybrid
deriving DecidableEq

namespace WorkerClass

def value : WorkerClass → String
  | human => "human"
  | autonomousRobot => "autonomous_robot"
  | teleoperatedRobot => "teleoperated_robot"
  | semiAutonomous => "semi_autonomous"
  | hybrid => "hybrid"

/-- The label under which the column type stores a member. -/
def name : WorkerClass → String
  | human => "HUMAN"
  | autonomousRobot => "AUTONOMOUS_ROBOT"
  | teleoperatedRobot => "TELEOPERATED_ROBOT"
  | semiAutonomous => "SEMI_AUTONOMOUS"
  | hybrid => "HYBRID"

def all : List WorkerClass :=
  [human, autonomousRobot, teleoperatedRobot, semiAutonomous, hybrid]

/-- `WorkerClass(v)`. -/
def ofValue (v : Json) : Option WorkerClass := all.find? fun c => v = .str c.value

end WorkerClass

inductive TaskState where
  | posted
  | claimed
  | executing
  | supervising
  | attesting
  | rechecking
  | completed
  | voided
  | aborted
deriving DecidableEq

def TaskState.value : TaskState → String
  | posted => "posted"
  | claimed => "claimed"
  | executing => "executing"
  | supervising => "supervising"
  | attesting => "attesting"
  | rechecking => "rechecking"
  | completed => "completed"
  | voided => "voided"
  | aborted => "aborted"

inductive AttestationMode where
  | sensorWitness
  | thirdPartyWitness
  | cryptographicPresence
  | ownerSignOff
deriving DecidableEq

namespace AttestationMode

def value : AttestationMode → String
  | sensorWitness => "sensor-witness"
  | thirdPartyWitness => "third-party-witness"
  | cryptographicPresence => "cryptographic-presence"
  | ownerSignOff => "owner-sign-off"

def all : List AttestationMode :=
  [sensorWitness, thirdPartyWitness, cryptographicPresence, ownerSignOff]

/-- `AttestationMode(v)`. -/
def ofValue (v : Json) : Option AttestationMode := all.find? fun m => v = .str m.value

end AttestationMode

/-- The outcome of verifying evidence. -/
inductive VerifierDecision where
  | pass
  | fail
  | review
deriving DecidableEq

def VerifierDecision.value : VerifierDecision → String
  | pass => "pass"
  | fail => "fail"
  | review => "review"

structure WcpWorker where
  workerId : String
  principalId : String
  workerClass : WorkerClass
  capabilitiesJson : Json
  revision : Nat
  ttlSeconds : Json
  asOf : DateTime
deriving DecidableEq

structure WcpTask where
  taskId : String
  postedBy : String
  descriptorType : String
  taskJson : Json
  expiry : DateTime
  state : TaskState
  attestationAttemptsUsed : Nat
  postedAt : DateTime
deriving DecidableEq

structure WcpClaim where
  claimId : String
  taskId : String
  workerId : String
  bidAmount : Option String
  eta : DateTime
  acceptanceAttestationJson : Json
  accepted : Bool
  lastHeartbeatAt : Option DateTime
deriving DecidableEq

structure WcpSession where
  sessionId : String
  claimId : String
deriving DecidableEq

structure WcpAttestation where
  attestationId : String
  claimId : String
  mode : AttestationMode
  kind : String
  payloadHash : String
  sig : String
  workerId : String
  collectedAt : DateTime
  payloadJson : Json
  verifierDecision : VerifierDecision
  verifierReasons : List String
deriving DecidableEq

/-- An entry of the audit chain; `timestamp` is the naive UTC reading in microseconds. -/
structure WcpAudit where
  entryId : String
  claimId : Option String
  taskId : Option String
  eventType : String
  timestamp : Nat
  actorDid : String
  payloadJson : Json
  payloadHash : String
  prevHash : Option String
  thisHash : String
  sig : String
deriving DecidableEq

structure WcpSubscription where
  subscriptionId : String
  agentDid : String
  filterJson : Json
  sinceRevision : Json
  streamEndpoint : String
  ttlSeconds : Nat
deriving DecidableEq

/-- The database: the rows of every table, in insertion order. -/
structure Db where
  workers : List WcpWorker
  tasks : List WcpTask
  claims : List WcpClaim
  sessions : List WcpSession
  attestations : List WcpAttestation
  audit : List WcpAudit
  subscriptions : List WcpSubscription
deriving DecidableEq

namespace Db

def empty : Db := ⟨[], [], [], [], [], [], []⟩

def findWorker (db : Db) (id : String) : Option WcpWorker :=
  db.workers.find? fun w => w.workerId = id

def findTask (db : Db) (id : String) : Option WcpTask :=
  db.tasks.find? fun t => t.taskId = id

def findClaim (db : Db) (id : String) : Option WcpClaim :=
  db.claims.find? fun c => c.claimId = id

/-- Change the row of a task. -/
def updateTask (db : Db) (id : String) (f : WcpTask → WcpTask) : Db :=
  { db with tasks := db.tasks.map fun t => if t.taskId = id then f t else t }

/-- Change the row of a claim. -/
def updateClaim (db : Db) (id : String) (f : WcpClaim → WcpClaim) : Db :=
  { db with claims := db.claims.map fun c => if c.claimId = id then f c else c }

/-- Change the row of a worker. -/
def updateWorker (db : Db) (id : String) (f : WcpWorker → WcpWorker) : Db :=
  { db with workers := db.workers.map fun w => if w.workerId = id then f w else w }

end Db

end Wcp.Coordinator
