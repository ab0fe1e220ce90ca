import Wcp.Base.Exec
import Wcp.Base.JsonText
import Wcp.Coordinator.Models
/-!
# What the coordinator runs on

The services call a hash, a signature scheme, the interpreter's date parser, a
clock, an id generator and a database driver.  They are the fields of `Env`; the
laws beside them are the documented behaviour the code relies on.  A result
about the model holds for every `Env`.

A transaction is an `Exec` over a `World`: the session's view of the database, the
number of clock and id readings taken, and whether a write is pending that the
driver will refuse at the next flush.
-/

namespace Wcp.Coordinator

open Wcp.Base
open Wcp.Base.Exec (ensure)

/-- Hash and signatures. -/
structure Crypto where
  /-- SHA-256 of a text's bytes, in hexadecimal. -/
  sha256Hex : String → String
  /-- `Ed25519PublicKey.verify`: public key, signature, message. -/
  ed25519Verify : List UInt8 → List UInt8 → String → Bool
  /-- The coordinator's audit key. -/
  auditPublicKey : List UInt8
  auditSign : String → List UInt8
  auditSign_verifies : ∀ m, ed25519Verify auditPublicKey (auditSign m) m = true

/-- What the interpreter's library computes on text. -/
structure Interpreter where
  unicode : UnicodeTables
  /-- `repr(v)`. -/
  repr : Json → String
  /-- `datetime.fromisoformat`, with the text of its `ValueError`. -/
  fromisoformat : String → Except String DateTime

structure Driver where
  /-- The text stored for a value bound to a text column, if the driver accepts it. -/
  bindText : Json → Option String
  /-- A string is stored as it is; the text of a number or a boolean has no underscore. -/
  bindText_spec : ∀ v t, bindText v = some t →
    v = .str t ∨ ((∀ s, v ≠ .str s) ∧ '_' ∉ t.toList)
  /-- A list or an object has no text. -/
  bindText_hashable : ∀ v t, bindText v = some t → v.hashable = true
  /-- Whether a statement with a list or an object for a text is refused before it is sent, so
  that the transaction goes on. -/
  refusesUnsent : Json → Bool
  /-- Whether the driver accepts a value for an integer column. -/
  bindsInt : Json → Bool
  /-- What reading back a stored date-time gives. -/
  storeTime : DateTime → DateTime
  /-- Whether an enumeration column may be compared with an unknown label. -/
  acceptsLabel : String → Bool
  /-- `ORDER BY timestamp ASC`: rows of equal timestamp come in any order, which may
  differ from query to query. -/
  ascending : Nat → List WcpAudit → List WcpAudit
  ascending_perm : ∀ n rows, (ascending n rows).Perm rows
  ascending_sorted : ∀ n rows, (ascending n rows).Pairwise fun a b => a.timestamp ≤ b.timestamp
  /-- `ORDER BY timestamp DESC`. -/
  descending : Nat → List WcpAudit → List WcpAudit
  descending_perm : ∀ n rows, (descending n rows).Perm rows
  descending_sorted : ∀ n rows, (descending n rows).Pairwise fun a b => b.timestamp ≤ a.timestamp

/-- The schema registry: the evidence kinds registered for each mode. -/
abbrev Registry := List (String × List String)

/-- Everything outside the coordinator's own code. -/
structure Env extends Crypto, Interpreter, Driver where
  /-- The coordinator's clock: the microsecond reading of each call in turn. -/
  clock : Nat → Nat
  clock_lt : ∀ n, clock n < maxMicros
  /-- The ids that `uuid4` returns in turn. -/
  uuid : Nat → String
  uuid_ne_empty : ∀ n, uuid n ≠ ""
  registry : Registry

/-- `str(v)`. -/
def Interpreter.str (p : Interpreter) : Json → String
  | .str s => s
  | v => p.repr v

/-- The exceptions the services define, and those of the database layer. -/
inductive WcpErr where
  | taskNotFound (message : String)
  | taskStateInvalid (message : String)
  | taskPreempted (message : String)
  | didResolution (message : String)
  | signatureVerification (message : String)
  /-- The error that the dispatcher reports to the client. -/
  | jsonRpc (code : Int) (message : String)
  /-- A statement the database layer refuses to build: nothing is sent. -/
  | statement
  /-- A statement the database refuses: the transaction is rolled back. -/
  | database
deriving DecidableEq

abbrev Err := PyErr WcpErr

/-- A running transaction. -/
structure World where
  db : Db
  /-- How many clock readings and ids have been drawn. -/
  tick : Nat
  /-- A pending write that the next flush will refuse. -/
  doomed : Bool
deriving DecidableEq

abbrev Action := Exec Err World

namespace World

def start (db : Db) (tick : Nat) : World := ⟨db, tick, false⟩

end World

section Actions

variable (env : Env)

/-- `datetime.now(timezone.utc)`. -/
def utcnow : Action DateTime := fun w =>
  (.ok (.utc (env.clock w.tick)), { w with tick := w.tick + 1 })

def uuid4 : Action String := fun w => (.ok (env.uuid w.tick), { w with tick := w.tick + 1 })

/-- Read the database, possibly raising. -/
def readDb {α : Type} (f : Db → Except Err α) : Action α := Exec.reads fun w => f w.db

def writeDb (f : Db → Db) : Action Unit := Exec.write fun w => { w with db := f w.db }

/-- Send pending writes. -/
def flush : Action Unit := fun w =>
  if w.doomed then (.error (.raised .database), w) else (.ok (), w)

/-- Add a row that the driver will refuse. -/
def doom : Action Unit := Exec.write fun w => { w with doomed := true }

/-- The text stored for a value in a column that admits no NULL. -/
def Driver.bindColumn (d : Driver) (v : Json) : Option String :=
  if v = .null then none else d.bindText v

/-- The text stored for a value in a column that admits NULL. -/
def Driver.bindNullable (d : Driver) (v : Json) : Option (Option String) :=
  if v = .null then some none else (d.bindText v).map some

/-- The text that a statement compares a text column with; NULL equals nothing. -/
def Driver.comparedText (d : Driver) (v : Json) : Except Err (Option String) :=
  if v = .null then .ok none
  else
    match d.bindText v with
    | some s => .ok (some s)
    | none => .error (.raised (if !v.hashable && d.refusesUnsent v then .statement else .database))

/-- The primary key that `Session.get` reads from its argument: an object names the key
attribute as its one member, and a list has one element. -/
def primaryKey (attr : String) : Json → Except Err Json
  | .obj [(name, v)] => if name = attr then .ok v else .error (.raised .statement)
  | .obj _ => .error (.raised .statement)
  | .arr [v] => .ok v
  | .arr _ => .error (.raised .statement)
  | v => .ok v

/-- The text under which `Session.get` looks a row up; the session hashes the key first. -/
def Driver.lookupKey (d : Driver) (attr : String) (v : Json) :
    Except Err (Option String) := do
  let key ← primaryKey attr v
  ensure (key.hashable = true) .typeError
  d.comparedText key

/-- `Session.get(WcpTask, v)`. -/
def Db.getTask (db : Db) (v : Json) : Except Err (Option WcpTask) := do
  let key ← env.lookupKey "task_id" v
  return key.bind db.findTask

/-- `Session.get(WcpClaim, v)`. -/
def Db.getClaim (db : Db) (v : Json) : Except Err (Option WcpClaim) := do
  let key ← env.lookupKey "claim_id" v
  return key.bind db.findClaim

/-- `Session.get(WcpWorker, v)`. -/
def Db.getWorker (db : Db) (v : Json) : Except Err (Option WcpWorker) := do
  let key ← env.lookupKey "worker_id" v
  return key.bind db.findWorker

/-- `datetime.fromisoformat(v.replace("Z", "+00:00"))`. -/
def parseIso (v : Json) : Except Err DateTime := do
  let s ← v.asStr
  let text := String.ofList (s.toList.flatMap fun c => if c = 'Z' then "+00:00".toList else [c])
  match env.fromisoformat text with
  | .ok d => return d
  | .error message => throw (.valueError message)

end Actions

/-- A call in a transaction of its own, committed whether it returned or raised: what
it wrote stays, unless the database refused a write. -/
def World.settle (w : World) {α : Type} (outcome : Except Err α × World) : World :=
  match outcome with
  | (.error (.raised .database), w') => { w with tick := w'.tick, doomed := false }
  | (_, w') =>
      if w'.doomed then { w with tick := w'.tick, doomed := false }
      else { w' with doomed := false }

end Wcp.Coordinator
