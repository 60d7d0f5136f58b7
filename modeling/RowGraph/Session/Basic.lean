import RowGraph.Config.Basic
import RowGraph.Find.Plan
import RowGraph.Record.Fold
import RowGraph.Session.Count
import RowGraph.Session.Engine
import RowGraph.Write

/-!
# Session — calls on a schema

A session binds a registry and a configuration to an engine.  A call that compiles becomes a
`Request`: one statement, and how to read the answer to it.  `Session.perform` hands that
statement to the engine once; a call that does not compile leaves the engine alone.
-/

namespace RowGraph

/-- The kinds of statements. -/
inductive StatementKind where
  | select
  | count
  | insert
  | update
  | delete
  deriving DecidableEq, Repr

def StatementKind.name : StatementKind → String
  | .select => "select"
  | .count => "count"
  | .insert => "insert"
  | .update => "update"
  | .delete => "delete"

/-- What can be asked of a session. -/
inductive Call where
  | findAll (entity : String) (o : FindOptions)
  | findOne (entity : String) (o : FindOptions)
  | findByKey (entity : String) (key : Value) (o : FindOptions)
  | count (entity : String) (o : FindOptions)
  | create (entity : String) (values : Row)
  | bulkCreate (entity : String) (rows : List Row)
  | update (entity : String) (values : Row) (filter : Option Filter)
  | destroy (entity : String) (filter : Option Filter)

/-- What a call comes back with. -/
inductive Reply where
  | records (rs : List Record)
  | record (r : Option Record)
  | count (n : Nat)
  | done
  deriving Repr

/-- Why a call fails. -/
inductive CallError where
  /-- It does not compile. -/
  | request (e : Error)
  /-- The engine failed. -/
  | engine (f : EngineFailure)
  /-- The answer holds no count. -/
  | count (f : CountFault)
  deriving Repr

namespace CallError

def message : CallError → String
  | .request e => e.message
  | .engine f => f.advice
  | .count f => "Mapping error: " ++ f.message

/-- May the same call succeed later? -/
def isRetryable : CallError → Bool
  | .engine f => f.isStreaming
  | _ => false

end CallError

/-- A compiled call: its statement, and the reply that an answer's rows make. -/
structure Request where
  kind : StatementKind
  statement : Sql.Statement
  reply : List Row → Except CallError Reply

/-- What happens on the way, for whoever watches. -/
inductive Event where
  | compiled (kind : StatementKind) (s : Sql.Statement)
  | executed (kind : StatementKind) (rows : Nat)
  | failed (kind : StatementKind) (f : EngineFailure)
  deriving Repr

/-- How a call went, and what could be seen of it. -/
structure Outcome where
  result : Except CallError Reply
  events : List Event

/-- What comes of a request once the engine has answered its statement. -/
def Request.outcome (q : Request) : Answer → Outcome
  | .ok rows => ⟨q.reply rows, [.compiled q.kind q.statement, .executed q.kind rows.length]⟩
  | .error f => ⟨.error (.engine f), [.compiled q.kind q.statement, .failed q.kind f]⟩

/-- A schema and settings. -/
structure Session where
  registry : Registry
  config : Config

namespace Session

/-! ### Compiling calls -/

/-- The options of an unpaged find of everything.  With includes a limit would cut rows and not
records, so there the configured limit stays out. -/
def findAllOptions (s : Session) (o : FindOptions) : FindOptions :=
  if o.limit.isNone && o.includes.isEmpty then { o with limit := s.config.defaultLimit } else o

/-- The options of a find of one record: one row will do, unless includes spread it over more. -/
def findOneOptions (o : FindOptions) : FindOptions :=
  if o.includes.isEmpty then { o with limit := some 1 } else o

/-- The filter for a key, and for the caller's filter if that asks for something. -/
def keyFilter (primaryKey : String) (key : Value) : Option Filter → Filter
  | none | some [] => Filter.eq [] primaryKey key
  | some f => Filter.and [] [Filter.eq [] primaryKey key, f]

def selectRequest (s : Session) (entity : String) (o : FindOptions)
    (reply : List Record → Reply) : Except Error Request := do
  let plan ← s.registry.select entity o
  return ⟨.select, plan.statement, fun rows => .ok (reply (plan.shape.records rows))⟩

/-- The reply to a count. -/
def countReply (rows : List Row) : Except CallError Reply :=
  match Count.ofRows rows with
  | .ok n => .ok (.count n)
  | .error f => .error (.count f)

def writeRequest (kind : StatementKind) (statement : Sql.Statement) : Request :=
  ⟨kind, statement, fun _ => .ok .done⟩

/-- The request of a call. -/
def request (s : Session) : Call → Except Error Request
  | .findAll entity o => s.selectRequest entity (s.findAllOptions o) .records
  | .findOne entity o => s.selectRequest entity (findOneOptions o) fun rs => .record rs.head?
  | .findByKey entity key o => do
      let e ← s.registry.entity entity
      let o := { o with filter := some (keyFilter e.primaryKey key o.filter) }
      s.selectRequest entity (findOneOptions o) fun rs => .record rs.head?
  | .count entity o => do
      let plan ← s.registry.count entity o
      return ⟨.count, plan.statement, countReply⟩
  | .create entity values => do
      let plan ← s.registry.insert entity [values]
      return writeRequest .insert plan.statement
  | .bulkCreate entity rows => do
      let plan ← s.registry.insert entity rows
      return writeRequest .insert plan.statement
  | .update entity values filter => do
      let plan ← s.registry.update entity values filter
      return writeRequest .update plan.statement
  | .destroy entity filter => do
      let plan ← s.registry.delete entity filter
      return writeRequest .delete plan.statement

/-! ### Performing calls -/

/-- Performs a call: one statement if it compiles, none if it does not. -/
def perform (s : Session) (c : Call) (e : Engine) : Outcome × Engine :=
  match s.request c with
  | .ok q => (q.outcome (e.execute q.statement).1, (e.execute q.statement).2)
  | .error err => (⟨.error (.request err), []⟩, e)

/-- Performs calls one after the other. -/
def performAll (s : Session) : List Call → Engine → List Outcome × Engine
  | [], e => ([], e)
  | c :: cs, e =>
      let (o, e) := s.perform c e
      let (os, e) := s.performAll cs e
      (o :: os, e)

/-! ### Tables -/

/-- Offers entities to a schema manager until it fails at one: the entities offered, and the
failure if there is one. -/
def offer (ensure : Entity → Except EngineFailure Unit) :
    List Entity → List Entity × Except EngineFailure Unit
  | [] => ([], .ok ())
  | e :: es =>
      match ensure e with
      | .error f => ([e], .error f)
      | .ok () => (e :: (offer ensure es).1, (offer ensure es).2)

/-- Has a schema manager create or check the table of every entity, in the order of their
names. -/
def sync (s : Session) (ensure : Entity → Except EngineFailure Unit) :
    List Entity × Except CallError Unit :=
  let (offered, result) := offer ensure s.registry.sorted
  (offered, result.mapError .engine)

end Session

end RowGraph
