/-
# The messages and records of replication

`distributed/models/raft`: the enumerations, the log `Entry`, and the `RaftMessage` that
carries every vote request, log update and answer; with them the two ways a `LogQueue` call
can fail (`errors/invalid_term_error.py`, and the exceptions the language raises).

A message's `entries` and the addresses in it are optional in the source; `none` is Python's
`None` throughout.  The payload `value` of an entry is never inspected, so it is taken as
text.
-/
import Hedra.Snowflake

namespace Hedra

/-! ## 1. Enumerations and addresses -/

/-- `HealthStatus`, with the `"inactive"` that `deregister_node` writes. -/
inductive HealthStatus
  | initializing | waiting | healthy | suspect | failed | inactive
deriving DecidableEq

/-- `NodeState` -/
inductive NodeState
  | follower | candidate | leader
deriving DecidableEq

/-- `ElectionState` -/
inductive ElectionState
  | active | confirmed | pending | ready
deriving DecidableEq

/-- `VoteResult` -/
inductive VoteResult
  | accepted | rejected
deriving DecidableEq

/-- A `(host, port)` pair. -/
structure Address where
  host : String
  port : Int
deriving DecidableEq

/-! ## 2. Failures -/

/-- The exceptions a replication call can raise. -/
inductive PyError
  | indexError (text : String)
  | keyError (key : Int)
  | typeError
  | validationError
deriving DecidableEq

/-- `str(error)`, as far as an answer quotes it. -/
def PyError.str : PyError → String
  | .indexError text => text
  | .keyError key => toString key
  | .typeError => "TypeError"
  | .validationError => "ValidationError"

/-- `InvalidTermError` -/
structure InvalidTermError where
  entryId : Snowflake
  entryTerm : Int
  expectedTerm : Int
deriving DecidableEq

def InvalidTermError.str (e : InvalidTermError) : String :=
  "Log entry - " ++ e.entryId.repr ++ " - provided invalid term - " ++ toString e.entryTerm ++
    " - Expected term - " ++ toString e.expectedTerm

/-! ## 3. `Entry` -/

/-- `Entry` -/
structure Entry where
  entryId : Int
  key : String
  value : String
  term : Int
  leaderHost : String
  leaderPort : Int
deriving DecidableEq

/-- `Snowflake.parse(entry.entry_id).timestamp`, what a `LogQueue` files the entry under. -/
def Entry.stamp (e : Entry) : Int := (Snowflake.parse e.entryId).timestamp

/-- The pair `(leader_host, leader_port)`. -/
def Entry.leader (e : Entry) : Address := ⟨e.leaderHost, e.leaderPort⟩

/-- The `key` and `value` an application hands in. -/
structure EntryData where
  key : String
  value : String
deriving DecidableEq

/-- `Entry.from_data`.  Validation fails on a missing id (a generator that refused), on a
missing leader, and on the id `0`, for which `__init__` does not fill in the timestamp. -/
def Entry.fromData (entryId : Option Nat) (leader : Option Address) (term : Int)
    (data : EntryData) : Except PyError Entry :=
  match entryId, leader with
  | some id, some a =>
    if id = 0 then .error .validationError
    else .ok ⟨id, data.key, data.value, term, a.host, a.port⟩
  | _, _ => .error .validationError

/-! ## 4. `RaftMessage` -/

/-- `RaftMessage` -/
structure RaftMessage where
  host : Option String
  port : Option Int
  error : Option String
  sourceHost : String
  sourcePort : Int
  electedLeader : Option Address
  failedNode : Option Address
  voteResult : Option VoteResult
  raftNodeStatus : NodeState
  status : HealthStatus
  entries : Option (List Entry)
  termNumber : Int
  receivedTimestamp : Option Int
deriving DecidableEq

/-- The pair `(source_host, source_port)`. -/
def RaftMessage.source (m : RaftMessage) : Address := ⟨m.sourceHost, m.sourcePort⟩

end Hedra
