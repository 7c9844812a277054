/-
# `LogQueue`

`distributed/replication/log_queue.py`.  A queue keeps the log entries in `logs`, their
millisecond timestamps in `_timestamps`, and the position of each timestamp in
`timestamp_index_map`; `size` counts them.  `update` files a batch, through one of three
branches: a batch into an empty queue is taken as it comes, and into a non-empty queue each
entry is inserted, appended or replaces what is stored under its timestamp.

An operation that fails midway has already changed the queue, so `update` returns the state
it leaves behind together with how it ended.
-/
import Mathlib.Data.Rat.Defs
import Mathlib.Algebra.Order.Ring.Rat
import Hedra.Lib.Dict
import Hedra.Replication.Models

namespace Hedra

open Lib

/-- `LogQueue`.  `pruneMaxAge` and `pruneMaxCount` come from the environment and are never
written; a negative maximum count is not a configuration considered here. -/
structure LogQueue where
  logs : List Entry
  timestamps : List Int
  commits : List Int
  timestampIndexMap : Dict Int Nat
  term : Int
  size : Nat
  lastCommitTimestamp : Int
  pruneMaxAge : ℚ
  pruneMaxCount : Nat

/-- How a call of `update` ends: it returns `None`, returns an `InvalidTermError`, or
raises. -/
inductive UpdateResult
  | done
  | rejected (e : InvalidTermError)
  | raised (e : PyError)
deriving DecidableEq

namespace LogQueue

/-- `LogQueue()` -/
def empty (pruneMaxAge : ℚ) (pruneMaxCount : Nat) : LogQueue where
  logs := []
  timestamps := []
  commits := []
  timestampIndexMap := Dict.empty
  term := 0
  size := 0
  lastCommitTimestamp := 0
  pruneMaxAge := pruneMaxAge
  pruneMaxCount := pruneMaxCount

/-! ## 1. Reading -/

/-- `last_timestamp` -/
def lastTimestamp (q : LogQueue) : Int := q.timestamps.getLast?.getD 0

/-- `latest()` -/
def latest (q : LogQueue) : Except PyError (List Entry) :=
  match q.commits.getLast? with
  | some commit =>
    match q.timestampIndexMap.get? commit with
    | some index => .ok (q.logs.drop index)
    | none => .error (.keyError commit)
  | none => .ok q.logs

/-- `get(shard_id)`.  The default index `-1` of an unknown timestamp is the last entry. -/
def get (q : LogQueue) (shardId : Int) : Except PyError (Option Entry) :=
  let index := q.timestampIndexMap.get? (Snowflake.parse shardId).timestamp
  if q.size < 1 then .ok none
  else
    match (match index with
      | some i => q.logs[i]?
      | none => q.logs.getLast?) with
    | some e => .ok (some e)
    | none => .error (.indexError "list index out of range")

/-! ## 2. `commit` and `update` -/

/-- `commit()` -/
def commit (q : LogQueue) : LogQueue :=
  match q.timestamps.getLast? with
  | some t => { q with lastCommitTimestamp := t, commits := q.commits ++ [t] }
  | none => q

/-- One turn of the loop over a batch that goes into an empty queue. -/
def appendAt (q : LogQueue) (idx : Nat) (e : Entry) : LogQueue :=
  { q with
    timestampIndexMap := q.timestampIndexMap.set e.stamp idx
    timestamps := q.timestamps ++ [e.stamp]
    logs := q.logs ++ [e]
    size := q.size + 1 }

/-- That loop: the batch is filed as it comes, under the positions it has in the batch. -/
def appendAll (q : LogQueue) (idx : Nat) : List Entry → LogQueue
  | [] => q
  | e :: es => (q.appendAt idx e).appendAll (idx + 1) es

/-- `[idx for idx, timestamp in enumerate(self._timestamps) if timestamp < t]` -/
def previousTimestamps (ts : List Int) (t : Int) : List Nat :=
  (ts.zipIdx.filter fun p => p.1 < t).map Prod.snd

/-- One past the last of `previousTimestamps`, or `0` when there is none. -/
def insertIndex (ts : List Int) (t : Int) : Nat :=
  match (previousTimestamps ts t).getLast? with
  | some i => i + 1
  | none => 0

/-- `for timestamp in next_timestamps: self.timestamp_index_map[timestamp] += 1` -/
def shift (m : Dict Int Nat) : List Int → Dict Int Nat × Option PyError
  | [] => (m, none)
  | t :: ts =>
    match m.get? t with
    | some i => shift (m.set t (i + 1)) ts
    | none => (m, some (.keyError t))

/-- The branch for a missing entry: insert it in order. -/
def insertMissing (q : LogQueue) (e : Entry) : LogQueue × Option PyError :=
  let i := insertIndex q.timestamps e.stamp
  match shift (q.timestampIndexMap.set e.stamp i) (q.timestamps.drop i) with
  | (m, none) =>
    ({ q with
       timestampIndexMap := m
       logs := q.logs.take i ++ e :: q.logs.drop i
       timestamps := q.timestamps.take i ++ e.stamp :: q.timestamps.drop i
       size := q.size + 1 }, none)
  | (m, some err) => ({ q with timestampIndexMap := m }, some err)

/-- The branch for an entry to append. -/
def appendNext (q : LogQueue) (e : Entry) : LogQueue :=
  { q with
    logs := q.logs ++ [e]
    timestamps := q.timestamps ++ [e.stamp]
    timestampIndexMap := q.timestampIndexMap.set e.stamp q.size
    size := q.size + 1 }

/-- The branch for an entry to replace. -/
def replaceAt (q : LogQueue) (e : Entry) : LogQueue × Option PyError :=
  match q.timestampIndexMap.get? e.stamp with
  | none => (q, some (.keyError e.stamp))
  | some i =>
    if i < q.logs.length then
      if i < q.timestamps.length then
        ({ q with logs := q.logs.set i e, timestamps := q.timestamps.set i e.stamp }, none)
      else
        ({ q with logs := q.logs.set i e },
          some (.indexError "list assignment index out of range"))
    else (q, some (.indexError "list assignment index out of range"))

/-- One turn of the loop over the entries of a batch, in a queue that is not empty. -/
def insertEntry (q : LogQueue) (e : Entry) : LogQueue × Option PyError :=
  if e.stamp < q.lastTimestamp then q.insertMissing e
  else if e.stamp > q.lastTimestamp then (q.appendNext e, none)
  else q.replaceAt e

/-- The loop; the first exception ends it. -/
def insertEntries (q : LogQueue) : List Entry → LogQueue × UpdateResult
  | [] => (q, .done)
  | e :: es =>
    match q.insertEntry e with
    | (q', none) => q'.insertEntries es
    | (q', some err) => (q', .raised err)

/-- What `update` does with a batch it does not reject. -/
def file (q : LogQueue) (entries : List Entry) : LogQueue × UpdateResult :=
  if q.size < 1 then (q.appendAll 0 entries, .done) else q.insertEntries entries

/-- `update(entries)` -/
def update (q : LogQueue) (entries : List Entry) : LogQueue × UpdateResult :=
  match entries.getLast? with
  | none => (q, .raised (.indexError "list index out of range"))
  | some lastEntry =>
    if lastEntry.term < q.term then
      (q, .rejected ⟨Snowflake.parse lastEntry.entryId, lastEntry.term, q.term⟩)
    else
      -- a newer term is adopted before anything is filed
      { q with term := lastEntry.term }.file entries

/-! ## 3. `prune` -/

/-- The number of timestamps that `prune` cuts off at the front. -/
def pruneCount (q : LogQueue) (currentTime : Nat) : Nat :=
  let count := (q.timestamps.filter fun t => q.pruneMaxAge < ((currentTime - t : Int) : ℚ)).length
  if count > q.pruneMaxCount then q.pruneMaxCount else count

/-- `if self.timestamp_index_map.get(t): del self.timestamp_index_map[t]`: the index `0` is
falsy, so the record of the very first timestamp stays. -/
def forget (m : Dict Int Nat) (t : Int) : Dict Int Nat :=
  match m.get? t with
  | some (_ + 1) => m.erase t
  | _ => m

/-- `prune()`, when the clock reads `currentTime` milliseconds. -/
def prune (q : LogQueue) (currentTime : Nat) : LogQueue :=
  let count := q.pruneCount currentTime
  if count ≥ q.size then
    { q with
      logs := []
      timestamps := []
      timestampIndexMap := Dict.empty
      commits := []
      size := 0
      lastCommitTimestamp := 0 }
  else
    let timestamps := q.timestamps.drop count
    { q with
      timestampIndexMap := (q.timestamps.take count).foldl forget q.timestampIndexMap
      logs := q.logs.drop count
      timestamps := timestamps
      -- fewer than `size` are cut, so a first timestamp is left
      commits := q.commits.filter fun c => timestamps.headD 0 < c
      size := q.size - count }

end LogQueue

end Hedra
