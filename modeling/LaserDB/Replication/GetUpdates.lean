import LaserDB.Engine.ReplicationDb
import LaserDB.Library.SequencedLog

/-!
# Serving the write-ahead log

`ReplicationDB::getUpdates` and its cache of log iterators, over a log of batches whose oldest ones
may be gone.
-/

namespace LaserDB

open SequencedLog (total startOf placeOf)
open Function Nat

/-- A batch of the log.  A batch without records takes no sequence number and is
not an update, so it is not in the model. -/
structure WriteBatch where
  data : Bytes
  count : Nat
  /-- The time `TimeLogExtractor` finds; `none` when the batch cannot be walked. -/
  ms : Option Nat
  count_pos : 0 < count
  deriving DecidableEq, Repr

def WriteBatch.dataSize (batch : WriteBatch) : Nat := batch.data.length

structure WriteAheadLog where
  batches : List WriteBatch
  removed : Nat
  removed_le : removed ≤ batches.length

namespace WriteAheadLog

def getLatestSequenceNumber (log : WriteAheadLog) : Nat := total WriteBatch.count log.batches

def sequence (log : WriteAheadLog) (place : Nat) : Nat :=
  startOf WriteBatch.count log.batches place

def write (log : WriteAheadLog) (batch : WriteBatch) : WriteAheadLog :=
  ⟨log.batches ++ [batch], log.removed, by
    rw [List.length_append]
    exact le_add_right_of_le log.removed_le⟩

def truncate (log : WriteAheadLog) (count : Nat) : WriteAheadLog :=
  ⟨log.batches, max log.removed (min count log.batches.length),
    Nat.max_le.mpr ⟨log.removed_le, Nat.min_le_right _ _⟩⟩

end WriteAheadLog

structure TransactionLogIterator where
  position : Nat
  valid : Bool
  deriving DecidableEq, Repr

/-- What a request meets outside: the clock, an error of `GetUpdatesSince`, and
which batches of removed files an open iterator can still read. -/
structure ServeEnv where
  now : Nat
  fault : Option RocksDbFault
  kept : Nat → Bool

namespace TransactionLogIterator

def load (kept : Nat → Bool) (log : WriteAheadLog) (position : Nat) : TransactionLogIterator :=
  ⟨position, decide (position < log.batches.length) &&
    (decide (log.removed ≤ position) || kept position)⟩

/-- Move on; an iterator that found no batch looks at the same place again. -/
def next (kept : Nat → Bool) (log : WriteAheadLog) (iter : TransactionLogIterator) :
    TransactionLogIterator :=
  load kept log (if iter.valid then iter.position + 1 else iter.position)

end TransactionLogIterator

def WriteAheadLog.getUpdatesSince (env : ServeEnv) (log : WriteAheadLog) (sequence : Nat) :
    RocksDbStatus × Option TransactionLogIterator :=
  match env.fault with
  | some fault => (.fault fault, none)
  | none =>
    if log.getLatestSequenceNumber < sequence then (.notFound, none)
    else (.ok, some (.load env.kept log
      (max log.removed (placeOf WriteBatch.count log.batches sequence))))

structure Update where
  rawData : WriteBatch
  timestamp : Nat
  deriving DecidableEq, Repr

def Update.of (batch : WriteBatch) : Update := ⟨batch, batch.ms.getD 0⟩

structure ReplicateRequest where
  seqNo : Int
  nodeHash : Int
  maxSize : Nat
  version : Bytes
  deriving DecidableEq, Repr

/-- An `int64` where a `uint64` is wanted. -/
def asSequence : Int → Nat
  | .ofNat number => number
  | .negSucc number => 2 ^ 64 - 1 - number

structure ReplicateResponse where
  version : Bytes
  updates : List Update
  maxSeqNo : Nat
  deriving DecidableEq, Repr

structure CachedIter where
  iter : Option TransactionLogIterator
  time : Nat
  deriving DecidableEq, Repr

/-- The side of `ReplicationDB` that serves its log; `η` holds the hash values. -/
structure ReplicationSource (η : Type) where
  version : Bytes
  role : DBRole
  log : WriteAheadLog
  cachedIters : η → Option CachedIter

def decimal : Int → List Char
  | .ofNat number => toDigits 10 number
  | .negSucc number => '-' :: toDigits 10 (number + 1)

def iterText (seqNo : Nat) (nodeHash : Int) : List Char := decimal seqNo ++ decimal nodeHash

def replicatorIdleIterTimeoutMs : Nat := 10000

namespace ReplicationSource

variable {η : Type} [DecidableEq η] (cityHash64 : List Char → η)

def getIterHash (seqNo : Nat) (nodeHash : Int) : η := cityHash64 (iterText seqNo nodeHash)

/-- Take an iterator out of the cache; one that had reached the end of the log is
moved on, and dropped when there is still nothing to read. -/
def getCachedIter (env : ServeEnv) (seqNo : Nat) (nodeHash : Int) (source : ReplicationSource η) :
    Option TransactionLogIterator × ReplicationSource η :=
  let hashKey := getIterHash cityHash64 seqNo nodeHash
  match source.cachedIters hashKey with
  | none => (none, source)
  | some cached =>
    let source := { source with cachedIters := update source.cachedIters hashKey none }
    match cached.iter with
    | none => (none, source)
    | some iter =>
      if iter.valid then (some iter, source)
      else
        let iter := iter.next env.kept source.log
        (if iter.valid then some iter else none, source)

/-- `emplace` keeps an entry that is already there. -/
def putCachedIter (env : ServeEnv) (seqNo : Nat) (nodeHash : Int)
    (iter : Option TransactionLogIterator) (source : ReplicationSource η) : ReplicationSource η :=
  let hashKey := getIterHash cityHash64 seqNo nodeHash
  match source.cachedIters hashKey with
  | some _ => source
  | none => { source with
      cachedIters := update source.cachedIters hashKey (some ⟨iter, env.now⟩) }

omit [DecidableEq η] in
def cleanIdleCachedIters (now : Nat) (source : ReplicationSource η) : ReplicationSource η :=
  let busy := fun cached : CachedIter => !decide (cached.time + replicatorIdleIterTimeoutMs < now)
  { source with cachedIters := fun hashKey => (source.cachedIters hashKey).filter busy }

/-- The loop of `getUpdates`: `rest` are the batches from the iterator on. -/
def collectUpdates (kept : Nat → Bool) (log : WriteAheadLog) (maxSize : Nat) :
    Nat → TransactionLogIterator → List WriteBatch → List WriteBatch × TransactionLogIterator
  | _, iter, [] => ([], iter)
  | updateSize, iter, batch :: rest =>
    if updateSize < maxSize ∧ iter.valid = true then
      let (updates, last) :=
        collectUpdates kept log maxSize (updateSize + batch.dataSize) (iter.next kept log) rest
      (batch :: updates, last)
    else ([], iter)

def readUpdates (kept : Nat → Bool) (log : WriteAheadLog) (maxSize : Nat) :
    Option TransactionLogIterator → List WriteBatch × Option TransactionLogIterator
  | none => ([], none)
  | some iter =>
    let (updates, last) := collectUpdates kept log maxSize 0 iter (log.batches.drop iter.position)
    (updates, some last)

def openIter (env : ServeEnv) (expectedSeqNo : Nat) (log : WriteAheadLog) :
    Option TransactionLogIterator → RocksDbStatus × Option TransactionLogIterator
  | none => log.getUpdatesSince env expectedSeqNo
  | some iter => (.ok, some iter)

/-- `batch_numbers`, a `uint32_t`. -/
def batchNumbers (updates : List WriteBatch) : UInt32 :=
  (updates.map fun batch => UInt32.ofNat batch.count).sum

/-- The rest of `getUpdates`, once it has an iterator. -/
def answer (env : ServeEnv) (request : ReplicateRequest) (source : ReplicationSource η) :
    RocksDbStatus × Option TransactionLogIterator →
      Except Status ReplicateResponse × ReplicationSource η
  | (.fault _, _) => (.error .RP_SOURCE_READ_ERROR, source)
  | (status, iter) =>
    let (updates, iter) := readUpdates env.kept source.log request.maxSize iter
    if updates = [] ∧ status ≠ .notFound then (.error .RP_SOURCE_WAL_LOG_REMOVED, source)
    else
      (.ok ⟨source.version, updates.map Update.of, source.log.getLatestSequenceNumber⟩,
        putCachedIter cityHash64 env (asSequence (request.seqNo + 1 + (batchNumbers updates).toNat))
          request.nodeHash iter source)

def getUpdates (env : ServeEnv) (request : ReplicateRequest) (source : ReplicationSource η) :
    Except Status ReplicateResponse × ReplicationSource η :=
  if request.version ≠ source.version then (.ok ⟨source.version, [], 0⟩, source)
  else if source.role = .FOLLOWER then (.error .RP_ROLE_ERROR, source)
  else
    let expectedSeqNo := asSequence (request.seqNo + 1)
    let (cached, source) := getCachedIter cityHash64 env expectedSeqNo request.nodeHash source
    answer cityHash64 env request source (openIter env expectedSeqNo source.log cached)

/-- What happens to a source: writes, lost log files, requests, the idle timer and
a change of role, which clears the cache when the source becomes a follower. -/
inductive Event where
  | write (batch : WriteBatch)
  | truncate (count : Nat)
  | request (env : ServeEnv) (request : ReplicateRequest)
  | idle (now : Nat)
  | changeRole (role : DBRole)

def changeRole (role : DBRole) (source : ReplicationSource η) : ReplicationSource η :=
  if source.role = role then source
  else
    match role with
    | .FOLLOWER => { source with role := .FOLLOWER, cachedIters := fun _ => none }
    | .LEADER => { source with role := .LEADER }

def next : Event → ReplicationSource η → ReplicationSource η
  | .write batch, source => { source with log := source.log.write batch }
  | .truncate count, source => { source with log := source.log.truncate count }
  | .request env request, source => (getUpdates cityHash64 env request source).2
  | .idle now, source => cleanIdleCachedIters now source
  | .changeRole role, source => changeRole role source

end ReplicationSource

end LaserDB
