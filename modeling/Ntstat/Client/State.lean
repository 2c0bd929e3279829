import Std.Data.ExtTreeMap
import Mathlib.Logic.Function.Basic
import Ntstat.Kernel.Versions

/-!
# The client: state, requests, sources

`Client` holds the data members of `NetworkStatisticsClientImpl`.  Sources are allocated with
`new` and never freed; the maps hold pointers to them.  A pointer is a number, `heap` is what it
points to and `next` the next pointer that `new` gives, so a pointer names one incarnation of a
source reference for good.

An operation gives the client after it and its `Effect`s: what the listener is told, what is
enqueued, and what goes to the socket and to the record file.  Logging is left out.
-/

namespace Ntstat
open Memory Std

/-- `NetstatSource*` -/
abbrev Ptr := Nat

structure QMsg where
  seqnum : UInt64 := 0
  msgbytes : List UInt8 := []
  ntsrc : Option Ptr := none
deriving DecidableEq

/-- `state_t` -/
inductive ClientState where
  | start
  | requestIfnetSrc
  | requestTcpSrc
  | requestUdpSrc
  | running
deriving DecidableEq

/-- `NetworkStatisticsClientImpl`; the defaults are those of its constructor -/
structure Client where
  heap : Ptr → NetstatSource := fun _ => { srcRef := 0, providerId := 0 }
  next : Ptr := 0
  map : ExtTreeMap UInt64 Ptr := ∅
  keepRunning : Bool := false
  fd : Int := 0
  state : ClientState := .start
  outq : List QMsg := []
  seqnum : UInt16 := 1
  qmsgMap : ExtTreeMap UInt64 QMsg := ∅
  wantTcp : Bool := true
  wantUdp : Bool := false
  updateIntervalSeconds : UInt32 := 30
  recordEnabled : Bool := false
  recordFd : Int := 0
  numDrops : UInt32 := 0
  numErrors : UInt32 := 0
  mapWaitingForDesc : ExtTreeMap UInt64 Ptr := ∅
  mapWaitingForCount : ExtTreeMap UInt64 Ptr := ∅
  workingMsg : QMsg := { seqnum := 1 }

/-- the methods of `NetworkStatisticsListener` -/
inductive Callback where
  | onStreamAdded
  | onStreamRemoved
  | onStreamStatsUpdate
deriving DecidableEq

inductive Effect where
  /-- a call of the listener with `&source->obj` -/
  | notify (cb : Callback) (source : Ptr) (stream : NTStatStream)
  /-- a message pushed to `_outq` (the trace line `T ENQ`) -/
  | enqueue (msgbytes : List UInt8)
  /-- `write` to the control socket -/
  | socketWrite (msgbytes : List UInt8)
  /-- `write` to the record file -/
  | fileWrite (bytes : List UInt8)
deriving DecidableEq

namespace Client

/-! ## setting up -/

def configure (c : Client) (wantTcp wantUdp : Bool) (updateIntervalSeconds : UInt32) : Client :=
  { c with
    wantTcp
    wantUdp
    updateIntervalSeconds := if updateIntervalSeconds < 30 then 30 else updateIntervalSeconds }

/-- `connectToKernel`, `fd` the socket it opened -/
def connectToKernel (c : Client) (fd : Int) : Client := { c with fd }

def isConnected (c : Client) : Bool := 0 < c.fd

/-- `enableRecording`, `fd` the result of `open` -/
def enableRecording (c : Client) (fd : Int) : Client :=
  { c with recordFd := fd, recordEnabled := 0 < fd || c.recordEnabled }

def inReplayMode (c : Client) : Bool := 0 < c.recordFd && c.recordEnabled == false

/-! ## requests -/

/-- `INC_QMSG` -/
def incQmsg (c : Client) : Client := { c with workingMsg := { seqnum := c.seqnum.toUInt64 } }

/-- `MsgDest::send`: the message is copied and enqueued under the context in its header -/
def send (c : Client) (msg : List UInt8) : Client × List Effect :=
  if c.inReplayMode then (c, []) else
    let qm := { c.workingMsg with seqnum := hdrContext (Mem.ofList msg), msgbytes := msg }
    (incQmsg { c with outq := c.outq ++ [qm], seqnum := c.seqnum + 1 }, [.enqueue msg])

/-- what `RECORD` writes: timestamp, length, data -/
def recordBytes (timestamp : UInt32) (data : List UInt8) : List UInt8 :=
  Mem.take (byteOf timestamp.toNat) 4 ++ Mem.take (byteOf data.length) 4 ++ data

/-- `if (_recordEnabled) RECORD(..)` -/
def record (c : Client) (timestamp : UInt32) (data : List UInt8) : List Effect :=
  if c.recordEnabled then [.fileWrite (recordBytes timestamp data)] else []

/-- `SEND`; `rc` is what `write` returned and only decides the result -/
def sendQMsg (c : Client) (qm : QMsg) (timestamp : UInt32) (rc : Int) :
    Bool × Client × List Effect :=
  (rc == qm.msgbytes.length, { c with qmsgMap := c.qmsgMap.insert qm.seqnum qm },
    c.record timestamp qm.msgbytes ++ [.socketWrite qm.msgbytes])

/-! ## sources -/

def setSource (c : Client) (p : Ptr) (s : NetstatSource) : Client :=
  { c with heap := Function.update c.heap p s }

/-- `_lookupSource` -/
def lookupSource (c : Client) (srcRef : UInt64) : Option Ptr := c.map[srcRef]?

/-- `new NetstatSource`, entered in the map -/
def newSource (c : Client) (now : Time) (srcRef : UInt64) (providerId : UInt32) : Ptr × Client :=
  (c.next,
    { c with
      heap := Function.update c.heap c.next
        { srcRef, providerId, obj := { id := srcRef }, tsAdded := now }
      next := c.next + 1
      map := c.map.insert srcRef c.next })

/-- `_resetSource` -/
def resetSource (c : Client) (now : Time) (srcRef : UInt64) (providerId : UInt32) :
    Ptr × Client :=
  match c.map[srcRef]? with
  | some p =>
    if (c.heap p).tsRemoved > 0 then
      newSource { c with map := c.map.erase srcRef } now srcRef providerId
    else (p, c)
  | none => newSource c now srcRef providerId

def addToWaitingForDescQueue (c : Client) (p : Ptr) : Client :=
  { c with mapWaitingForDesc := c.mapWaitingForDesc.insert (c.heap p).srcRef p }

def removeFromWaitingForDescQueue (c : Client) (p : Ptr) : Client :=
  { c with mapWaitingForDesc := c.mapWaitingForDesc.erase (c.heap p).srcRef }

end Client

/-! ## what a message does to its source

Each gives the source afterwards and the calls of the listener. -/

namespace NetstatSource
variable (s : NetstatSource) (now : Time)

/-- `case SRC_REMOVED` -/
def removed : NetstatSource × List (Callback × NTStatStream) :=
  ({ s with tsRemoved := now },
    if !s.obj.key.noPorts then [(.onStreamRemoved, s.obj)] else [])

/-- `"kernel_task"` is copied over the name of pid 0 -/
def fixName (obj : NTStatStream) : NTStatStream :=
  if obj.process.pid == 0 then obj.writeName kernelTask 12 else obj

@[simp] theorem fixName_id (obj : NTStatStream) : (fixName obj).id = obj.id := by
  unfold fixName
  split <;> simp

@[simp] theorem fixName_key (obj : NTStatStream) : (fixName obj).key = obj.key := by
  unfold fixName
  split <;> simp

@[simp] theorem fixName_states (obj : NTStatStream) : (fixName obj).states = obj.states := by
  unfold fixName
  split
  · exact NTStatStreamState.spill_of_le (by decide)
  · rfl

@[simp] theorem fixName_stats (obj : NTStatStream) : (fixName obj).stats = obj.stats := by
  unfold fixName
  split
  · exact NTStatCounters.spill_of_le (by decide)
  · rfl

/-- `case SRC_DESC` after `readSrcDesc` returned true and filled `obj` -/
def described (obj : NTStatStream) : NetstatSource × List (Callback × NTStatStream) :=
  ({ s with obj := fixName obj, haveDesc := true, haveNotifiedAdded := true },
    if !s.haveNotifiedAdded && !(fixName obj).key.noPorts then
      [(.onStreamAdded, fixName obj)] else [])

/-- `case SRC_COUNTS` after `readCounts` filled `stats` -/
def counted (stats : NTStatCounters) : NetstatSource × List (Callback × NTStatStream) :=
  ({ s with obj := { s.obj with stats }, tsLastUpdate := now, requestedCount := false },
    if s.haveDesc && (s.requestedCount && (0 < stats.rxpackets || 0 < stats.txpackets)) then
      [(.onStreamStatsUpdate, { s.obj with stats })] else [])

/-- the test of `_updateWaitForCountsQueue` -/
def wantsCount : Bool :=
  s.tsRemoved == 0 && !isListenPort s.obj && !s.obj.key.noPorts &&
    15 ≤ now - (if s.tsLastUpdate == 0 then s.tsAdded else s.tsLastUpdate)

/-- `REMOVED_SOURCE_KEEP_SECONDS` -/
def removedSourceKeepSeconds : Time := 30

/-- the test of `_removeOldSources` -/
def expired : Bool := s.tsRemoved > 0 && now - s.tsRemoved > removedSourceKeepSeconds

end NetstatSource

end Ntstat
