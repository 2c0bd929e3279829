import Ntstat.Client.State

/-!
# The client: incoming messages, sweeps, sending

`handleResponseMessage` is the handler of every incoming message, live or replayed.  The struct
handler `H` is the one that `run` or `runRecording` loaded.  A result is missing only where
`readSrcDesc` has none.

`step` is one step of the loop of `run`: a message read, one of the two timed sweeps, or a call
of `sendNextMsg`; each carries the readings of the clock and the results of the system calls that
it uses.
-/

namespace Ntstat
open Memory Std

theorem clientMsgError_nodup : ([hdrMember, u32Member MsgMember.error].map Member.name).Nodup := by
  decide

/-- the client's own `nstat_msg_error`, outside of any `#pragma pack` -/
def clientMsgError : CStruct MsgMember where
  pack := noPack
  members := [hdrMember, u32Member .error]
  nodup := clientMsgError_nodup

/-- Darwin's values -/
def eFAULT : UInt32 := 14
def eNOBUFS : UInt32 := 55

/-- `NOT_FATAL` -/
def notFatal (err : UInt32) : Bool := eNOBUFS == err || 0 == err

/-- `perr->error` -/
def msgErrorOf (msg : Mem) : UInt32 := u32 msg (clientMsgError.offsetOf .error)

namespace Client
variable (H : NTStatKernelStructHandler)

/-! ## subscribing -/

/-- `_enterStateRequestUdpSrc` -/
def enterStateRequestUdpSrc (c : Client) : Client × List Effect :=
  send { c with state := .requestUdpSrc } (H.writeAddAllUdpSrc c.seqnum.toUInt64)

/-- `_enterStateRequestTcpSrc` -/
def enterStateRequestTcpSrc (c : Client) : Client × List Effect :=
  send { c with state := .requestTcpSrc } (H.writeAddAllTcpSrc c.seqnum.toUInt64)

/-- `_enterRunningState` -/
def enterRunningState (c : Client) : Client × List Effect := ({ c with state := .running }, [])

/-- `_getAndLogError` -/
def getAndLogError (c : Client) (msg : Mem) (numBytes : Nat) : UInt32 × Client :=
  let c := { c with numErrors := c.numErrors + 1 }
  if numBytes < clientMsgError.sizeOf then (eFAULT, c)
  else (msgErrorOf msg,
    if msgErrorOf msg = eNOBUFS then { c with numDrops := c.numDrops + 1 } else c)

/-- `_handleState`; it returns 0 in every case -/
def handleState (c : Client) (msg : Mem) (numBytes : Nat) (reqMsg : QMsg) :
    Client × List Effect :=
  let isSuccessResponse := hdrType msg == .success && 0 < reqMsg.msgbytes.length
  let e := if hdrType msg = .error then c.getAndLogError msg numBytes else (0, c)
  let err := e.1
  let c := e.2
  match c.state with
  | .requestIfnetSrc =>
    if c.wantTcp then c.enterStateRequestTcpSrc H else c.enterStateRequestUdpSrc H
  | .requestTcpSrc =>
    if isSuccessResponse || notFatal err then
      if c.wantUdp then c.enterStateRequestUdpSrc H else c.enterRunningState
    else c.enterRunningState
  | .requestUdpSrc => c.enterRunningState
  | _ => c.enterRunningState

/-! ## `_handleResponseMessage` -/

/-- the source takes its new value, the listener is called -/
def updateSource (c : Client) (p : Ptr) (r : NetstatSource × List (Callback × NTStatStream)) :
    Client × List Effect :=
  (c.setSource p r.1, r.2.map fun x => .notify x.1 p x.2)

def handleSrcAdded (c : Client) (now : Time) (srcRef : UInt64) (providerId : UInt32) : Client :=
  let r := c.resetSource now srcRef providerId
  if !(r.2.heap r.1).haveDesc then r.2.addToWaitingForDescQueue r.1 else r.2

def handleSrcRemoved (c : Client) (now : Time) (srcRef : UInt64) : Client × List Effect :=
  match c.lookupSource srcRef with
  | none => (c, [])
  | some p => (c.removeFromWaitingForDescQueue p).updateSource p ((c.heap p).removed now)

def handleSrcDesc (c : Client) (msg : Mem) (numBytes : Nat) (srcRef : UInt64) :
    Option (Client × List Effect) :=
  match c.lookupSource srcRef with
  | none => some (c, [])
  | some p =>
    (H.readSrcDesc msg numBytes (c.heap p).obj).map fun
      | (true, obj) => (c.removeFromWaitingForDescQueue p).updateSource p ((c.heap p).described obj)
      | (false, obj) =>
        ((c.removeFromWaitingForDescQueue p).setSource p { c.heap p with obj }, [])

def handleSrcCounts (c : Client) (now : Time) (msg : Mem) (numBytes : Nat) (srcRef : UInt64) :
    Client × List Effect :=
  match c.lookupSource srcRef with
  | none => (c, [])
  | some p =>
    c.updateSource p ((c.heap p).counted now (H.readCounts msg numBytes (c.heap p).obj.stats))

/-- the request found under the context of the message is taken out of `_qmsgMap` -/
def takeRequest (c : Client) (context : UInt64) : QMsg × Client :=
  match c.qmsgMap[context]? with
  | some qm => (qm, { c with qmsgMap := c.qmsgMap.erase context })
  | none => ({}, c)

/-- `_handleResponseMessage`: return value, client, effects -/
def handleResponseMessage (c : Client) (now : Time) (msg : Mem) (numBytes : Nat) :
    Option (Int × Client × List Effect) :=
  let r := H.getSrcRef msg numBytes (0, 0)
  let q := c.takeRequest (hdrContext msg)
  let c := q.2
  if c.state ≠ .running ∧ (hdrType msg = .error ∨ hdrType msg = .success) then
    some (0, c.handleState H msg numBytes q.1)
  else
    match hdrType msg with
    | .srcAdded => some (0, c.handleSrcAdded now r.1 r.2, [])
    | .srcRemoved => some (0, c.handleSrcRemoved now r.1)
    | .srcDesc => (c.handleSrcDesc H msg numBytes r.1).map fun x => (0, x)
    | .srcCounts => some (0, c.handleSrcCounts H now msg numBytes r.1)
    | .success => some (0, c, [])
    | .error =>
      let e := c.getAndLogError msg numBytes
      some (if notFatal e.1 then 0 else -1, e.2, [])
    | _ => some (-1, c, [])

/-! ### one equation for every kind of message -/

section
variable {H} {c : Client} {now : Time} {msg : Mem} {n : Nat}

theorem handle_added (ht : hdrType msg = .srcAdded) : c.handleResponseMessage H now msg n =
    some (0, (c.takeRequest (hdrContext msg)).2.handleSrcAdded now
      (H.getSrcRef msg n (0, 0)).1 (H.getSrcRef msg n (0, 0)).2, []) := by
  unfold handleResponseMessage
  simp [ht]

theorem handle_removed (ht : hdrType msg = .srcRemoved) : c.handleResponseMessage H now msg n =
    some (0, (c.takeRequest (hdrContext msg)).2.handleSrcRemoved now
      (H.getSrcRef msg n (0, 0)).1) := by
  unfold handleResponseMessage
  simp [ht]

theorem handle_desc (ht : hdrType msg = .srcDesc) : c.handleResponseMessage H now msg n =
    ((c.takeRequest (hdrContext msg)).2.handleSrcDesc H msg n
      (H.getSrcRef msg n (0, 0)).1).map fun x => (0, x) := by
  unfold handleResponseMessage
  simp [ht]

theorem handle_counts (ht : hdrType msg = .srcCounts) : c.handleResponseMessage H now msg n =
    some (0, (c.takeRequest (hdrContext msg)).2.handleSrcCounts H now msg n
      (H.getSrcRef msg n (0, 0)).1) := by
  unfold handleResponseMessage
  simp [ht]

theorem handle_success (ht : hdrType msg = .success) : c.handleResponseMessage H now msg n =
    some (0, if (c.takeRequest (hdrContext msg)).2.state ≠ .running then
      (c.takeRequest (hdrContext msg)).2.handleState H msg n (c.takeRequest (hdrContext msg)).1
      else ((c.takeRequest (hdrContext msg)).2, [])) := by
  unfold handleResponseMessage
  by_cases hs : (c.takeRequest (hdrContext msg)).2.state = .running <;> simp [ht, hs]

theorem handle_error (ht : hdrType msg = .error) : c.handleResponseMessage H now msg n =
    some (if (c.takeRequest (hdrContext msg)).2.state ≠ .running then
      (0, (c.takeRequest (hdrContext msg)).2.handleState H msg n (c.takeRequest (hdrContext msg)).1)
      else (if notFatal ((c.takeRequest (hdrContext msg)).2.getAndLogError msg n).1 then 0 else -1,
        ((c.takeRequest (hdrContext msg)).2.getAndLogError msg n).2, [])) := by
  unfold handleResponseMessage
  by_cases hs : (c.takeRequest (hdrContext msg)).2.state = .running <;> simp [ht, hs]

/-- the messages that the client answers to -/
def responses : List MsgType := [.success, .error, .srcAdded, .srcRemoved, .srcDesc, .srcCounts]

theorem handle_other (ht : hdrType msg ∉ responses) : c.handleResponseMessage H now msg n =
    some (-1, (c.takeRequest (hdrContext msg)).2, []) := by
  unfold handleResponseMessage
  cases h : hdrType msg <;> simp_all [responses]

end

/-! ## the other steps of `run` -/

/-- one source of the loop of `_updateWaitForCountsQueue` -/
def requestCount (now : Time) (c : Client) (p : Ptr) : Client :=
  if (c.heap p).wantsCount now then
    { c.setSource p { c.heap p with requestedCount := true } with
      mapWaitingForCount := c.mapWaitingForCount.insert (c.heap p).srcRef p }
  else c

/-- `_updateWaitForCountsQueue` -/
def updateWaitForCountsQueue (c : Client) (now : Time) : Client :=
  (c.map.toList.map Prod.snd).foldl (requestCount now) c

/-- `_removeOldSources` -/
def removeOldSources (c : Client) (now : Time) : Client :=
  { c with map := c.map.filter fun _ p => !(c.heap p).expired now }

/-- first part of `sendNextMsg`: with nothing to send, ask for a description -/
def sendWaitingDesc (c : Client) : Client × List Effect :=
  match c.outq, c.mapWaitingForDesc.toList with
  | [], (k, p) :: _ =>
    let r := c.send
      (H.writeSrcDesc c.seqnum.toUInt64 (c.heap p).providerId.toUInt64 (c.heap p).srcRef)
    ({ r.1 with mapWaitingForDesc := r.1.mapWaitingForDesc.erase k }, r.2)
  | _, _ => (c, [])

/-- second part: with nothing to send, ask for counts if they are still wanted -/
def sendWaitingCount (c : Client) : Client × List Effect :=
  match c.outq, c.mapWaitingForCount.toList with
  | [], (k, p) :: _ =>
    let r :=
      if (c.heap p).tsRemoved == 0 && (c.heap p).requestedCount then
        c.send (H.writeQuerySrc c.seqnum.toUInt64 (c.heap p).srcRef)
      else (c, [])
    ({ r.1 with mapWaitingForCount := r.1.mapWaitingForCount.erase k }, r.2)
  | _, _ => (c, [])

/-- third part: the first message of the queue goes out -/
def sendFirst (c : Client) (timestamp : UInt32) (rc : Int) : Client × List Effect :=
  match c.outq with
  | [] => (c, [])
  | qm :: outq =>
    let r := c.sendQMsg qm timestamp rc
    ({ r.2.1 with outq }, r.2.2)

def sendNextMsg (c : Client) (timestamp : UInt32) (rc : Int) : Client × List Effect :=
  let r1 := c.sendWaitingDesc H
  let r2 := r1.1.sendWaitingCount H
  let r3 := r2.1.sendFirst timestamp rc
  (r3.1, r1.2 ++ r2.2 ++ r3.2)

/-- `_readNextMessage`: `buf` is the buffer after `read` returned `numBytes` -/
def readNextMessage (c : Client) (now : Time) (timestamp : UInt32) (buf : Mem) (numBytes : Int) :
    Option (Client × List Effect) :=
  if numBytes ≤ 0 then some (c, []) else
    (c.handleResponseMessage H now buf numBytes.toNat).map fun r =>
      (r.2.1, c.record timestamp (buf.take numBytes.toNat) ++ r.2.2)

end Client

/-! ## runs -/

inductive Step where
  | readNextMessage (now : Time) (timestamp : UInt32) (buf : Mem) (numBytes : Int)
  | updateWaitForCountsQueue (now : Time)
  | removeOldSources (now : Time)
  | sendNextMsg (timestamp : UInt32) (rc : Int)

/-- one step of the loop of `run` -/
def step (H : NTStatKernelStructHandler) (c : Client) : Step → Option (Client × List Effect)
  | .readNextMessage now timestamp buf numBytes => c.readNextMessage H now timestamp buf numBytes
  | .updateWaitForCountsQueue now => some (c.updateWaitForCountsQueue now, [])
  | .removeOldSources now => some (c.removeOldSources now, [])
  | .sendNextMsg timestamp rc => some (c.sendNextMsg H timestamp rc)

/-- what the application sets before `run` -/
structure Config where
  wantTcp : Bool := true
  wantUdp : Bool := false
  updateIntervalSeconds : UInt32 := 30
  /-- the result of `open` in `enableRecording`, if it is called -/
  recordFd : Option Int := none

/-- a newly constructed client, configured -/
def Client.configured (cfg : Config) : Client :=
  let c := ({} : Client).configure cfg.wantTcp cfg.wantUdp cfg.updateIntervalSeconds
  match cfg.recordFd with
  | none => c
  | some fd => c.enableRecording fd

/-- the start of `run` on a connected client, up to its loop -/
def Client.beginRun (H : NTStatKernelStructHandler) (c : Client) : Client × List Effect :=
  let c := { c with keepRunning := true }
  if c.wantTcp then c.enterStateRequestTcpSrc H else c.enterStateRequestUdpSrc H

/-- a newly constructed, configured and connected client at the loop of `run` -/
def Client.live (H : NTStatKernelStructHandler) (cfg : Config) (fd : Int) : Client × List Effect :=
  ((Client.configured cfg).connectToKernel fd).beginRun H

end Ntstat
