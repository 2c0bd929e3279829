import Ntstat.Kernel.Decode
import Ntstat.Client.Handle

/-!
# What the operations of the client are made of

As far as requests are concerned, every operation is made of two things: sending a request of the
handler (`Request`), and steps that leave counter, queue and recording alone (`Still`).

* `Client.Calm`           what a message about a source or an error changes, and
                          `handleResponseMessage_cases` that any other message changes the
                          subscription state;
* `Client.Resubscribed`   what a change of the subscription state does to a client, here and in
                          `beginRun`;
* `Client.Composed`       a relation between a client and the result of an operation that holds of
                          both and composes; `Composed.handleResponseMessage` and its companions say
                          that it then holds of the operations;
* `Turn`, `turn_of_step`  the ways of a step.
-/

namespace Ntstat
open Memory Std

/-- the requests that a handler writes under a context -/
inductive Request (H : NTStatKernelStructHandler) (context : UInt64) : List UInt8 → Prop
  | addAllTcp : Request H context (H.writeAddAllTcpSrc context)
  | addAllUdp : Request H context (H.writeAddAllUdpSrc context)
  | srcDesc (providerId srcRef : UInt64) :
    Request H context (H.writeSrcDesc context providerId srcRef)
  | querySrc (srcRef : UInt64) : Request H context (H.writeQuerySrc context srcRef)

theorem Request.context {H : NTStatKernelStructHandler} (hH : H.Lawful) {context : UInt64}
    {msg : List UInt8} (h : Request H context msg) : hdrContext (Mem.ofList msg) = context := by
  cases h with
  | addAllTcp => exact hH.addAllTcp _
  | addAllUdp => exact hH.addAllUdp _
  | srcDesc p r => exact hH.srcDesc _ p r
  | querySrc r => exact hH.querySrc _ r

def Effect.isNotify : Effect → Bool
  | notify .. => true
  | _ => false

namespace Client

/-- only the listener hears of it; no request is sent, and none is filed -/
structure Still (c : Client) (x : Client × List Effect) : Prop where
  recordFd : x.1.recordFd = c.recordFd
  recordEnabled : x.1.recordEnabled = c.recordEnabled
  seqnum : x.1.seqnum = c.seqnum
  outq : x.1.outq = c.outq
  qmsgMap : ∀ y, y ∈ x.1.qmsgMap → y ∈ c.qmsgMap
  effects : ∀ e ∈ x.2, e.isNotify = true

/-- a relation between a client and the result of an operation that goes through all of them -/
structure Composed (H : NTStatKernelStructHandler)
    (Q : Client → Client × List Effect → Prop) : Prop where
  trans : ∀ {c x y}, Q c x → Q x.1 y → Q c (y.1, x.2 ++ y.2)
  still : ∀ {c x}, Still c x → Q c x
  send : ∀ {c msg}, Request H c.seqnum.toUInt64 msg → Q c (c.send msg)

variable {H : NTStatKernelStructHandler} {c : Client}

/-! ## what is still -/

theorem still_silent {c' : Client} (h1 : c'.recordFd = c.recordFd)
    (h2 : c'.recordEnabled = c.recordEnabled) (h3 : c'.seqnum = c.seqnum) (h4 : c'.outq = c.outq)
    (h5 : c'.qmsgMap = c.qmsgMap) : c.Still (c', []) :=
  ⟨h1, h2, h3, h4, fun _ h => h5 ▸ h, fun _ h => absurd h List.not_mem_nil⟩

theorem still_takeRequest (c : Client) (context : UInt64) :
    c.Still ((c.takeRequest context).2, []) := by
  unfold takeRequest
  split
  · exact ⟨rfl, rfl, rfl, rfl, fun _ h => ExtTreeMap.mem_of_mem_erase h,
      fun _ h => absurd h List.not_mem_nil⟩
  · exact still_silent rfl rfl rfl rfl rfl

/-- only sources, the waiting descriptions and the error counters change; only the listener hears
of it -/
def Calm (c : Client) (x : Client × List Effect) : Prop :=
  (∃ heap next map mapWaitingForDesc numDrops numErrors, x.1 =
    { c with heap, next, map, mapWaitingForDesc, numDrops, numErrors }) ∧
  ∀ e ∈ x.2, e.isNotify = true

theorem calm_silent {c' : Client} (h : ∃ heap next map mapWaitingForDesc numDrops numErrors, c' =
    { c with heap, next, map, mapWaitingForDesc, numDrops, numErrors }) : c.Calm (c', []) :=
  ⟨h, fun _ h => absurd h List.not_mem_nil⟩

theorem Calm.still {x : Client × List Effect} (h : c.Calm x) : c.Still x := by
  obtain ⟨x1, x2⟩ := x
  obtain ⟨⟨_, _, _, _, _, _, rfl⟩, he⟩ := h
  exact ⟨rfl, rfl, rfl, rfl, fun _ h => h, he⟩

theorem Calm.qmsgMap {x : Client × List Effect} (h : c.Calm x) : x.1.qmsgMap = c.qmsgMap := by
  obtain ⟨⟨_, _, _, _, _, _, he⟩, -⟩ := h
  rw [he]

theorem calm_getAndLogError (c : Client) (msg : Mem) (n : Nat) :
    c.Calm ((c.getAndLogError msg n).2, []) := by
  unfold getAndLogError
  dsimp only
  split
  · exact calm_silent ⟨_, _, _, _, _, _, rfl⟩
  · split <;> exact calm_silent ⟨_, _, _, _, _, _, rfl⟩

theorem updateSource_effects (c : Client) (p : Ptr)
    (r : NetstatSource × List (Callback × NTStatStream)) :
    ∀ e ∈ (c.updateSource p r).2, e.isNotify = true := by
  intro e he
  obtain ⟨x, -, rfl⟩ := List.mem_map.mp he
  rfl

theorem calm_handleSrcAdded (c : Client) (now : Time) (r : UInt64) (prov : UInt32) :
    c.Calm (c.handleSrcAdded now r prov, []) := by
  unfold handleSrcAdded resetSource newSource
  dsimp only
  split
  · split
    · split <;> exact calm_silent ⟨_, _, _, _, _, _, rfl⟩
    · split <;> exact calm_silent ⟨_, _, _, _, _, _, rfl⟩
  · split <;> exact calm_silent ⟨_, _, _, _, _, _, rfl⟩

theorem calm_handleSrcRemoved (c : Client) (now : Time) (r : UInt64) :
    c.Calm (c.handleSrcRemoved now r) := by
  unfold handleSrcRemoved
  split
  · exact calm_silent ⟨_, _, _, _, _, _, rfl⟩
  · exact ⟨⟨_, _, _, _, _, _, rfl⟩, updateSource_effects _ _ _⟩

theorem calm_handleSrcCounts (c : Client) (now : Time) (msg : Mem) (n : Nat) (r : UInt64) :
    c.Calm (c.handleSrcCounts H now msg n r) := by
  unfold handleSrcCounts
  split
  · exact calm_silent ⟨_, _, _, _, _, _, rfl⟩
  · exact ⟨⟨_, _, _, _, _, _, rfl⟩, updateSource_effects _ _ _⟩

theorem calm_handleSrcDesc {msg : Mem} {n : Nat} {r : UInt64} {x : Client × List Effect}
    (h : c.handleSrcDesc H msg n r = some x) : c.Calm x := by
  unfold handleSrcDesc at h
  split at h
  · obtain rfl := Option.some.inj h
    exact calm_silent ⟨_, _, _, _, _, _, rfl⟩
  · obtain ⟨⟨b, obj⟩, _, hb⟩ := Option.map_eq_some_iff.mp h
    cases b with
    | true =>
      obtain rfl := hb
      exact ⟨⟨_, _, _, _, _, _, rfl⟩, updateSource_effects _ _ _⟩
    | false =>
      obtain rfl := hb
      exact calm_silent ⟨_, _, _, _, _, _, rfl⟩

/-- what `send` changes -/
theorem send_changes (c : Client) (msg : List UInt8) : ∃ seqnum outq workingMsg,
    (c.send msg).1 = { c with seqnum, outq, workingMsg } ∧
      (∀ qm ∈ outq, qm ∈ c.outq ∨ qm.msgbytes = msg) ∧
      ∀ msg', .enqueue msg' ∈ (c.send msg).2 → msg' = msg := by
  unfold send
  split
  · exact ⟨c.seqnum, c.outq, c.workingMsg, rfl, fun qm h => Or.inl h, fun _ h => by cases h⟩
  · refine ⟨_, _, _, rfl, fun qm h => ?_, fun msg' h => ?_⟩
    · rcases List.mem_append.mp h with h | h
      · exact Or.inl h
      · obtain rfl := List.mem_singleton.mp h
        exact Or.inr rfl
    · exact Effect.enqueue.inj (List.mem_singleton.mp h)

theorem sendWaitingDesc_changes (c : Client) : ∃ mapWaitingForDesc seqnum outq workingMsg,
    (c.sendWaitingDesc H).1 = { c with mapWaitingForDesc, seqnum, outq, workingMsg } := by
  unfold sendWaitingDesc
  split
  · next k p _ _ _ =>
    obtain ⟨_, _, _, he, -⟩ := c.send_changes
      (H.writeSrcDesc c.seqnum.toUInt64 (c.heap p).providerId.toUInt64 (c.heap p).srcRef)
    dsimp only
    rw [he]
    exact ⟨_, _, _, _, rfl⟩
  · exact ⟨_, _, _, _, rfl⟩

theorem sendWaitingCount_changes (c : Client) : ∃ mapWaitingForCount seqnum outq workingMsg,
    (c.sendWaitingCount H).1 = { c with mapWaitingForCount, seqnum, outq, workingMsg } := by
  unfold sendWaitingCount
  split
  · next k p _ _ _ =>
    dsimp only
    split
    · obtain ⟨_, _, _, he, -⟩ := c.send_changes
        (H.writeQuerySrc c.seqnum.toUInt64 (c.heap p).srcRef)
      rw [he]
      exact ⟨_, _, _, _, rfl⟩
    · exact ⟨_, _, _, _, rfl⟩
  · exact ⟨_, _, _, _, rfl⟩

theorem sendFirst_changes (c : Client) (timestamp : UInt32) (rc : Int) :
    ∃ outq qmsgMap, (c.sendFirst timestamp rc).1 = { c with outq, qmsgMap } := by
  unfold sendFirst
  split <;> exact ⟨_, _, rfl⟩

/-- what `sendNextMsg` changes -/
theorem sendNextMsg_changes (c : Client) (timestamp : UInt32) (rc : Int) :
    ∃ mapWaitingForDesc mapWaitingForCount seqnum outq qmsgMap workingMsg,
      (c.sendNextMsg H timestamp rc).1 =
        { c with mapWaitingForDesc, mapWaitingForCount, seqnum, outq, qmsgMap, workingMsg } := by
  obtain ⟨_, _, _, _, h1⟩ := c.sendWaitingDesc_changes (H := H)
  obtain ⟨_, _, _, _, h2⟩ := (c.sendWaitingDesc H).1.sendWaitingCount_changes (H := H)
  obtain ⟨_, _, h3⟩ := ((c.sendWaitingDesc H).1.sendWaitingCount H).1.sendFirst_changes timestamp rc
  show ∃ _ _ _ _ _ _, (((c.sendWaitingDesc H).1.sendWaitingCount H).1.sendFirst timestamp rc).1 = _
  rw [h3, h2, h1]
  exact ⟨_, _, _, _, _, _, rfl⟩

/-- a subscription of the handler -/
def Subscribes (H : NTStatKernelStructHandler) (msg : List UInt8) : Prop :=
  ∃ context, msg = H.writeAddAllTcpSrc context ∨ msg = H.writeAddAllUdpSrc context

/-- only the subscription state, the requests and the error counters change, and only subscriptions
are sent -/
def Resubscribed (H : NTStatKernelStructHandler) (c : Client) (x : Client × List Effect) : Prop :=
  ∃ state seqnum outq numDrops numErrors workingMsg,
    x.1 = { c with state, seqnum, outq, numDrops, numErrors, workingMsg } ∧
      (∀ qm ∈ outq, qm ∈ c.outq ∨ Subscribes H qm.msgbytes) ∧
      ∀ msg, .enqueue msg ∈ x.2 → Subscribes H msg

theorem resubscribed_send (numDrops numErrors : UInt32) (s : ClientState) {msg : List UInt8}
    (hmsg : Subscribes H msg) :
    c.Resubscribed H (send { c with state := s, numDrops, numErrors } msg) := by
  obtain ⟨seqnum, outq, workingMsg, hc, hq, he⟩ :=
    send_changes { c with state := s, numDrops, numErrors } msg
  refine ⟨s, seqnum, outq, numDrops, numErrors, workingMsg, hc, fun qm hm => ?_, fun msg' hm => ?_⟩
  · rcases hq qm hm with h | h
    · exact Or.inl h
    · exact Or.inr (h ▸ hmsg)
  · exact he msg' hm ▸ hmsg

theorem handleState_resubscribed (c : Client) (msg : Mem) (n : Nat) (reqMsg : QMsg) :
    c.Resubscribed H (c.handleState H msg n reqMsg) := by
  have he : ∃ numDrops numErrors,
      (if hdrType msg = .error then c.getAndLogError msg n else (0, c)).2 =
        { c with numDrops, numErrors } := by
    unfold getAndLogError
    dsimp only
    split
    · split
      · exact ⟨_, _, rfl⟩
      · split <;> exact ⟨_, _, rfl⟩
    · exact ⟨_, _, rfl⟩
  unfold handleState
  generalize (if hdrType msg = .error then c.getAndLogError msg n else (0, c)) = e at he ⊢
  obtain ⟨err, c1⟩ := e
  obtain ⟨numDrops, numErrors, rfl⟩ := he
  have hrun : c.Resubscribed H ({ c with numDrops, numErrors } : Client).enterRunningState :=
    ⟨_, _, _, _, _, _, rfl, fun qm h => Or.inl h, fun _ h => by cases h⟩
  have hudp : c.Resubscribed H
      (({ c with numDrops, numErrors } : Client).enterStateRequestUdpSrc H) :=
    resubscribed_send _ _ _ ⟨_, Or.inr rfl⟩
  dsimp only
  split
  · split
    · exact resubscribed_send _ _ _ ⟨_, Or.inl rfl⟩
    · exact hudp
  · split
    · split
      · exact hudp
      · exact hrun
    · exact hrun
  · exact hrun
  · exact hrun

theorem beginRun_resubscribed (c : Client) :
    ({ c with keepRunning := true } : Client).Resubscribed H (c.beginRun H) := by
  unfold beginRun
  dsimp only
  split
  · exact resubscribed_send c.numDrops c.numErrors _ ⟨_, Or.inl rfl⟩
  · exact resubscribed_send c.numDrops c.numErrors _ ⟨_, Or.inr rfl⟩

/-- what configuring sets in a newly constructed client -/
theorem configured_changes (cfg : Config) : ∃ updateIntervalSeconds recordFd recordEnabled,
    configured cfg =
      { wantTcp := cfg.wantTcp, wantUdp := cfg.wantUdp,
        updateIntervalSeconds, recordFd, recordEnabled } ∧
    updateIntervalSeconds = (if cfg.updateIntervalSeconds < 30 then 30
      else cfg.updateIntervalSeconds) ∧ (0 < recordFd → recordEnabled = true) := by
  unfold configured
  cases cfg.recordFd with
  | none => exact ⟨_, 0, false, rfl, rfl, fun h => absurd h (lt_irrefl 0)⟩
  | some fd => exact ⟨_, fd, _, rfl, rfl, fun h => by simp [h]⟩

/-- the client at the loop of `run` is new but for its configuration and its subscription -/
theorem live_resubscribed (H : NTStatKernelStructHandler) (cfg : Config) (fd : Int) :
    ∃ updateIntervalSeconds recordFd recordEnabled,
      Resubscribed H
        { fd, keepRunning := true, wantTcp := cfg.wantTcp, wantUdp := cfg.wantUdp,
          updateIntervalSeconds, recordFd, recordEnabled } (live H cfg fd) ∧
      updateIntervalSeconds = if cfg.updateIntervalSeconds < 30 then 30
        else cfg.updateIntervalSeconds := by
  obtain ⟨i, recordFd, recordEnabled, he, hi, -⟩ := configured_changes cfg
  refine ⟨i, recordFd, recordEnabled, ?_, hi⟩
  unfold live
  rw [he]
  exact beginRun_resubscribed _

/-- what the sweep over the sources changes -/
theorem updateWaitForCountsQueue_changes (now : Time) (c : Client) :
    ∃ heap mapWaitingForCount,
      c.updateWaitForCountsQueue now = { c with heap, mapWaitingForCount } := by
  unfold updateWaitForCountsQueue
  generalize c.map.toList.map Prod.snd = ps
  induction ps generalizing c with
  | nil => exact ⟨_, _, rfl⟩
  | cons p ps ih =>
    obtain ⟨heap, mapWaitingForCount, he⟩ := ih (c.requestCount now p)
    rw [List.foldl_cons, he]
    unfold requestCount
    split <;> exact ⟨_, _, rfl⟩

/-- **A message changes the subscription state, or is calm.** -/
theorem handleResponseMessage_cases {now : Time} {msg : Mem} {n : Nat}
    {x : Int × Client × List Effect} (h : c.handleResponseMessage H now msg n = some x) :
    (c.takeRequest (hdrContext msg)).2.state ≠ .running ∧
        (hdrType msg = .error ∨ hdrType msg = .success) ∧
        x.2 = (c.takeRequest (hdrContext msg)).2.handleState H msg n
          (c.takeRequest (hdrContext msg)).1 ∨
      ((c.takeRequest (hdrContext msg)).2.state ≠ .running →
        hdrType msg ≠ .error ∧ hdrType msg ≠ .success) ∧
        (c.takeRequest (hdrContext msg)).2.Calm x.2 := by
  unfold handleResponseMessage at h
  dsimp only at h
  generalize c.takeRequest (hdrContext msg) = q at h ⊢
  split at h
  · next hs =>
    obtain rfl := Option.some.inj h
    exact Or.inl ⟨hs.1, hs.2, rfl⟩
  · next hs =>
    refine Or.inr ⟨fun hr => not_or.mp fun ht => hs ⟨hr, ht⟩, ?_⟩
    split at h
    · obtain rfl := Option.some.inj h
      exact calm_handleSrcAdded _ _ _ _
    · obtain rfl := Option.some.inj h
      exact calm_handleSrcRemoved _ _ _
    · obtain ⟨y, hy, rfl⟩ := Option.map_eq_some_iff.mp h
      exact calm_handleSrcDesc hy
    · obtain rfl := Option.some.inj h
      exact calm_handleSrcCounts _ _ _ _ _
    · obtain rfl := Option.some.inj h
      exact calm_silent ⟨_, _, _, _, _, _, rfl⟩
    · obtain rfl := Option.some.inj h
      exact calm_getAndLogError _ _ _
    · obtain rfl := Option.some.inj h
      exact calm_silent ⟨_, _, _, _, _, _, rfl⟩

/-! ## with a queue that is not empty -/

theorem sendWaitingDesc_of_outq (c : Client) (h : c.outq ≠ []) :
    c.sendWaitingDesc H = (c, []) := by
  unfold sendWaitingDesc
  split
  · next h0 _ => exact absurd h0 h
  · rfl

theorem sendWaitingCount_of_outq (c : Client) (h : c.outq ≠ []) :
    c.sendWaitingCount H = (c, []) := by
  unfold sendWaitingCount
  split
  · next h0 _ => exact absurd h0 h
  · rfl

section
variable {k : UInt64} {p : Ptr} {rest : List (UInt64 × Ptr)}

theorem send_live (hl : c.inReplayMode = false) (msg : List UInt8) :
    ∃ qm workingMsg, c.send msg = ({ c with
      seqnum := c.seqnum + 1
      outq := c.outq ++ [qm]
      workingMsg }, [.enqueue msg]) ∧ qm.msgbytes = msg := by
  unfold send
  rw [if_neg (by simp [hl])]
  exact ⟨_, _, rfl, rfl⟩

/-- the first source that waits is asked about -/
theorem sendWaitingDesc_asks (hl : c.inReplayMode = false) (ho : c.outq = [])
    (hd : c.mapWaitingForDesc.toList = (k, p) :: rest) :
    ∃ qm workingMsg, c.sendWaitingDesc H = ({ c with
      seqnum := c.seqnum + 1
      outq := [qm]
      workingMsg
      mapWaitingForDesc := c.mapWaitingForDesc.erase k }, [.enqueue qm.msgbytes]) ∧
    qm.msgbytes =
      H.writeSrcDesc c.seqnum.toUInt64 (c.heap p).providerId.toUInt64 (c.heap p).srcRef := by
  obtain ⟨qm, workingMsg, hs, hb⟩ := send_live hl
    (H.writeSrcDesc c.seqnum.toUInt64 (c.heap p).providerId.toUInt64 (c.heap p).srcRef)
  refine ⟨qm, workingMsg, ?_, hb⟩
  unfold sendWaitingDesc
  simp only [ho, hd, hs, hb, List.nil_append]

theorem sendWaitingDesc_idle (hd : c.mapWaitingForDesc.toList = []) :
    c.sendWaitingDesc H = (c, []) := by
  unfold sendWaitingDesc
  split
  · next h0 => exact absurd (h0.symm.trans hd) (List.cons_ne_nil _ _)
  · rfl

/-- the counts of the first source that waits are asked for -/
theorem sendWaitingCount_asks (hl : c.inReplayMode = false) (ho : c.outq = [])
    (hn : c.mapWaitingForCount.toList = (k, p) :: rest)
    (hw : ((c.heap p).tsRemoved == 0 && (c.heap p).requestedCount) = true) :
    ∃ qm workingMsg, c.sendWaitingCount H = ({ c with
      seqnum := c.seqnum + 1
      outq := [qm]
      workingMsg
      mapWaitingForCount := c.mapWaitingForCount.erase k }, [.enqueue qm.msgbytes]) ∧
    qm.msgbytes = H.writeQuerySrc c.seqnum.toUInt64 (c.heap p).srcRef := by
  obtain ⟨qm, workingMsg, hs, hb⟩ := send_live hl
    (H.writeQuerySrc c.seqnum.toUInt64 (c.heap p).srcRef)
  refine ⟨qm, workingMsg, ?_, hb⟩
  unfold sendWaitingCount
  simp only [ho, hn, hw, if_true, hs, hb, List.nil_append]

/-- a source whose counts are no longer wanted is passed over -/
theorem sendWaitingCount_stale (ho : c.outq = [])
    (hn : c.mapWaitingForCount.toList = (k, p) :: rest)
    (hw : ¬ ((c.heap p).tsRemoved == 0 && (c.heap p).requestedCount) = true) :
    c.sendWaitingCount H =
      ({ c with mapWaitingForCount := c.mapWaitingForCount.erase k }, []) := by
  unfold sendWaitingCount
  simp only [ho, hn, hw, if_false, Bool.false_eq_true]

theorem sendWaitingCount_idle (hn : c.mapWaitingForCount.toList = []) :
    c.sendWaitingCount H = (c, []) := by
  unfold sendWaitingCount
  split
  · next h0 => exact absurd (h0.symm.trans hn) (List.cons_ne_nil _ _)
  · rfl

theorem sendFirst_nil (ho : c.outq = []) (timestamp : UInt32) (rc : Int) :
    c.sendFirst timestamp rc = (c, []) := by
  unfold sendFirst
  simp only [ho]

theorem sendFirst_cons {qm : QMsg} {outq : List QMsg} (ho : c.outq = qm :: outq)
    (timestamp : UInt32) (rc : Int) : c.sendFirst timestamp rc =
      ({ c with qmsgMap := c.qmsgMap.insert qm.seqnum qm, outq },
        c.record timestamp qm.msgbytes ++ [.socketWrite qm.msgbytes]) := by
  unfold sendFirst
  rw [ho]
  rfl

end

/-! ## the operations -/

namespace Composed
variable {Q : Client → Client × List Effect → Prop} (hQ : Composed H Q)
include hQ

/-- a still step before an operation -/
theorem after (c' : Client) {x : Client × List Effect} (h : c.Still (c', [])) (hx : Q c' x) :
    Q c x := hQ.trans (hQ.still h) hx

/-- a still step after an operation -/
theorem before {c' : Client} {x : Client × List Effect} (hx : Q c x) (h : x.1.Still (c', [])) :
    Q c (c', x.2) := by
  have := hQ.trans hx (hQ.still h)
  rwa [List.append_nil] at this

theorem enterStateRequestUdpSrc (c : Client) : Q c (c.enterStateRequestUdpSrc H) :=
  hQ.after { c with state := .requestUdpSrc } (still_silent rfl rfl rfl rfl rfl)
    (hQ.send .addAllUdp)

theorem enterStateRequestTcpSrc (c : Client) : Q c (c.enterStateRequestTcpSrc H) :=
  hQ.after { c with state := .requestTcpSrc } (still_silent rfl rfl rfl rfl rfl)
    (hQ.send .addAllTcp)

theorem enterRunningState (c : Client) : Q c c.enterRunningState :=
  hQ.still (still_silent rfl rfl rfl rfl rfl)

theorem handleState (c : Client) (msg : Mem) (n : Nat) (reqMsg : QMsg) :
    Q c (c.handleState H msg n reqMsg) := by
  have he : c.Still ((if hdrType msg = .error then c.getAndLogError msg n else (0, c)).2, []) := by
    split
    · exact (calm_getAndLogError c msg n).still
    · exact still_silent rfl rfl rfl rfl rfl
  unfold Client.handleState
  generalize (if hdrType msg = .error then c.getAndLogError msg n else (0, c)) = e at he ⊢
  refine hQ.after _ he ?_
  dsimp only
  split
  · split
    · exact hQ.enterStateRequestTcpSrc _
    · exact hQ.enterStateRequestUdpSrc _
  · split
    · split
      · exact hQ.enterStateRequestUdpSrc _
      · exact hQ.enterRunningState _
    · exact hQ.enterRunningState _
  · exact hQ.enterRunningState _
  · exact hQ.enterRunningState _

theorem handleResponseMessage {now : Time} {msg : Mem} {n : Nat}
    {x : Int × Client × List Effect} (h : c.handleResponseMessage H now msg n = some x) :
    Q c x.2 := by
  refine hQ.after _ (still_takeRequest c (hdrContext msg)) ?_
  rcases handleResponseMessage_cases h with ⟨-, -, he⟩ | ⟨-, hs⟩
  · rw [he]
    exact hQ.handleState _ _ _ _
  · exact hQ.still hs.still

theorem updateWaitForCountsQueue (now : Time) (c : Client) :
    Q c (c.updateWaitForCountsQueue now, []) := by
  obtain ⟨_, _, he⟩ := c.updateWaitForCountsQueue_changes now
  rw [he]
  exact hQ.still (still_silent rfl rfl rfl rfl rfl)

theorem removeOldSources (now : Time) (c : Client) : Q c (c.removeOldSources now, []) :=
  hQ.still (still_silent rfl rfl rfl rfl rfl)

theorem sendWaitingDesc (c : Client) : Q c (c.sendWaitingDesc H) := by
  unfold Client.sendWaitingDesc
  split
  · exact hQ.before (hQ.send (.srcDesc _ _)) (still_silent rfl rfl rfl rfl rfl)
  · exact hQ.still (still_silent rfl rfl rfl rfl rfl)

theorem sendWaitingCount (c : Client) : Q c (c.sendWaitingCount H) := by
  unfold Client.sendWaitingCount
  split
  · refine hQ.before ?_ (still_silent rfl rfl rfl rfl rfl)
    split
    · exact hQ.send (.querySrc _)
    · exact hQ.still (still_silent rfl rfl rfl rfl rfl)
  · exact hQ.still (still_silent rfl rfl rfl rfl rfl)

/-- the start of `run` -/
theorem beginRun (c : Client) : Q c (c.beginRun H) := by
  refine hQ.after { c with keepRunning := true } (still_silent rfl rfl rfl rfl rfl) ?_
  unfold Client.beginRun
  dsimp only
  split
  · exact hQ.enterStateRequestTcpSrc _
  · exact hQ.enterStateRequestUdpSrc _

end Composed

end Client

/-! ## steps -/

/-- the ways of a step -/
inductive Turn (H : NTStatKernelStructHandler) (c : Client) : Step → Client → List Effect → Prop
  | nothing {now timestamp buf n} (hn : n ≤ 0) :
    Turn H c (.readNextMessage now timestamp buf n) c []
  | message {now timestamp buf n x} (hn : 0 < n)
    (hx : c.handleResponseMessage H now buf n.toNat = some x) :
    Turn H c (.readNextMessage now timestamp buf n) x.2.1
      (c.record timestamp (buf.take n.toNat) ++ x.2.2)
  | updateWaitForCountsQueue (now : Time) :
    Turn H c (.updateWaitForCountsQueue now) (c.updateWaitForCountsQueue now) []
  | removeOldSources (now : Time) : Turn H c (.removeOldSources now) (c.removeOldSources now) []
  | sendNextMsg (timestamp : UInt32) (rc : Int) :
    Turn H c (.sendNextMsg timestamp rc) (c.sendNextMsg H timestamp rc).1
      (c.sendNextMsg H timestamp rc).2

theorem turn_of_step {H : NTStatKernelStructHandler} {c c' : Client} {st : Step}
    {effs : List Effect} (h : step H c st = some (c', effs)) : Turn H c st c' effs := by
  cases st with
  | readNextMessage now timestamp buf n =>
    unfold step Client.readNextMessage at h
    dsimp only at h
    split at h
    · next hn =>
      obtain ⟨rfl, rfl⟩ := Prod.mk.inj (Option.some.inj h)
      exact .nothing hn
    · next hn =>
      obtain ⟨x, hx, hy⟩ := Option.map_eq_some_iff.mp h
      obtain ⟨rfl, rfl⟩ := Prod.mk.inj hy
      exact .message (Int.not_le.mp hn) hx
  | updateWaitForCountsQueue now =>
    obtain ⟨rfl, rfl⟩ := Prod.mk.inj (Option.some.inj h)
    exact .updateWaitForCountsQueue now
  | removeOldSources now =>
    obtain ⟨rfl, rfl⟩ := Prod.mk.inj (Option.some.inj h)
    exact .removeOldSources now
  | sendNextMsg timestamp rc =>
    have ht : Turn H c (.sendNextMsg timestamp rc) _ _ := .sendNextMsg timestamp rc
    rwa [Option.some.inj h] at ht

end Ntstat
