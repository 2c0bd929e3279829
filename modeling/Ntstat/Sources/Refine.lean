import Ntstat.Client.Handle
import Ntstat.Kernel.Decode
import Ntstat.Sources.Tracker

/-!
# The client refines the source tracker

`Client.sources` forgets everything of a client but its sources, `Effect.shown` everything but the
calls of the listener, and `Step.input` decodes a step.

* `step_refines`   a step of the client is the step of the tracker on the decoded input, and has a
                   result exactly when that one has;
* `run_refines`    the same for runs.

Subscription state, queues, requests, recording, error counters and the sends have no part in it.
-/

namespace Ntstat
open Memory Std Machine

def Client.sources (c : Client) : Sources where
  heap := c.heap
  next := c.next
  map r := c.map[r]?

def Effect.shown : Effect → Option Shown
  | notify cb p stream => some (p, cb, stream)
  | _ => none

/-- what the message means to the sources -/
def messageInput (H : NTStatKernelStructHandler) (now : Time) (msg : Mem) (numBytes : Nat) :
    Input :=
  let r := H.getSrcRef msg numBytes (0, 0)
  match hdrType msg with
  | .srcAdded => .added now r.1 r.2
  | .srcRemoved => .message r.1 (.removed now)
  | .srcDesc => .message r.1 (.desc (H.readSrcDesc msg numBytes))
  | .srcCounts => .message r.1 (.counts now (H.readCounts msg numBytes))
  | _ => .other

def Step.input (H : NTStatKernelStructHandler) : Step → Input
  | readNextMessage now _ buf numBytes =>
    if numBytes ≤ 0 then .other else messageInput H now buf numBytes.toNat
  | updateWaitForCountsQueue now => .requestCounts now
  | removeOldSources now => .evict now
  | sendNextMsg _ _ => .other

/-- the projection of a client and the effects of its step -/
def refines (x : Client × List Effect) : Sources × List Shown :=
  (x.1.sources, x.2.filterMap Effect.shown)

/-! ## operations that leave the sources alone -/

namespace Client
variable (H : NTStatKernelStructHandler) (c : Client)

/-- `x` has the sources of `c` and tells the listener nothing -/
def Quiet (x : Client × List Effect) : Prop := refines x = (c.sources, [])

variable {c}

theorem quiet_self : c.Quiet (c, []) := rfl

theorem Quiet.trans {x y : Client × List Effect} (hx : c.Quiet x) (hy : x.1.Quiet y) :
    c.Quiet (y.1, x.2 ++ y.2) := by
  obtain ⟨h1, h2⟩ := Prod.mk.inj hx
  obtain ⟨h3, h4⟩ := Prod.mk.inj hy
  show (y.1.sources, (x.2 ++ y.2).filterMap Effect.shown) = _
  rw [List.filterMap_append, h2, h4, h3, h1, List.nil_append]

theorem quiet_send (msg : List UInt8) : c.Quiet (c.send msg) := by
  unfold send
  split <;> rfl

theorem quiet_record (timestamp : UInt32) (data : List UInt8) :
    (c.record timestamp data).filterMap Effect.shown = [] := by
  unfold record
  split <;> rfl

theorem quiet_sendQMsg (qm : QMsg) (timestamp : UInt32) (rc : Int) :
    c.Quiet (c.sendQMsg qm timestamp rc).2 := by
  show (_, List.filterMap Effect.shown (_ ++ _)) = _
  rw [List.filterMap_append, quiet_record]
  rfl

theorem quiet_enterStateRequestUdpSrc : c.Quiet (c.enterStateRequestUdpSrc H) :=
  quiet_send (c := { c with state := .requestUdpSrc }) _

theorem quiet_enterStateRequestTcpSrc : c.Quiet (c.enterStateRequestTcpSrc H) :=
  quiet_send (c := { c with state := .requestTcpSrc }) _

theorem quiet_enterRunningState : c.Quiet c.enterRunningState := rfl

theorem quiet_beginRun : c.Quiet (c.beginRun H) := by
  unfold beginRun
  dsimp only
  split
  · exact quiet_enterStateRequestTcpSrc (c := { c with keepRunning := true }) H
  · exact quiet_enterStateRequestUdpSrc (c := { c with keepRunning := true }) H

@[simp] theorem takeRequest_sources (context : UInt64) :
    (c.takeRequest context).2.sources = c.sources := by
  unfold takeRequest
  split <;> rfl

@[simp] theorem getAndLogError_sources (msg : Mem) (n : Nat) :
    (c.getAndLogError msg n).2.sources = c.sources := by
  unfold getAndLogError
  dsimp only
  split
  · rfl
  · split <;> rfl

theorem quiet_handleState (msg : Mem) (n : Nat) (reqMsg : QMsg) :
    c.Quiet (c.handleState H msg n reqMsg) := by
  have he : (if hdrType msg = .error then c.getAndLogError msg n else (0, c)).2.sources
      = c.sources := by
    split
    · exact getAndLogError_sources msg n
    · rfl
  unfold handleState Quiet
  rw [← he]
  generalize (if hdrType msg = .error then c.getAndLogError msg n else (0, c)) = e
  dsimp only
  split
  · split
    · exact quiet_enterStateRequestTcpSrc H
    · exact quiet_enterStateRequestUdpSrc H
  · split
    · split
      · exact quiet_enterStateRequestUdpSrc H
      · exact quiet_enterRunningState
    · exact quiet_enterRunningState
  · exact quiet_enterRunningState
  · exact quiet_enterRunningState

theorem quiet_sendWaitingDesc : c.Quiet (c.sendWaitingDesc H) := by
  unfold sendWaitingDesc
  split
  · exact quiet_send _
  · exact quiet_self

theorem quiet_sendWaitingCount : c.Quiet (c.sendWaitingCount H) := by
  unfold sendWaitingCount
  split
  · dsimp only
    split
    · exact quiet_send _
    · exact quiet_self
  · exact quiet_self

theorem quiet_sendFirst (timestamp : UInt32) (rc : Int) : c.Quiet (c.sendFirst timestamp rc) := by
  unfold sendFirst
  split
  · exact quiet_self
  · exact quiet_sendQMsg _ _ rc

theorem quiet_sendNextMsg (timestamp : UInt32) (rc : Int) :
    c.Quiet (c.sendNextMsg H timestamp rc) :=
  ((quiet_sendWaitingDesc H).trans (quiet_sendWaitingCount H)).trans (quiet_sendFirst _ _)

/-! ## the operations on sources -/

theorem map_sources (r : UInt64) : c.sources.map r = c.map[r]? := rfl
theorem heap_sources (p : Ptr) : c.sources.heap p = c.heap p := rfl

theorem newSource_sources (now : Time) (r : UInt64) (prov : UInt32) :
    (c.newSource now r prov).2.sources =
      { heap := Function.update c.sources.heap c.sources.next (.fresh now r prov)
        next := c.sources.next + 1
        map := Function.update c.sources.map r (some c.sources.next) } := by
  unfold newSource sources
  congr 1
  funext k
  rw [ExtTreeMap.getElem?_insert, Function.update_apply]
  by_cases h : k = r
  · simp [h]
  · have h' : r ≠ k := fun e => h e.symm
    simp [h, h']

theorem resetSource_refines (now : Time) (r : UInt64) (prov : UInt32) :
    some ((c.resetSource now r prov).2.sources, []) = c.sources.step (.added now r prov) := by
  unfold resetSource
  cases hr : c.map[r]? with
  | none =>
    have hv : c.sources.Vacant r := fun p hp => by rw [map_sources, hr] at hp; cases hp
    rw [Sources.step_added_vacant c.sources hv, newSource_sources]
  | some p =>
    dsimp only
    split
    · next ht =>
      have hv : c.sources.Vacant r := fun q hq => by
        rw [map_sources, hr] at hq
        obtain rfl := Option.some.inj hq
        exact ht
      rw [Sources.step_added_vacant c.sources hv, newSource_sources]
      congr 3
      funext k
      show Function.update (fun k => (c.map.erase r)[k]?) r (some c.next) k = _
      rw [Function.update_apply, Function.update_apply, ExtTreeMap.getElem?_erase]
      by_cases h : k = r
      · simp [h, sources]
      · have h' : r ≠ k := fun e => h e.symm
        simp [h, h', sources]
    · next ht =>
      have hv : ¬ c.sources.Vacant r := fun hv => ht (hv p hr)
      rw [Sources.step_added_known c.sources hv]

theorem handleSrcAdded_refines (now : Time) (r : UInt64) (prov : UInt32) :
    some (refines (c.handleSrcAdded now r prov, [])) = c.sources.step (.added now r prov) := by
  rw [← resetSource_refines]
  unfold handleSrcAdded refines
  dsimp only
  split <;> rfl

theorem updateSource_refines (p : Ptr) (r : NetstatSource × List (Callback × NTStatStream)) :
    refines (c.updateSource p r) =
      ({ c.sources with heap := Function.update c.sources.heap p r.1 },
        r.2.map fun x => (p, x)) := by
  unfold updateSource refines
  refine Prod.ext rfl ?_
  simp only [List.filterMap_map]
  induction r.2 with
  | nil => rfl
  | cons x xs ih => simpa [Effect.shown] using ih

theorem handleSrcRemoved_refines (now : Time) (r : UInt64) :
    some (refines (c.handleSrcRemoved now r)) = c.sources.step (.message r (.removed now)) := by
  unfold handleSrcRemoved lookupSource
  cases hm : c.map[r]? with
  | none => exact (Sources.step_message_none c.sources _ hm).symm
  | some p =>
    rw [Sources.step_message_some c.sources _ hm]
    exact congrArg some (updateSource_refines p _)

theorem handleSrcDesc_refines (msg : Mem) (n : Nat) (r : UInt64) :
    (c.handleSrcDesc H msg n r).map refines =
      c.sources.step (.message r (.desc (H.readSrcDesc msg n))) := by
  unfold handleSrcDesc lookupSource
  cases hm : c.map[r]? with
  | none => exact (Sources.step_message_none c.sources _ hm).symm
  | some p =>
    rw [Sources.step_message_some c.sources _ hm, heap_sources]
    unfold SrcEvent.apply
    dsimp only
    cases H.readSrcDesc msg n (c.heap p).obj with
    | none => rfl
    | some x =>
      obtain ⟨b, obj⟩ := x
      cases b with
      | true => exact congrArg some (updateSource_refines p _)
      | false => rfl

theorem handleSrcCounts_refines (now : Time) (msg : Mem) (n : Nat) (r : UInt64) :
    some (refines (c.handleSrcCounts H now msg n r)) =
      c.sources.step (.message r (.counts now (H.readCounts msg n))) := by
  unfold handleSrcCounts lookupSource
  cases hm : c.map[r]? with
  | none => exact (Sources.step_message_none c.sources _ hm).symm
  | some p =>
    rw [Sources.step_message_some c.sources _ hm]
    exact congrArg some (updateSource_refines p _)

/-- **The message handler refines the tracker.** -/
theorem handleResponseMessage_refines (now : Time) (msg : Mem) (n : Nat) :
    (c.handleResponseMessage H now msg n).map (fun x => refines x.2) =
      c.sources.step (messageInput H now msg n) := by
  rw [← takeRequest_sources (c := c) (hdrContext msg)]
  unfold handleResponseMessage messageInput
  generalize c.takeRequest (hdrContext msg) = q
  dsimp only
  split
  · next hs =>
    have hq : some (refines (q.2.handleState H msg n q.1)) = q.2.sources.step .other :=
      congrArg some (quiet_handleState H msg n q.1)
    rcases hs.2 with ht | ht <;> simpa [ht] using hq
  · cases hdrType msg with
    | srcAdded => exact handleSrcAdded_refines now _ _
    | srcRemoved => exact handleSrcRemoved_refines now _
    | srcDesc =>
      dsimp only
      rw [← handleSrcDesc_refines, Option.map_map]
      rfl
    | srcCounts => exact handleSrcCounts_refines H now msg n _
    | error =>
      have he : some ((q.2.getAndLogError msg n).2.sources, ([] : List Shown))
          = q.2.sources.step .other := by
        rw [getAndLogError_sources]
        rfl
      exact he
    | _ => rfl

/-! ## the sweeps -/

theorem removeOldSources_refines (now : Time) :
    some (refines (c.removeOldSources now, [])) = c.sources.step (.evict now) := by
  refine congrArg some (Prod.ext ?_ rfl)
  unfold refines removeOldSources sources Sources.dropExpired
  dsimp only
  congr 1
  funext r
  exact ExtTreeMap.getElem?_filter'

theorem requestCount_heap (now : Time) (p q : Ptr) : (c.requestCount now p).heap q =
    if q = p ∧ (c.heap q).wantsCount now then (c.heap q).marked else c.heap q := by
  unfold requestCount
  by_cases hq : q = p
  · subst hq
    split
    · next h => simp [setSource, h, NetstatSource.marked]
    · next h => simp [h]
  · split <;> simp [setSource, hq]

theorem requestCount_keeps (now : Time) (p : Ptr) :
    (c.requestCount now p).next = c.next ∧ (c.requestCount now p).map = c.map := by
  unfold requestCount
  split <;> exact ⟨rfl, rfl⟩

/-- the loop marks every source of the list that wants counts -/
theorem requestCounts_heap (now : Time) (ps : List Ptr) (q : Ptr) :
    (ps.foldl (requestCount now) c).heap q =
      if q ∈ ps ∧ (c.heap q).wantsCount now then (c.heap q).marked else c.heap q := by
  induction ps generalizing c with
  | nil => simp
  | cons p ps ih =>
    rw [List.foldl_cons, ih, requestCount_heap]
    by_cases hw : (c.heap q).wantsCount now = true
    · by_cases hp : q = p <;> by_cases hm : q ∈ ps <;> simp_all
    · simp [hw]

theorem requestCounts_keeps (now : Time) (ps : List Ptr) :
    (ps.foldl (requestCount now) c).next = c.next ∧
      (ps.foldl (requestCount now) c).map = c.map := by
  induction ps generalizing c with
  | nil => exact ⟨rfl, rfl⟩
  | cons p ps ih =>
    obtain ⟨h1, h2⟩ := ih (c := c.requestCount now p)
    obtain ⟨h3, h4⟩ := requestCount_keeps (c := c) now p
    exact ⟨h1.trans h3, h2.trans h4⟩

theorem mem_mapped {p : Ptr} : p ∈ c.map.toList.map Prod.snd ↔ c.sources.InMap p := by
  rw [List.mem_map]
  constructor
  · intro hex
    obtain ⟨⟨r, q⟩, hm, rfl⟩ := hex
    exact ⟨r, ExtTreeMap.mem_toList_iff_getElem?_eq_some.mp hm⟩
  · intro hex
    obtain ⟨r, hr⟩ := hex
    exact ⟨(r, p), ExtTreeMap.mem_toList_iff_getElem?_eq_some.mpr hr, rfl⟩

theorem updateWaitForCountsQueue_refines (now : Time) :
    some (refines (c.updateWaitForCountsQueue now, []))
      = c.sources.step (.requestCounts now) := by
  refine congrArg some (Prod.ext ?_ rfl)
  obtain ⟨h1, h2⟩ := requestCounts_keeps (c := c) now (c.map.toList.map Prod.snd)
  show Client.sources ((c.map.toList.map Prod.snd).foldl (requestCount now) c) = _
  unfold sources Sources.markAll
  rw [h1, h2]
  congr 1
  funext q
  rw [requestCounts_heap]
  by_cases hq : q ∈ c.map.toList.map Prod.snd ∧ (c.heap q).wantsCount now = true
  · rw [if_pos hq]
    exact (if_pos ⟨mem_mapped.mp hq.1, hq.2⟩).symm
  · rw [if_neg hq]
    exact (if_neg fun h => hq ⟨mem_mapped.mpr h.1, h.2⟩).symm

end Client

/-! ## the start -/

theorem configured_sources (cfg : Config) : (Client.configured cfg).sources = {} := by
  have h0 : ∀ c : Client, c.heap = (fun _ => .blank) → c.next = 0 → c.map = ∅ →
      c.sources = {} := by
    intro c h1 h2 h3
    unfold Client.sources
    rw [h1, h2, h3]
    rfl
  unfold Client.configured
  cases cfg.recordFd <;> exact h0 _ rfl rfl rfl

theorem live_sources (H : NTStatKernelStructHandler) (cfg : Config) (fd : Int) :
    (Client.live H cfg fd).1.sources = {} := by
  obtain ⟨hs, -⟩ := Prod.mk.inj
    (Client.quiet_beginRun (c := (Client.configured cfg).connectToKernel fd) H)
  exact hs.trans (configured_sources cfg)

/-! ## steps and runs -/

variable {H : NTStatKernelStructHandler}

/-- **A step of the client is the step of the tracker on its decoded input.** -/
theorem step_refines (c : Client) (st : Step) :
    (step H c st).map (fun x => (x.1.sources, x.2.filterMap Effect.shown)) =
      c.sources.step (st.input H) := by
  cases st with
  | readNextMessage now timestamp buf n =>
    unfold step Client.readNextMessage Step.input
    dsimp only
    split
    · rfl
    · rw [← Client.handleResponseMessage_refines, Option.map_map]
      congr 1
      funext x
      simp [refines, Client.quiet_record]
  | updateWaitForCountsQueue now => exact Client.updateWaitForCountsQueue_refines now
  | removeOldSources now => exact Client.removeOldSources_refines now
  | sendNextMsg timestamp rc => exact congrArg some (Client.quiet_sendNextMsg H timestamp rc)

/-- **A run of the client is the run of the tracker on the decoded inputs.** -/
theorem run_refines (c : Client) (steps : List Step) :
    (exec (step H) c steps).map (fun x => (x.1.sources, x.2.filterMap Effect.shown)) =
      exec Sources.step c.sources (steps.map (Step.input H)) :=
  exec_map step_refines c steps

theorem sources_of_step {c c' : Client} {st : Step} {effs : List Effect}
    (h : step H c st = some (c', effs)) :
    c.sources.step (st.input H) = some (c'.sources, effs.filterMap Effect.shown) := by
  rw [← step_refines, h, Option.map_some]

theorem sources_of_run {c c' : Client} {steps : List Step} {effs : List Effect}
    (h : exec (step H) c steps = some (c', effs)) :
    exec Sources.step c.sources (steps.map (Step.input H))
      = some (c'.sources, effs.filterMap Effect.shown) := by
  rw [← run_refines, h, Option.map_some]

theorem input_lawful (hH : H.Lawful) (st : Step) : (st.input H).Lawful := by
  cases st with
  | readNextMessage now timestamp buf n =>
    unfold Step.input
    dsimp only
    split
    · trivial
    · unfold messageInput
      dsimp only
      split <;> try trivial
      exact fun obj b obj' h => ⟨hH.keepsId h, fun hb => hH.rejected (hb ▸ h)⟩
  | _ => trivial

theorem step_of_sources {c : Client} {st : Step} {s' : Sources} {shown : List Shown}
    (h : c.sources.step (st.input H) = some (s', shown)) :
    ∃ c' effs, step H c st = some (c', effs) ∧ c'.sources = s' ∧
      effs.filterMap Effect.shown = shown := by
  rw [← step_refines] at h
  obtain ⟨⟨c', effs⟩, h1, h2⟩ := Option.map_eq_some_iff.mp h
  obtain ⟨h3, h4⟩ := Prod.mk.inj h2
  exact ⟨c', effs, h1, h3, h4⟩

end Ntstat
