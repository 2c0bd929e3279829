import Ntstat.Client.Wire
import Ntstat.Sources.Refine
import Ntstat.Sources.Waiting

/-!
# The sources that wait for a request

`_mapWaitingForDesc` and `_mapWaitingForCount` hold the sources that a GET_SRC_DESC or QUERY_SRC is
to be sent for.

* `handleResponseMessage_waiting`   what a message does to both maps;
* `updateWaitForCountsQueue_waiting`   what the sweep does to them;
* `Sends`, `sends_sendNextMsg`   the ways in which `sendNextMsg` asks and sends.
-/

namespace Ntstat
open Memory Machine Std

namespace Client
variable {c : Client}

/-! ## messages -/

theorem resetSource_found (c : Client) (now : Time) (r : UInt64) (prov : UInt32) :
    (c.resetSource now r prov).2.map[r]? = some (c.resetSource now r prov).1 ∧
      (c.resetSource now r prov).2.mapWaitingForDesc = c.mapWaitingForDesc := by
  unfold resetSource
  split
  · next p hr =>
    split
    · exact ⟨by simp [newSource], rfl⟩
    · exact ⟨hr, rfl⟩
  · exact ⟨by simp [newSource], rfl⟩

theorem handleSrcAdded_waiting (hc : c.sources.Coherent) (now : Time) (r : UInt64) (prov : UInt32)
    (k : UInt64) : (c.handleSrcAdded now r prov).mapWaitingForDesc[k]? =
      c.sources.waitsDesc (c.handleSrcAdded now r prov).sources (.added now r prov) k
        c.mapWaitingForDesc[k]? := by
  obtain ⟨h1, h2⟩ := c.resetSource_found now r prov
  have hc' : (c.resetSource now r prov).2.sources.Coherent :=
    Sources.step_coherent (i := .added now r prov) hc trivial (resetSource_refines now r prov).symm
  have hsrc : (c.handleSrcAdded now r prov).sources = (c.resetSource now r prov).2.sources := by
    unfold handleSrcAdded
    dsimp only
    split <;> rfl
  rw [hsrc]
  unfold Sources.waitsDesc handleSrcAdded
  dsimp only
  generalize c.resetSource now r prov = x at h1 h2 hc'
  have hr : (x.2.heap x.1).srcRef = r := hc'.srcRef h1
  rw [map_sources, h1, Option.filter_some, heap_sources]
  cases hd : (x.2.heap x.1).haveDesc with
  | true => simp [h2]
  | false =>
    simp only [Bool.not_false, if_true, Option.some_or]
    unfold addToWaitingForDescQueue
    rw [hr, ExtTreeMap.getElem?_insert, h2]
    by_cases he : k = r
    · simp [he]
    · have he' : r ≠ k := fun h => he h.symm
      simp [he, he']

/-- a source that is found is taken off the wait under its reference -/
theorem waiting_erased (hc : c.sources.Coherent) {r : UInt64} {p : Ptr} (hr : c.map[r]? = some p)
    (k : UInt64) : (c.removeFromWaitingForDescQueue p).mapWaitingForDesc[k]? =
      if k = r then none else c.mapWaitingForDesc[k]? := by
  have hp : (c.heap p).srcRef = r := hc.srcRef hr
  unfold removeFromWaitingForDescQueue
  rw [hp, ExtTreeMap.getElem?_erase]
  by_cases he : k = r
  · simp [he]
  · have he' : r ≠ k := fun h => he h.symm
    simp [he, he']

theorem handleSrcRemoved_waiting (hc : c.sources.Coherent) (now : Time) (r : UInt64) (k : UInt64) :
    (c.handleSrcRemoved now r).1.mapWaitingForDesc[k]? =
      if k = r ∧ c.map[r]?.isSome then none else c.mapWaitingForDesc[k]? := by
  unfold handleSrcRemoved lookupSource
  cases hr : c.map[r]? with
  | none => simp
  | some p =>
    refine (waiting_erased hc hr k).trans ?_
    simp

theorem handleSrcDesc_waiting {H : NTStatKernelStructHandler} (hc : c.sources.Coherent) {msg : Mem}
    {n : Nat} {r : UInt64} {x : Client × List Effect} (h : c.handleSrcDesc H msg n r = some x)
    (k : UInt64) : x.1.mapWaitingForDesc[k]? =
      if k = r ∧ c.map[r]?.isSome then none else c.mapWaitingForDesc[k]? := by
  unfold handleSrcDesc lookupSource at h
  cases hr : c.map[r]? with
  | none =>
    rw [hr] at h
    obtain rfl := Option.some.inj h
    simp
  | some p =>
    rw [hr] at h
    obtain ⟨⟨b, obj⟩, -, hb⟩ := Option.map_eq_some_iff.mp h
    have he := waiting_erased hc hr k
    cases b with
    | true =>
      obtain rfl := hb
      refine he.trans ?_
      simp
    | false =>
      obtain rfl := hb
      refine he.trans ?_
      simp

theorem handleState_waiting {H : NTStatKernelStructHandler} (c : Client) (msg : Mem) (n : Nat)
    (reqMsg : QMsg) :
    (c.handleState H msg n reqMsg).1.mapWaitingForDesc = c.mapWaitingForDesc ∧
      (c.handleState H msg n reqMsg).1.mapWaitingForCount = c.mapWaitingForCount := by
  obtain ⟨_, _, _, _, _, _, he, -⟩ := handleState_resubscribed (H := H) c msg n reqMsg
  rw [he]
  exact ⟨rfl, rfl⟩

/-- **What a message does to the waiting sources.** -/
theorem handleResponseMessage_waiting {H : NTStatKernelStructHandler} (hc : c.sources.Coherent)
    {now : Time} {msg : Mem} {n : Nat} {x : Int × Client × List Effect}
    (h : c.handleResponseMessage H now msg n = some x) :
    x.2.1.mapWaitingForCount = c.mapWaitingForCount ∧
      ∀ k, x.2.1.mapWaitingForDesc[k]? =
        c.sources.waitsDesc x.2.1.sources (messageInput H now msg n) k c.mapWaitingForDesc[k]? := by
  have hq : ∃ m : ExtTreeMap UInt64 QMsg,
      (c.takeRequest (hdrContext msg)).2 = { c with qmsgMap := m } := by
    unfold takeRequest
    split <;> exact ⟨_, rfl⟩
  obtain ⟨m, hq⟩ := hq
  have hcq : ({ c with qmsgMap := m } : Client).sources.Coherent := hc
  constructor
  · rcases handleResponseMessage_cases h with ⟨-, -, he⟩ | ⟨-, hcalm⟩
    · rw [he, (handleState_waiting _ msg n _).2, hq]
    · obtain ⟨⟨_, _, _, _, _, _, he⟩, -⟩ := hcalm
      rw [he, hq]
  · intro k
    unfold messageInput
    dsimp only
    by_cases ht : hdrType msg ∈ responses
    · simp only [responses, List.mem_cons, List.not_mem_nil, or_false] at ht
      rcases ht with ht | ht | ht | ht | ht | ht
      · rw [handle_success ht, hq] at h
        obtain rfl := Option.some.inj h
        rw [ht]
        dsimp only [Sources.waitsDesc]
        split
        · rw [(handleState_waiting _ msg n _).1]
        · rfl
      · rw [handle_error ht, hq] at h
        obtain rfl := Option.some.inj h
        rw [ht]
        dsimp only [Sources.waitsDesc]
        split
        · rw [(handleState_waiting _ msg n _).1]
        · unfold getAndLogError
          dsimp only
          split
          · rfl
          · split <;> rfl
      · rw [handle_added ht, hq] at h
        obtain rfl := Option.some.inj h
        rw [ht]
        exact handleSrcAdded_waiting hcq now _ _ k
      · rw [handle_removed ht, hq] at h
        obtain rfl := Option.some.inj h
        rw [ht]
        refine (handleSrcRemoved_waiting hcq now _ k).trans ?_
        simp [Sources.waitsDesc, SrcEvent.endsWait, map_sources]
      · rw [handle_desc ht, hq] at h
        obtain ⟨y, hy, rfl⟩ := Option.map_eq_some_iff.mp h
        rw [ht]
        refine (handleSrcDesc_waiting hcq hy k).trans ?_
        simp [Sources.waitsDesc, SrcEvent.endsWait, map_sources]
      · rw [handle_counts ht, hq] at h
        obtain rfl := Option.some.inj h
        rw [ht]
        unfold handleSrcCounts
        split <;> simp [Sources.waitsDesc, SrcEvent.endsWait, updateSource, setSource]
    · rw [handle_other ht, hq] at h
      obtain rfl := Option.some.inj h
      cases hm : hdrType msg <;> simp_all [responses, Sources.waitsDesc]

/-! ## the sweep -/

/-- a source waits for its counts after the sweep only if it did or the sweep met it -/
theorem requestCounts_waiting (now : Time) (ps : List Ptr) (c : Client) {k : UInt64} {p : Ptr}
    (h : (ps.foldl (requestCount now) c).mapWaitingForCount[k]? = some p) :
    c.mapWaitingForCount[k]? = some p ∨ p ∈ ps ∧ (c.heap p).srcRef = k := by
  induction ps generalizing c with
  | nil => exact Or.inl h
  | cons q ps ih =>
    have hsrc : ((c.requestCount now q).heap p).srcRef = (c.heap p).srcRef := by
      rw [requestCount_heap]
      split <;> rfl
    rcases ih (c.requestCount now q) h with h1 | ⟨h1, h2⟩
    · unfold requestCount at h1
      split at h1
      · by_cases he : (c.heap q).srcRef = k
        · rw [ExtTreeMap.getElem?_insert, if_pos (by simp [he])] at h1
          obtain rfl := Option.some.inj h1
          exact Or.inr ⟨List.mem_cons_self, he⟩
        · rw [ExtTreeMap.getElem?_insert, if_neg (by simp [he])] at h1
          exact Or.inl h1
      · exact Or.inl h1
    · exact Or.inr ⟨List.mem_cons_of_mem _ h1, hsrc ▸ h2⟩

/-- a source keeps waiting, or starts to if it wants counts, unless another one of its reference is
met -/
theorem requestCounts_waits (now : Time) (ps : List Ptr) (c : Client) {p : Ptr}
    (hu : ∀ q ∈ ps, (c.heap q).srcRef = (c.heap p).srcRef → q = p)
    (h : c.mapWaitingForCount[(c.heap p).srcRef]? = some p ∨
      p ∈ ps ∧ (c.heap p).wantsCount now = true) :
    (ps.foldl (requestCount now) c).mapWaitingForCount[(c.heap p).srcRef]? = some p := by
  induction ps generalizing c with
  | nil => exact h.resolve_right fun h => absurd h.1 List.not_mem_nil
  | cons q ps ih =>
    have hheap : ∀ x, ((c.requestCount now q).heap x).srcRef = (c.heap x).srcRef ∧
        ((c.requestCount now q).heap x).wantsCount now = (c.heap x).wantsCount now := by
      intro x
      rw [requestCount_heap]
      split <;> exact ⟨rfl, rfl⟩
    rw [List.foldl_cons, ← (hheap p).1]
    refine ih (c.requestCount now q) ?_ ?_
    · intro x hx he
      rw [(hheap x).1, (hheap p).1] at he
      exact hu x (List.mem_cons_of_mem _ hx) he
    · rw [(hheap p).1, (hheap p).2]
      by_cases hq : q = p
      · subst hq
        by_cases hw : (c.heap q).wantsCount now = true
        · left
          unfold requestCount
          rw [if_pos hw, ExtTreeMap.getElem?_insert_self]
        · left
          unfold requestCount
          rw [if_neg hw]
          exact h.resolve_right fun h => hw h.2
      · rcases h with h | ⟨h, hw⟩
        · left
          have hne : (c.heap q).srcRef ≠ (c.heap p).srcRef := fun he =>
            hq (hu q List.mem_cons_self he)
          unfold requestCount
          split
          · rw [ExtTreeMap.getElem?_insert, if_neg (by simp [hne])]
            exact h
          · exact h
        · rcases List.mem_cons.mp h with rfl | h
          · exact absurd rfl hq
          · exact Or.inr ⟨h, hw⟩

/-- **What the sweep does to the waiting sources.** -/
theorem updateWaitForCountsQueue_waiting (hc : c.sources.Coherent) (now : Time) :
    (c.updateWaitForCountsQueue now).mapWaitingForDesc = c.mapWaitingForDesc ∧
    (∀ (k : UInt64) p, (c.updateWaitForCountsQueue now).mapWaitingForCount[k]? = some p →
      c.mapWaitingForCount[k]? = some p ∨ c.map[k]? = some p) ∧
    ∀ (k : UInt64) p, c.map[k]? = some p →
      (c.mapWaitingForCount[k]? = some p ∨ (c.heap p).wantsCount now = true) →
        (c.updateWaitForCountsQueue now).mapWaitingForCount[k]? = some p := by
  have hmapped : ∀ p, p ∈ c.map.toList.map Prod.snd ↔ c.map[(c.heap p).srcRef]? = some p := by
    intro p
    rw [mem_mapped]
    constructor
    · intro hin
      obtain ⟨r, hr⟩ := hin
      have he : (c.heap p).srcRef = r := hc.srcRef hr
      rw [he]
      exact hr
    · exact fun hr => ⟨_, hr⟩
  refine ⟨?_, fun k p h => ?_, fun k p hm h => ?_⟩
  · obtain ⟨_, _, he⟩ := c.updateWaitForCountsQueue_changes now
    rw [he]
  · rcases requestCounts_waiting now _ c h with h | ⟨h, he⟩
    · exact Or.inl h
    · exact Or.inr (he ▸ (hmapped p).mp h)
  · have he : (c.heap p).srcRef = k := hc.srcRef hm
    rw [← he] at h hm ⊢
    refine requestCounts_waits now _ c (fun q hq hqp => ?_) (h.imp_right fun hw => ⟨?_, hw⟩)
    · have hq := (hmapped q).mp hq
      rw [hqp, hm] at hq
      exact (Option.some.inj hq).symm
    · exact (hmapped p).mpr hm

/-! ## sending -/

/-- the ways of `sendNextMsg`: the maps of the waiting sources after it, what it passes to `send`
and what it writes -/
inductive Sends (v : KernelVersion) (c : Client) :
    ExtTreeMap UInt64 Ptr → ExtTreeMap UInt64 Ptr → List (List UInt8) → List (List UInt8) → Prop
  | first {qm outq} (h : c.outq = qm :: outq) :
    Sends v c c.mapWaitingForDesc c.mapWaitingForCount [] [qm.msgbytes]
  | desc {k p rest} (context providerId : UInt64) (ho : c.outq = [])
    (h : c.mapWaitingForDesc.toList = (k, p) :: rest) :
    Sends v c (c.mapWaitingForDesc.erase k) c.mapWaitingForCount
      [v.handler.writeSrcDesc context providerId (c.heap p).srcRef]
      [v.handler.writeSrcDesc context providerId (c.heap p).srcRef]
  | count {k p rest} (context : UInt64) (ho : c.outq = []) (hd : c.mapWaitingForDesc.toList = [])
    (h : c.mapWaitingForCount.toList = (k, p) :: rest) (ht : (c.heap p).tsRemoved = 0)
    (hr : (c.heap p).requestedCount = true) :
    Sends v c c.mapWaitingForDesc (c.mapWaitingForCount.erase k)
      [v.handler.writeQuerySrc context (c.heap p).srcRef]
      [v.handler.writeQuerySrc context (c.heap p).srcRef]
  | stale {k p rest} (h : c.mapWaitingForCount.toList = (k, p) :: rest)
    (hn : (c.heap p).tsRemoved = 0 → (c.heap p).requestedCount = false) :
    Sends v c c.mapWaitingForDesc (c.mapWaitingForCount.erase k) [] []
  | idle (h : c.mapWaitingForCount.toList = []) :
    Sends v c c.mapWaitingForDesc c.mapWaitingForCount [] []

variable {v : KernelVersion}

theorem head_some {m : ExtTreeMap UInt64 Ptr} {k : UInt64} {p : Ptr} {rest : List (UInt64 × Ptr)}
    (h : m.toList = (k, p) :: rest) : m[k]? = some p :=
  ExtTreeMap.mem_toList_iff_getElem?_eq_some.mp (by rw [h]; exact List.mem_cons_self)

theorem erase_some {m : ExtTreeMap UInt64 Ptr} {k k' : UInt64} {p : Ptr}
    (h : (m.erase k)[k']? = some p) : m[k']? = some p := by
  rw [ExtTreeMap.getElem?_erase] at h
  split at h
  · cases h
  · exact h

/-- `sendNextMsg` finds that counts are to be asked for -/
def WantsQuery (c : Client) : Prop :=
  ∃ k p rest, c.outq = [] ∧ c.mapWaitingForDesc.toList = [] ∧
    c.mapWaitingForCount.toList = (k, p) :: rest ∧ (c.heap p).tsRemoved = 0 ∧
    (c.heap p).requestedCount = true

/-- a QUERY_SRC is sent exactly then -/
theorem Sends.query_iff {d n : ExtTreeMap UInt64 Ptr} {enq wr : List (List UInt8)}
    (h : c.Sends v d n enq wr) :
    (∃ msg ∈ enq, hdrType (Mem.ofList msg) = .querySrc) ↔ c.WantsQuery := by
  have hnone : ¬ ∃ msg ∈ ([] : List (List UInt8)), hdrType (Mem.ofList msg) = .querySrc :=
    fun hex => by
      obtain ⟨msg, hm, -⟩ := hex
      cases hm
  cases h with
  | first ho =>
    refine iff_of_false hnone fun hw => ?_
    obtain ⟨_, _, _, ho', -⟩ := hw
    rw [ho] at ho'
    cases ho'
  | desc _ _ _ hd =>
    refine iff_of_false (fun hex => ?_) fun hw => ?_
    · obtain ⟨msg, hm, ht⟩ := hex
      obtain rfl := List.mem_singleton.mp hm
      rw [v.hdrType_srcDesc] at ht
      cases ht
    · obtain ⟨_, _, _, _, hd', -⟩ := hw
      rw [hd] at hd'
      cases hd'
  | count _ ho hd hk ht hr =>
    exact iff_of_true ⟨_, List.mem_cons_self, v.hdrType_querySrc _ _⟩ ⟨_, _, _, ho, hd, hk, ht, hr⟩
  | stale hk hn =>
    refine iff_of_false hnone fun hw => ?_
    obtain ⟨_, _, _, _, _, hk', ht, hr⟩ := hw
    obtain ⟨he, -⟩ := List.cons_eq_cons.mp (hk.symm.trans hk')
    obtain ⟨-, rfl⟩ := Prod.mk.inj he
    rw [hn ht] at hr
    cases hr
  | idle hk =>
    refine iff_of_false hnone fun hw => ?_
    obtain ⟨_, _, _, _, _, hk', -⟩ := hw
    rw [hk] at hk'
    cases hk'

/-- no source starts to wait -/
theorem Sends.waited {d n : ExtTreeMap UInt64 Ptr} {enq wr : List (List UInt8)}
    (h : c.Sends v d n enq wr) :
    (∀ (k : UInt64) p, d[k]? = some p → c.mapWaitingForDesc[k]? = some p) ∧
      ∀ (k : UInt64) p, n[k]? = some p → c.mapWaitingForCount[k]? = some p := by
  cases h with
  | desc => exact ⟨fun _ _ hp => erase_some hp, fun _ _ hp => hp⟩
  | count => exact ⟨fun _ _ hp => hp, fun _ _ hp => erase_some hp⟩
  | stale => exact ⟨fun _ _ hp => hp, fun _ _ hp => erase_some hp⟩
  | _ => exact ⟨fun _ _ hp => hp, fun _ _ hp => hp⟩

/-- the first request of the queue goes out -/
theorem sendFirst_effects {qm : QMsg} {outq : List QMsg} (ho : c.outq = qm :: outq)
    (timestamp : UInt32) (rc : Int) : enqueued (c.sendFirst timestamp rc).2 = [] ∧
      written (c.sendFirst timestamp rc).2 = [qm.msgbytes] := by
  obtain ⟨h1, h2⟩ := c.quiet_record_effects timestamp qm.msgbytes
  rw [sendFirst_cons ho, enqueued_append, written_append, h1, h2]
  exact ⟨rfl, rfl⟩

/-- a request that waits alone goes out -/
theorem asked_sendFirst {c1 : Client} {qm : QMsg} (ho : c1.outq = [qm])
    (h : c.Sends v c1.mapWaitingForDesc c1.mapWaitingForCount [qm.msgbytes] [qm.msgbytes])
    (timestamp : UInt32) (rc : Int) :
    c.Sends v (c1.sendFirst timestamp rc).1.mapWaitingForDesc
        (c1.sendFirst timestamp rc).1.mapWaitingForCount
        (enqueued ([.enqueue qm.msgbytes] ++ (c1.sendFirst timestamp rc).2))
        (written ([.enqueue qm.msgbytes] ++ (c1.sendFirst timestamp rc).2)) ∧
      ∀ q ∈ (c1.sendFirst timestamp rc).1.outq, q ∈ c.outq := by
  obtain ⟨h1, h2⟩ := sendFirst_effects ho timestamp rc
  rw [enqueued_append, written_append, h1, h2, sendFirst_cons ho]
  exact ⟨h, fun q hm => absurd hm List.not_mem_nil⟩

/-- **What `sendNextMsg` does to the waiting sources.** -/
theorem sends_sendNextMsg (hl : c.inReplayMode = false) (timestamp : UInt32) (rc : Int)
    {x : Client × List Effect} (hx : c.sendNextMsg v.handler timestamp rc = x) :
    c.Sends v x.1.mapWaitingForDesc x.1.mapWaitingForCount (enqueued x.2) (written x.2) ∧
      ∀ qm ∈ x.1.outq, qm ∈ c.outq := by
  subst hx
  unfold sendNextMsg
  dsimp only
  by_cases ho : c.outq = []
  · cases hd : c.mapWaitingForDesc.toList with
    | cons kp rest =>
      obtain ⟨k, p⟩ := kp
      obtain ⟨qm, workingMsg, h1, hb⟩ := sendWaitingDesc_asks (H := v.handler) hl ho hd
      rw [h1, sendWaitingCount_of_outq _ (List.cons_ne_nil _ _), List.append_nil]
      refine asked_sendFirst rfl ?_ timestamp rc
      rw [hb]
      exact .desc _ _ ho hd
    | nil =>
      rw [sendWaitingDesc_idle hd]
      dsimp only
      cases hn : c.mapWaitingForCount.toList with
      | nil =>
        rw [sendWaitingCount_idle hn, sendFirst_nil ho]
        exact ⟨.idle hn, fun qm hm => hm⟩
      | cons kp rest =>
        obtain ⟨k, p⟩ := kp
        by_cases hw : ((c.heap p).tsRemoved == 0 && (c.heap p).requestedCount) = true
        · obtain ⟨ht, hr⟩ := Bool.and_eq_true_iff.mp hw
          obtain ⟨qm, workingMsg, h2, hb⟩ := sendWaitingCount_asks (H := v.handler) hl ho hn hw
          rw [h2, List.nil_append]
          refine asked_sendFirst rfl ?_ timestamp rc
          rw [hb]
          exact .count _ ho hd hn (beq_iff_eq.mp ht) hr
        · have ho' : ({ c with mapWaitingForCount := c.mapWaitingForCount.erase k } : Client).outq =
              [] := ho
          rw [sendWaitingCount_stale ho hn hw, sendFirst_nil ho']
          refine ⟨.stale hn fun ht => ?_, fun qm hm => hm⟩
          rw [ht] at hw
          simpa using hw
  · rw [sendWaitingDesc_of_outq c ho, sendWaitingCount_of_outq c ho]
    obtain ⟨qm, outq, ho⟩ := List.exists_cons_of_ne_nil ho
    obtain ⟨h1, h2⟩ := sendFirst_effects ho timestamp rc
    simp only [List.nil_append, h1, h2]
    rw [sendFirst_cons ho]
    exact ⟨.first ho, fun q hm => ho ▸ List.mem_cons_of_mem _ hm⟩

end Client

end Ntstat
