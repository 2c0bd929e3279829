import Ntstat.Client.Waiting
import Ntstat.Laws.Session
import Ntstat.Laws.Requests

/-!
# The requests about sources

* `Pending`, `run_pending`   the waiting sources, the queue and the map belong together in every
                             state of a run;
* `run_keyed`                what waits does so under its own reference;
* `run_mapsAgree`            so the two maps of waiting sources agree with the map of all;
* `requests_live`            every request that goes out names a live source that lacks what it
                             asks for;
* `pending_kept`             no source that lacks something is forgotten.
-/

namespace Ntstat
open Memory Machine Std

/-- the reference of a SRC_ADDED has the size of the version's references -/
theorem added_fits {v : KernelVersion} {st : Step} {now : Time} {r : UInt64} {prov : UInt32}
    (h : st.input v.handler = .added now r prov) : r.toNat < 256 ^ v.structs.srcRefSize := by
  obtain ⟨timestamp, buf, n, -, -, ht, hr⟩ := added_of_input h
  rw [v.getSrcRef_added _ _ ht] at hr
  obtain rfl := (Prod.mk.inj hr).1
  have hlt := readLE_lt buf (v.structs.srcAdded.offsetOf .srcref) v.structs.srcRefSize
  exact Nat.lt_of_le_of_lt (Nat.mod_le _ _) hlt

namespace Session
variable (S : Session)

/-- the state of a run, as far as requests about sources go -/
structure Pending (c : Client) : Prop where
  kept : c.sources.Kept
  fits : ∀ (k : UInt64) p, c.map[k]? = some p → k.toNat < 256 ^ S.version.structs.srcRefSize
  desc : c.sources.Waits fun k => c.mapWaitingForDesc[k]?
  count : ∀ (k : UInt64) p, c.mapWaitingForCount[k]? = some p →
    p < c.next ∧ (c.heap p).srcRef = k
  outq : ∀ qm ∈ c.outq, hdrType (Mem.ofList qm.msgbytes) = .addAllSrcs

variable {S} {steps : List Step} {c c' : Client} {effs effs' : List Effect} {st : Step}

theorem removed_positive (hpos : ∀ t, st.reading = some t → 0 < t) :
    ∀ p now, c.sources.Handles (st.input S.handler) p (.removed now) → 0 < now :=
  fun _ _ hh => hpos _ (reading_of_removed hh)

theorem start_pending (S : Session) : S.Pending S.start := by
  have hs := start_sources (S := S)
  have hmap : ∀ k : UInt64, S.start.map[k]? = none := fun k => congrArg (fun s => s.map k) hs
  have hempty : ∀ k : UInt64, (∅ : ExtTreeMap UInt64 Ptr)[k]? = none :=
    fun k => ExtTreeMap.getElem?_empty
  obtain ⟨_, _, _, ⟨_, _, outq, _, _, _, he, hq, -⟩, -⟩ :=
    Client.live_resubscribed S.handler S.cfg S.fd
  have hstart : S.start = _ := he
  refine ⟨hs ▸ Sources.kept_init, fun k p h => ?_, fun k p h => ?_, fun k p h => ?_, ?_⟩
  · rw [hmap k] at h
    cases h
  · rw [hstart] at h
    exact absurd ((hempty k).symm.trans h) (Option.some_ne_none p).symm
  · rw [hstart] at h
    exact absurd ((hempty k).symm.trans h) (Option.some_ne_none p).symm
  · intro qm hm
    rw [hstart] at hm
    exact S.version.subscribes_type ((hq qm hm).resolve_left List.not_mem_nil)

/-- what a step that sends nothing does to the waiting sources and the queue -/
structure Waited (c c' : Client) (i : Input) : Prop where
  desc : ∀ k, c'.mapWaitingForDesc[k]? =
    c.sources.waitsDesc c'.sources i k c.mapWaitingForDesc[k]?
  count : ∀ (k : UInt64) p, c'.mapWaitingForCount[k]? = some p →
    c.mapWaitingForCount[k]? = some p ∨ c.map[k]? = some p
  keeps : ∀ (k : UInt64) p, c.map[k]? = some p → (c.mapWaitingForCount[k]? = some p ∨
    ∃ now, c.sources.Marks i p now) → c'.mapWaitingForCount[k]? = some p
  outq : ∀ qm ∈ c'.outq, qm ∈ c.outq ∨ hdrType (Mem.ofList qm.msgbytes) = .addAllSrcs

theorem handle_waited (hc : c.sources.Coherent) {now : Time} {msg : Mem} {n : Nat}
    {x : Int × Client × List Effect}
    (h : c.handleResponseMessage S.handler now msg n = some x) :
    Waited c x.2.1 (messageInput S.handler now msg n) := by
  obtain ⟨h1, h2⟩ := Client.handleResponseMessage_waiting hc h
  refine ⟨h2, fun k p hk => Or.inl (h1 ▸ hk), fun k p hm hk => ?_, fun qm hm => ?_⟩
  · rw [h1]
    refine hk.resolve_right fun hk => ?_
    obtain ⟨now', hi, -⟩ := hk
    unfold messageInput at hi
    dsimp only at hi
    split at hi <;> cases hi
  · have htake : (c.takeRequest (hdrContext msg)).2.outq = c.outq :=
      (Client.still_takeRequest c (hdrContext msg)).outq
    rcases Client.handleResponseMessage_cases h with ⟨-, -, he⟩ | ⟨-, hcalm⟩
    · obtain ⟨_, _, outq, _, _, _, hr, hq, -⟩ := Client.handleState_resubscribed (H := S.handler)
        (c.takeRequest (hdrContext msg)).2 msg n (c.takeRequest (hdrContext msg)).1
      rw [he, hr] at hm
      rw [← htake]
      exact (hq qm hm).imp_right S.version.subscribes_type
    · left
      rw [← htake, ← hcalm.still.outq]
      exact hm

/-- **What a step that sends nothing does to the waiting sources and the queue.** -/
theorem step_waited (hc : c.sources.Coherent) (hst : S.step c st = some (c', effs'))
    (hs : ∀ timestamp rc, st ≠ .sendNextMsg timestamp rc) :
    Waited c c' (st.input S.handler) := by
  have hsame : ∀ i, (∀ k w, c.sources.waitsDesc c'.sources i k w = w) →
      (∀ p now, ¬ c.sources.Marks i p now) →
      c'.mapWaitingForDesc = c.mapWaitingForDesc →
      c'.mapWaitingForCount = c.mapWaitingForCount → c'.outq = c.outq → Waited c c' i := by
    intro i hw hn h1 h2 h3
    refine ⟨fun k => by rw [hw, h1], fun k p hk => Or.inl (h2 ▸ hk), fun k p hm hk => ?_,
      fun qm hm => Or.inl (h3 ▸ hm)⟩
    rw [h2]
    refine hk.resolve_right fun hk => ?_
    obtain ⟨now, hk⟩ := hk
    exact hn p now hk
  unfold Step.input
  cases turn_of_step hst with
  | nothing hn =>
    dsimp only
    rw [if_pos hn]
    refine hsame _ (fun _ _ => rfl) (fun p now hm => ?_) rfl rfl rfl
    obtain ⟨hi, -⟩ := hm
    cases hi
  | message hn hx =>
    dsimp only
    rw [if_neg (Int.not_le.mpr hn)]
    exact handle_waited hc hx
  | updateWaitForCountsQueue now =>
    obtain ⟨h1, h2, h3⟩ := Client.updateWaitForCountsQueue_waiting hc now
    refine ⟨fun k => by rw [h1]; rfl, h2, fun k p hm hk => h3 k p hm ?_, fun qm hm => Or.inl ?_⟩
    · refine hk.imp_right fun hk => ?_
      obtain ⟨now', hi, -, hw⟩ := hk
      obtain rfl := Input.requestCounts.inj hi
      exact hw
    · obtain ⟨_, _, he⟩ := c.updateWaitForCountsQueue_changes now
      rw [he] at hm
      exact hm
  | removeOldSources now =>
    refine hsame _ (fun _ _ => rfl) (fun p now hm => ?_) rfl rfl rfl
    obtain ⟨hi, -⟩ := hm
    cases hi
  | sendNextMsg timestamp rc => exact absurd rfl (hs timestamp rc)

/-- `sendNextMsg` leaves the sources alone -/
theorem sources_of_send {timestamp : UInt32} {rc : Int}
    (hst : S.step c (.sendNextMsg timestamp rc) = some (c', effs')) : c'.sources = c.sources :=
  (Prod.mk.inj (Option.some.inj (step_sources hst))).1.symm

/-- what waits was allocated, and waits under its own reference -/
structure Keyed (c : Client) : Prop where
  desc : ∀ (k : UInt64) p, c.mapWaitingForDesc[k]? = some p →
    p < c.next ∧ (c.heap p).srcRef = k
  count : ∀ (k : UInt64) p, c.mapWaitingForCount[k]? = some p →
    p < c.next ∧ (c.heap p).srcRef = k

theorem Pending.keyed (h : S.Pending c) (hc : c.sources.Coherent) : Keyed c := by
  refine ⟨fun k p hw => ?_, h.count⟩
  obtain ⟨hm, -⟩ := h.desc k p hw
  exact ⟨hc.lt_next hm, hc.srcRef hm⟩

theorem keyed_step (hc : c.sources.Coherent) (hl : c.inReplayMode = false)
    (hst : S.step c st = some (c', effs')) (h : Keyed c) : Keyed c' := by
  have hs := step_sources hst
  have hc' := Sources.step_coherent hc (input_lawful S.version.lawful st) hs
  have hold : ∀ {k : UInt64} {p : Ptr}, p < c.next ∧ (c.heap p).srcRef = k →
      p < c'.next ∧ (c'.heap p).srcRef = k := by
    intro k p hp
    obtain ⟨hlt, hsrc⟩ := hp
    have hkeep : (c'.heap p).srcRef = (c.heap p).srcRef := Sources.srcRef_step hlt hs
    exact ⟨Nat.lt_of_lt_of_le hlt (Sources.next_step hs), hkeep.trans hsrc⟩
  by_cases hsend : ∃ timestamp rc, st = .sendNextMsg timestamp rc
  · obtain ⟨timestamp, rc, rfl⟩ := hsend
    obtain ⟨hd, hn⟩ := (Client.sends_sendNextMsg hl timestamp rc (Option.some.inj hst)).1.waited
    exact ⟨fun k p hp => hold (h.desc k p (hd k p hp)),
      fun k p hp => hold (h.count k p (hn k p hp))⟩
  · have hw := step_waited hc hst fun timestamp rc he => hsend ⟨timestamp, rc, he⟩
    refine ⟨fun k p hp => ?_, fun k p hp => ?_⟩
    · rw [hw.desc] at hp
      rcases Sources.waitsDesc_some hp with hp | hm
      · exact hold (h.desc k p hp)
      · exact ⟨hc'.lt_next hm, hc'.srcRef hm⟩
    · rcases hw.count k p hp with hp | hm
      · exact hold (h.count k p hp)
      · exact hold ⟨hc.lt_next hm, hc.srcRef hm⟩

/-- **In every state of a run, what waits under a reference has it.** -/
theorem run_keyed (h : S.run steps = some (c, effs)) : Keyed c := by
  refine exec_inv (P := fun _ c _ => Keyed c) ?_ ?_ h
  · have hc : S.start.sources.Coherent := start_sources ▸ Sources.coherent_init
    exact (start_pending S).keyed hc
  · intro steps c1 e1 st c2 e2 hx hP hst
    exact keyed_step (session_life hx).1 (run_numbered hx).live hst hP

/-- every source in the map has a reference of the size of the version's -/
def Fits (S : Session) (c : Client) : Prop :=
  ∀ (k : UInt64) p, c.map[k]? = some p → k.toNat < 256 ^ S.version.structs.srcRefSize

theorem fits_step (hst : S.step c st = some (c', effs')) (h : S.Fits c) : S.Fits c' := by
  intro k p hm
  rcases Sources.map_step (step_sources hst) hm with hm | ⟨-, -, now, prov, hin, -⟩
  · exact h k p hm
  · exact added_fits hin

theorem run_fits (h : S.run steps = some (c, effs)) : S.Fits c :=
  exec_inv (P := fun _ c _ => S.Fits c) (start_pending S).fits
    (fun _ _ _ _ _ _ _ hP hst => fits_step hst hP) h

/-- **Every step keeps the waiting sources, the queue and the map together.** -/
theorem pending_step (hc : c.sources.Coherent) (hl : c.inReplayMode = false)
    (hpos : ∀ t, st.reading = some t → 0 < t) (hst : S.step c st = some (c', effs'))
    (h : S.Pending c) : S.Pending c' := by
  have hs := step_sources hst
  have hi := input_lawful S.version.lawful st
  have hkept := Sources.kept_step hc hi h.kept (removed_positive hpos) hs
  have hfits := fits_step hst h.fits
  have hcount := (keyed_step hc hl hst (h.keyed hc)).count
  by_cases hsend : ∃ timestamp rc, st = .sendNextMsg timestamp rc
  · obtain ⟨timestamp, rc, rfl⟩ := hsend
    have he := sources_of_send hst
    obtain ⟨hx, hout⟩ := Client.sends_sendNextMsg hl timestamp rc (Option.some.inj hst)
    exact ⟨hkept, hfits, he ▸ h.desc.mono hx.waited.1, hcount, fun qm hm => h.outq qm (hout qm hm)⟩
  · have hw := step_waited hc hst fun timestamp rc he => hsend ⟨timestamp, rc, he⟩
    refine ⟨hkept, hfits, ?_, hcount, fun qm hm => (hw.outq qm hm).elim (h.outq qm) id⟩
    rw [show (fun k => c'.mapWaitingForDesc[k]?) = _ from funext hw.desc]
    exact Sources.waits_step hc h.kept hs h.desc

theorem positive_concat (hpos : Positive (steps ++ [st])) :
    Positive steps ∧ ∀ t, st.reading = some t → 0 < t := by
  unfold Positive at hpos ⊢
  rw [List.filterMap_append] at hpos
  exact ⟨fun t ht => hpos t (List.mem_append_left _ ht), fun t ht =>
    hpos t (List.mem_append_right _ (by simp [ht]))⟩

theorem run_pending (h : S.run steps = some (c, effs)) (hpos : Positive steps) : S.Pending c := by
  refine exec_inv (P := fun steps c _ => Positive steps → S.Pending c)
    (fun _ => start_pending S) ?_ h hpos
  intro steps c1 e1 st c2 e2 hx hP hst hpos
  obtain ⟨hpos1, hpos2⟩ := positive_concat hpos
  exact pending_step (session_life hx).1 (run_numbered hx).live hpos2 hst (hP hpos1)

/-- every source is stored under its reference; who waits for a description is the stored one,
not removed and not described; who waits for its counts is the stored one or was removed -/
structure MapsAgree (c : Client) : Prop where
  stored : ∀ (k : UInt64) p, c.map[k]? = some p → (c.heap p).srcRef = k ∧ (c.heap p).obj.id = k
  desc : ∀ (k : UInt64) p, c.mapWaitingForDesc[k]? = some p →
    c.map[k]? = some p ∧ (c.heap p).tsRemoved = 0 ∧ (c.heap p).haveDesc = false
  count : ∀ (k : UInt64) p, c.mapWaitingForCount[k]? = some p →
    (c.heap p).srcRef = k ∧ (c.map[k]? = some p ∨ (c.heap p).tsRemoved ≠ 0)

/-- **The three maps agree in every state of a run.** -/
theorem run_mapsAgree (h : S.run steps = some (c, effs)) (hpos : Positive steps) :
    MapsAgree c := by
  have hc := (session_life h).1
  have hp := run_pending h hpos
  refine ⟨fun k p hm => ?_, fun k p hw => hp.desc k p hw, fun k p hw => ?_⟩
  · have hsrc : (c.heap p).srcRef = k := hc.srcRef hm
    have hid : (c.heap p).obj.id = k := hc.id hm
    exact ⟨hsrc, hid⟩
  · obtain ⟨hlt, hsrc⟩ := hp.count k p hw
    refine ⟨hsrc, ?_⟩
    by_cases h0 : (c.heap p).tsRemoved = 0
    · have hm : c.map[(c.heap p).srcRef]? = some p := hp.kept.found p hlt h0
      exact Or.inl (hsrc ▸ hm)
    · exact Or.inr h0

/-- one source waits for its description and one for its counts, which are wanted no more -/
def waitingAfterRemoval : List Step :=
  [.sendNextMsg 1 24,
   .readNextMessage 1 1 (structs3789.addedMsg 7 4) 28,
   .readNextMessage 1 1 (structs3789.addedMsg 8 4) 28,
   .readNextMessage 2 2 (structs3789.udpDescMsg 8 4 80 81) 248,
   .updateWaitForCountsQueue 20,
   .readNextMessage 21 21 (structs3789.removedMsg 8) 24]

theorem run_mapsAgree_waitingAfterRemoval : ∃ c effs,
    session3789.run waitingAfterRemoval = some (c, effs) ∧
    c.mapWaitingForDesc[(7 : UInt64)]? = some 0 ∧ c.mapWaitingForCount[(8 : UInt64)]? = some 1 ∧
    MapsAgree c := by
  have hrun : (session3789.run waitingAfterRemoval).map (fun x =>
      (x.1.mapWaitingForDesc[(7 : UInt64)]?, x.1.mapWaitingForCount[(8 : UInt64)]?)) =
        some (some 0, some 1) := by decide
  obtain ⟨⟨c, effs⟩, h, he⟩ := Option.map_eq_some_iff.mp hrun
  obtain ⟨hd, hn⟩ := Prod.mk.inj he
  exact ⟨c, effs, h, hd, hn, run_mapsAgree h (by unfold Positive; decide)⟩

/-- what the request is about is found, not removed, and lacks what is asked for -/
structure Live (S : Session) (c : Client) (msg : List UInt8) : Prop where
  desc : hdrType (Mem.ofList msg) = .getSrcDesc →
    ∃ p, c.map[S.version.srcrefIn (Mem.ofList msg)]? = some p ∧ (c.heap p).tsRemoved = 0 ∧
      (c.heap p).haveDesc = false
  count : hdrType (Mem.ofList msg) = .querySrc →
    ∃ p, c.map[S.version.srcrefIn (Mem.ofList msg)]? = some p ∧ (c.heap p).tsRemoved = 0 ∧
      (c.heap p).requestedCount = true

theorem live_of_sends (hc : c.sources.Coherent) (hp : S.Pending c) {d n : ExtTreeMap UInt64 Ptr}
    {enq wr : List (List UInt8)} (hx : c.Sends S.version d n enq wr) {msg : List UInt8}
    (hm : msg ∈ wr) : S.Live c msg := by
  cases hx with
  | @first qm _ hq =>
    obtain rfl := List.mem_singleton.mp hm
    have ht := hp.outq qm (hq ▸ List.mem_cons_self)
    constructor
    · rw [ht]
      exact MsgType.noConfusion
    · rw [ht]
      exact MsgType.noConfusion
  | @desc k p _ context providerId _ hk =>
    obtain rfl := List.mem_singleton.mp hm
    obtain ⟨h1, h2, h3⟩ := hp.desc k p (Client.head_some hk)
    have hsrc : (c.heap p).srcRef = k := hc.srcRef h1
    constructor
    · intro _
      rw [hsrc, S.version.srcrefIn_srcDesc _ _ (hp.fits k p h1)]
      exact ⟨p, h1, h2, h3⟩
    · rw [S.version.hdrType_srcDesc]
      exact MsgType.noConfusion
  | @count k p _ context _ _ hk ht hr =>
    obtain rfl := List.mem_singleton.mp hm
    obtain ⟨h1, hsrc⟩ := hp.count k p (Client.head_some hk)
    have hmap : c.map[(c.heap p).srcRef]? = some p := hp.kept.found p h1 ht
    constructor
    · rw [S.version.hdrType_querySrc]
      exact MsgType.noConfusion
    · intro _
      rw [S.version.srcrefIn_querySrc _ (hp.fits _ p hmap)]
      exact ⟨p, hmap, ht, hr⟩
  | _ => cases hm

/-- **Requests are only made about live sources.** -/
theorem requests_live (h : S.run steps = some (c, effs)) (hpos : Positive steps)
    (timestamp : UInt32) (rc : Int) {msg : List UInt8}
    (hm : msg ∈ written (c.sendNextMsg S.handler timestamp rc).2) : S.Live c msg := by
  have hx := Client.sends_sendNextMsg (v := S.version) (run_numbered h).live timestamp rc rfl
  exact live_of_sends (session_life h).1 (run_pending h hpos) hx.1 hm

/-- a source is added while nothing else is to be sent -/
def subscribedThenAdded : List Step :=
  [.sendNextMsg 1 24, .readNextMessage 1 1 (structs3789.addedMsg 7 4) 28]

theorem requests_live_subscribedThenAdded : ∃ c effs,
    session3789.run subscribedThenAdded = some (c, effs) ∧
    ∃ msg ∈ written (c.sendNextMsg session3789.handler 1 24).2,
      hdrType (Mem.ofList msg) = .getSrcDesc ∧ session3789.Live c msg := by
  have hrun : (session3789.run subscribedThenAdded).map (fun x =>
      (written (x.1.sendNextMsg session3789.handler 1 24).2).map fun msg =>
        hdrType (Mem.ofList msg)) = some [.getSrcDesc] := by decide
  obtain ⟨⟨c, effs⟩, h, hw⟩ := Option.map_eq_some_iff.mp hrun
  obtain ⟨msg, hm, ht⟩ := List.mem_map.mp (hw ▸ List.mem_cons_self : MsgType.getSrcDesc ∈ _)
  exact ⟨c, effs, h, msg, hm, ht, requests_live h (by unfold Positive; decide) 1 24 hm⟩

/-! ## no source is forgotten -/

/-- the step sends a request of the type for `p`, which is found under `k` -/
def Asks (S : Session) (type : MsgType) (k : UInt64) (p : Ptr) (c : Client) (st : Step) : Prop :=
  c.map[k]? = some p ∧ ∃ c' effs, S.step c st = some (c', effs) ∧ ∃ msg ∈ enqueued effs,
    hdrType (Mem.ofList msg) = type ∧ S.version.srcrefIn (Mem.ofList msg) = k

/-- the step sets `_requestedCount` of `p` from false to true -/
def SetsRequested (S : Session) (p : Ptr) (c : Client) (st : Step) : Prop :=
  (c.heap p).requestedCount = false ∧ ∃ c' effs, S.step c st = some (c', effs) ∧
    (c'.heap p).requestedCount = true

/-- what `p`, found under `k`, lacks is waited for or was asked for -/
structure Remembered (S : Session) (steps : List Step) (c : Client) (k : UInt64) (p : Ptr) :
    Prop where
  desc : (c.heap p).haveDesc = false → c.mapWaitingForDesc[k]? = some p ∨
    Sometime S.step S.start steps (fun _ c1 st => S.Asks .getSrcDesc k p c1 st) ∨
    S.Ever steps fun s i => s.Rejects i p
  count : (c.heap p).requestedCount = true → c.mapWaitingForCount[k]? = some p ∨
    Since S.step S.start steps (S.Asks .querySrc k p) fun c1 st => ¬ S.SetsRequested p c1 st

/-- a source that stops waiting for its description is asked about -/
theorem desc_of_sends (hc : c.sources.Coherent) (hp : S.Pending c) {d n : ExtTreeMap UInt64 Ptr}
    {enq wr : List (List UInt8)} (hx : c.Sends S.version d n enq wr) {k : UInt64} {p : Ptr}
    (hk : c.mapWaitingForDesc[k]? = some p) : d[k]? = some p ∨ ∃ msg ∈ enq,
      hdrType (Mem.ofList msg) = .getSrcDesc ∧ S.version.srcrefIn (Mem.ofList msg) = k := by
  cases hx with
  | @desc k' p' _ context providerId _ hk' =>
    by_cases he : k' = k
    · subst he
      obtain rfl := Option.some.inj (hk.symm.trans (Client.head_some hk'))
      obtain ⟨h1, -, -⟩ := hp.desc k' p hk
      have hsrc : (c.heap p).srcRef = k' := hc.srcRef h1
      refine Or.inr ⟨_, List.mem_cons_self, S.version.hdrType_srcDesc _ _ _, ?_⟩
      rw [hsrc]
      exact S.version.srcrefIn_srcDesc _ _ (hp.fits k' p h1)
    · left
      rw [ExtTreeMap.getElem?_erase, if_neg (by simp [he])]
      exact hk
  | _ => exact Or.inl hk

/-- a source that stops waiting for its counts is asked about, if they are still wanted -/
theorem count_of_sends (hp : S.Pending c) {d n : ExtTreeMap UInt64 Ptr}
    {enq wr : List (List UInt8)} (hx : c.Sends S.version d n enq wr) {k : UInt64} {p : Ptr}
    (hk : c.mapWaitingForCount[k]? = some p) (hm : c.map[k]? = some p)
    (h0 : (c.heap p).tsRemoved = 0) (hr : (c.heap p).requestedCount = true) :
    n[k]? = some p ∨ ∃ msg ∈ enq,
      hdrType (Mem.ofList msg) = .querySrc ∧ S.version.srcrefIn (Mem.ofList msg) = k := by
  cases hx with
  | @count k' p' _ context _ _ hk' ht' hr' =>
    by_cases he : k' = k
    · subst he
      obtain rfl := Option.some.inj (hk.symm.trans (Client.head_some hk'))
      obtain ⟨-, hsrc⟩ := hp.count k' p hk
      refine Or.inr ⟨_, List.mem_cons_self, S.version.hdrType_querySrc _ _, ?_⟩
      rw [hsrc]
      exact S.version.srcrefIn_querySrc _ (hp.fits k' p hm)
    · left
      rw [ExtTreeMap.getElem?_erase, if_neg (by simp [he])]
      exact hk
  | @stale k' p' _ hk' hn =>
    by_cases he : k' = k
    · subst he
      obtain rfl := Option.some.inj (hk.symm.trans (Client.head_some hk'))
      rw [hn h0] at hr
      cases hr
    · left
      rw [ExtTreeMap.getElem?_erase, if_neg (by simp [he])]
      exact hk
  | _ => exact Or.inl hk

/-- a flag that is set stays since when it was set -/
theorem since_requested {A : Client → Step → Prop} {p : Ptr} (hrun : S.run steps = some (c, effs))
    (hr : (c.heap p).requestedCount = true)
    (h : Since S.step S.start steps A fun c1 st => ¬ S.SetsRequested p c1 st) :
    Since S.step S.start (steps ++ [st]) A fun c1 st => ¬ S.SetsRequested p c1 st := by
  refine (since_concat hrun).mpr (Or.inr ⟨h, fun hset => ?_⟩)
  rw [hset.1] at hr
  cases hr

/-- sending forgets no source -/
theorem remembered_sent (hrun : S.run steps = some (c, effs)) (hp : S.Pending c)
    {timestamp : UInt32} {rc : Int} (hst : S.step c (.sendNextMsg timestamp rc) = some (c', effs'))
    {k : UInt64} {p : Ptr} (hm : c.map[k]? = some p) (h0 : (c.heap p).tsRemoved = 0)
    (h : S.Remembered steps c k p) :
    S.Remembered (steps ++ [.sendNextMsg timestamp rc]) c' k p := by
  have hc := (session_life hrun).1
  have hheap : c'.heap = c.heap := congrArg Sources.heap (sources_of_send hst)
  have hx := (Client.sends_sendNextMsg (run_numbered hrun).live timestamp rc
    (Option.some.inj hst)).1
  refine ⟨fun hd => ?_, fun hr => ?_⟩
  · rw [hheap] at hd
    rcases h.desc hd with h1 | h1 | h1
    · rcases desc_of_sends hc hp hx h1 with h1 | h1
      · exact Or.inl h1
      · exact Or.inr (Or.inl ((sometime_concat hrun).mpr (Or.inr ⟨hm, c', effs', hst, h1⟩)))
    · exact Or.inr (Or.inl (h1.append _))
    · exact Or.inr (Or.inr (h1.append _))
  · rw [hheap] at hr
    rcases h.count hr with h2 | h2
    · rcases count_of_sends hp hx h2 hm h0 hr with h2 | h2
      · exact Or.inl h2
      · exact Or.inr ((since_concat hrun).mpr (Or.inl ⟨hm, c', effs', hst, h2⟩))
    · exact Or.inr (since_requested hrun hr h2)

/-- nor does another step -/
theorem remembered_waited (hrun : S.run steps = some (c, effs))
    (hpos : ∀ t, st.reading = some t → 0 < t) (hst : S.step c st = some (c', effs'))
    (hw : Waited c c' (st.input S.handler))
    (h : ∀ (k : UInt64) p, c.map[k]? = some p → (c.heap p).tsRemoved = 0 →
      S.Remembered steps c k p) {k : UInt64} {p : Ptr} (hm : c'.map[k]? = some p)
    (h0 : (c'.heap p).tsRemoved = 0) : S.Remembered (steps ++ [st]) c' k p := by
  have hc := (session_life hrun).1
  have hs := step_sources hst
  refine ⟨fun hd => ?_, fun hr => ?_⟩
  · rcases Sources.undescribed_step hc (removed_positive hpos) hs hm h0 hd
      c.mapWaitingForDesc[k]? with h1 | ⟨⟨hm1, h01, hd1⟩, hrej⟩
    · exact Or.inl ((hw.desc k).trans h1)
    · right
      rcases (h k p hm1 h01).desc hd1 with h1 | h1 | h1
      · exact Or.inr ((sometime_concat hrun).mpr (Or.inr (hrej h1)))
      · exact Or.inl (h1.append _)
      · exact Or.inr (h1.append _)
  · rcases Sources.map_step hs hm with hm1 | ⟨rfl, -, now, prov, hin, hv⟩
    · by_cases hmark : ∃ now, c.sources.Marks (st.input S.handler) p now
      · exact Or.inl (hw.keeps k p hm1 (Or.inr hmark))
      · have hr1 : (c.heap p).requestedCount = true :=
          Sources.unmarked_step (not_exists.mp hmark) hs hr
        have h01 : (c.heap p).tsRemoved = 0 := (Sources.tsRemoved_step hc hs p
          (Sources.not_removes_of_zero (removed_positive hpos) hs h0)).symm.trans h0
        rcases (h k p hm1 h01).count hr1 with h2 | h2
        · exact Or.inl (hw.keeps k p hm1 (Or.inl h2))
        · exact Or.inr (since_requested hrun hr1 h2)
    · -- a new source is not marked
      have hn : ∀ now', ¬ c.sources.Marks (st.input S.handler) c.sources.next now' := by
        intro now' hmark
        rw [hin] at hmark
        cases hmark.1
      have hr1 := Sources.unmarked_step hn hs hr
      rw [hc.blank le_rfl] at hr1
      cases hr1

theorem remembered_step (hrun : S.run steps = some (c, effs)) (hp : S.Pending c)
    (hpos : ∀ t, st.reading = some t → 0 < t) (hst : S.step c st = some (c', effs'))
    (h : ∀ (k : UInt64) p, c.map[k]? = some p → (c.heap p).tsRemoved = 0 →
      S.Remembered steps c k p) {k : UInt64} {p : Ptr} (hm : c'.map[k]? = some p)
    (h0 : (c'.heap p).tsRemoved = 0) : S.Remembered (steps ++ [st]) c' k p := by
  by_cases hsend : ∃ timestamp rc, st = .sendNextMsg timestamp rc
  · obtain ⟨timestamp, rc, rfl⟩ := hsend
    have he := sources_of_send hst
    have hheap : c'.heap = c.heap := congrArg Sources.heap he
    have hmap : c.map[k]? = some p := (congrArg (fun s => s.map k) he).symm.trans hm
    rw [hheap] at h0
    exact remembered_sent hrun hp hst hmap h0 (h k p hmap h0)
  · have hw := step_waited (session_life hrun).1 hst fun timestamp rc he =>
      hsend ⟨timestamp, rc, he⟩
    exact remembered_waited hrun hpos hst hw h hm h0

/-- **No pending request is forgotten.** -/
theorem pending_kept (h : S.run steps = some (c, effs)) (hpos : Positive steps) {k : UInt64}
    {p : Ptr} (hm : c.map[k]? = some p) (h0 : (c.heap p).tsRemoved = 0) :
    S.Remembered steps c k p := by
  refine exec_inv (P := fun steps c _ => Positive steps → ∀ (k : UInt64) p, c.map[k]? = some p →
    (c.heap p).tsRemoved = 0 → S.Remembered steps c k p) ?_ ?_ h hpos k p hm h0
  · intro _ k p hm
    have hempty : S.start.map[k]? = none := congrArg (fun s => s.map k) (start_sources (S := S))
    rw [hempty] at hm
    cases hm
  · intro steps c1 e1 st c2 e2 hx hP hst hpos k p hm h0
    obtain ⟨hpos1, hpos2⟩ := positive_concat hpos
    exact remembered_step hx (run_pending hx hpos1) hpos2 hst (hP hpos1) hm h0

theorem pending_kept_subscribedThenAdded : ∃ c effs,
    session3789.run subscribedThenAdded = some (c, effs) ∧ c.map[(7 : UInt64)]? = some 0 ∧
    (c.heap 0).haveDesc = false ∧ session3789.Remembered subscribedThenAdded c 7 0 := by
  have hrun : (session3789.run subscribedThenAdded).map (fun x =>
      (x.1.map[(7 : UInt64)]?, (x.1.heap 0).tsRemoved, (x.1.heap 0).haveDesc)) =
        some (some 0, 0, false) := by decide
  obtain ⟨⟨c, effs⟩, h, he⟩ := Option.map_eq_some_iff.mp hrun
  simp only [Prod.mk.injEq] at he
  obtain ⟨hm, h0, hd⟩ := he
  exact ⟨c, effs, h, hm, hd, pending_kept h (by unfold Positive; decide) hm h0⟩

end Session

end Ntstat
