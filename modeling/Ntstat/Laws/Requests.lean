import Ntstat.Client.Traffic
import Ntstat.Laws.Announce

/-!
# The contexts of requests

* `Client.Numbered`   after `k` sends the counter stands at `k + 1` modulo 65536, and every request
                      that waits to be sent or answered has the context of an earlier send;
* `step_advances`     every step keeps that, and sends at most one request;
* `usable_iff`        the next context is usable in every state of a run exactly when fewer than
                      65535 requests were sent in it.
-/

namespace Ntstat
open Memory Machine Std

def Effect.isEnqueue : Effect → Bool
  | enqueue _ => true
  | _ => false

/-- the number of requests sent -/
def sent (effs : List Effect) : Nat := effs.countP Effect.isEnqueue

@[simp] theorem sent_nil : sent [] = 0 := rfl

@[simp] theorem sent_append (e e' : List Effect) : sent (e ++ e') = sent e + sent e' :=
  List.countP_append

/-- the context of one of the first `k` sends -/
def Used (k : Nat) (context : UInt64) : Prop :=
  ∃ j, 0 < j ∧ j ≤ k ∧ context = (UInt16.ofNat j).toUInt64

theorem Used.mono {k k' : Nat} {x : UInt64} (h : Used k x) (hk : k ≤ k') : Used k' x := by
  obtain ⟨j, h1, h2, h3⟩ := h
  exact ⟨j, h1, by omega, h3⟩

namespace Client
variable {H : NTStatKernelStructHandler} {c : Client} {k : Nat}

/-- the client after `k` sends -/
structure Numbered (c : Client) (k : Nat) : Prop where
  live : c.inReplayMode = false
  seqnum : c.seqnum = UInt16.ofNat (k + 1)
  outq : ∀ qm ∈ c.outq, Used k qm.seqnum
  qmsgMap : ∀ x, x ∈ c.qmsgMap → Used k x

/-- the next context: not 0, and of no request that waits to be sent or answered -/
def Usable (c : Client) : Prop :=
  c.seqnum.toUInt64 ≠ 0 ∧ (∀ qm ∈ c.outq, qm.seqnum ≠ c.seqnum.toUInt64) ∧
    c.seqnum.toUInt64 ∉ c.qmsgMap

theorem toUInt64_ofNat {j : Nat} (h : j < 65536) : ((UInt16.ofNat j).toUInt64).toNat = j := by
  simp [UInt16.toNat_ofNat', Nat.mod_eq_of_lt h]

/-- before the counter wraps, the next context is usable -/
theorem Numbered.usable (h : c.Numbered k) (hk : k < 65535) : c.Usable := by
  have hne : ∀ x, Used k x → x ≠ c.seqnum.toUInt64 := by
    rintro x ⟨j, h1, h2, rfl⟩ he
    have := congrArg UInt64.toNat he
    rw [h.seqnum, toUInt64_ofNat (by omega), toUInt64_ofNat (by omega)] at this
    omega
  refine ⟨fun h0 => ?_, fun qm hq => hne _ (h.outq qm hq), fun hm => hne _ (h.qmsgMap _ hm) rfl⟩
  have := congrArg UInt64.toNat h0
  rw [h.seqnum, toUInt64_ofNat (by omega)] at this
  simp at this

/-- when the counter wraps it stands at 0 -/
theorem Numbered.wrapped (h : c.Numbered 65535) : ¬ c.Usable := by
  intro hex
  obtain ⟨h0, -⟩ := hex
  rw [h.seqnum] at h0
  exact h0 (by decide)

/-- the operation that gives `x` counts its sends -/
def Advances (c : Client) (x : Client × List Effect) : Prop :=
  ∀ k, c.Numbered k → x.1.Numbered (k + sent x.2)

theorem Advances.trans {x y : Client × List Effect} (hx : c.Advances x) (hy : x.1.Advances y) :
    c.Advances (y.1, x.2 ++ y.2) := by
  intro k h
  rw [sent_append, ← Nat.add_assoc]
  exact hy _ (hx k h)

theorem sent_still {x : Client × List Effect} (h : c.Still x) : sent x.2 = 0 := by
  unfold sent
  rw [List.countP_eq_zero]
  intro e he
  have := h.effects e he
  cases e <;> simp_all [Effect.isNotify, Effect.isEnqueue]

theorem advances_of_still {x : Client × List Effect} (h : c.Still x) : c.Advances x := by
  intro k hk
  rw [sent_still h]
  refine ⟨?_, h.seqnum.trans hk.seqnum, ?_, fun y hy => hk.qmsgMap y (h.qmsgMap y hy)⟩
  · rw [inReplayMode, h.recordFd, h.recordEnabled]
    exact hk.live
  · rw [h.outq]
    exact hk.outq

theorem advances_send {msg : List UInt8} (hm : hdrContext (Mem.ofList msg) = c.seqnum.toUInt64) :
    c.Advances (c.send msg) := by
  intro k h
  unfold send
  rw [if_neg (by simp [h.live])]
  refine ⟨h.live, ?_, ?_, fun x hx => (h.qmsgMap x hx).mono (by omega)⟩
  · show c.seqnum + 1 = _
    rw [h.seqnum]
    simp [sent, Effect.isEnqueue]
  · intro qm hq
    rcases List.mem_append.mp hq with hq | hq
    · exact (h.outq qm hq).mono (by omega)
    · obtain rfl := List.mem_singleton.mp hq
      refine ⟨k + 1, by omega, le_rfl, ?_⟩
      show hdrContext _ = _
      rw [hm, h.seqnum]

theorem sent_send (msg : List UInt8) : sent (c.send msg).2 ≤ 1 := by
  unfold send
  split <;> simp [sent, Effect.isEnqueue]

theorem sent_record (timestamp : UInt32) (data : List UInt8) :
    sent (c.record timestamp data) = 0 := by
  unfold record
  split <;> rfl

/-! ## every operation -/

/-- **All operations count their sends.** -/
theorem advances_composed (hH : H.Lawful) : Composed H Advances where
  trans := Advances.trans
  still := advances_of_still
  send h := advances_send (h.context hH)

theorem sent_handleState (c : Client) (msg : Mem) (n : Nat) (reqMsg : QMsg) :
    sent (c.handleState H msg n reqMsg).2 ≤ 1 := by
  unfold handleState
  generalize (if hdrType msg = .error then c.getAndLogError msg n else (0, c)) = e
  dsimp only
  split
  · split <;> exact sent_send _
  · split
    · split
      · exact sent_send _
      · exact Nat.zero_le _
    · exact Nat.zero_le _
  · exact Nat.zero_le _
  · exact Nat.zero_le _

theorem sent_handleResponseMessage {now : Time} {msg : Mem} {n : Nat}
    {x : Int × Client × List Effect} (h : c.handleResponseMessage H now msg n = some x) :
    sent x.2.2 ≤ 1 := by
  rcases handleResponseMessage_cases h with ⟨-, -, he⟩ | ⟨-, hs⟩
  · rw [he]
    exact sent_handleState _ _ _ _
  · exact (sent_still hs.still).le.trans (Nat.zero_le 1)

theorem advances_sendFirst (c : Client) (timestamp : UInt32) (rc : Int) :
    c.Advances (c.sendFirst timestamp rc) ∧ sent (c.sendFirst timestamp rc).2 = 0 := by
  unfold sendFirst
  split
  · exact ⟨advances_of_still (still_silent rfl rfl rfl rfl rfl), rfl⟩
  · next qm outq ho =>
    have h0 : sent (c.record timestamp qm.msgbytes ++ [.socketWrite qm.msgbytes]) = 0 := by
      rw [sent_append, sent_record]
      rfl
    refine ⟨fun k h => ?_, h0⟩
    have hout := h.outq
    rw [ho] at hout
    dsimp only [sendQMsg]
    rw [h0]
    refine ⟨h.live, h.seqnum, fun q hq => hout q (List.mem_cons_of_mem _ hq), fun x hx => ?_⟩
    rcases ExtTreeMap.mem_insert.mp hx with he | hm
    · obtain rfl : qm.seqnum = x := by simpa using he
      exact hout qm List.mem_cons_self
    · exact h.qmsgMap x hm

/-- a request that was sent waits in the queue -/
theorem send_outq (c : Client) (msg : List UInt8) :
    sent (c.send msg).2 = 0 ∨ (c.send msg).1.outq ≠ [] := by
  unfold send
  split
  · exact Or.inl rfl
  · exact Or.inr (by simp [incQmsg])

theorem sendWaitingDesc_outq (c : Client) :
    sent (c.sendWaitingDesc H).2 = 0 ∨ (c.sendWaitingDesc H).1.outq ≠ [] := by
  unfold sendWaitingDesc
  split
  · exact send_outq _ _
  · exact Or.inl rfl

theorem sent_sendWaitingDesc (c : Client) : sent (c.sendWaitingDesc H).2 ≤ 1 := by
  unfold sendWaitingDesc
  split
  · exact sent_send _
  · exact Nat.zero_le _

theorem sent_sendWaitingCount (c : Client) : sent (c.sendWaitingCount H).2 ≤ 1 := by
  unfold sendWaitingCount
  split
  · dsimp only
    split
    · exact sent_send _
    · exact Nat.zero_le _
  · exact Nat.zero_le _

theorem advances_sendNextMsg (hH : H.Lawful) (c : Client) (timestamp : UInt32) (rc : Int) :
    c.Advances (c.sendNextMsg H timestamp rc) ∧ sent (c.sendNextMsg H timestamp rc).2 ≤ 1 := by
  obtain ⟨h3, h4⟩ := advances_sendFirst ((c.sendWaitingDesc H).1.sendWaitingCount H).1 timestamp rc
  have hQ := advances_composed hH
  refine ⟨((hQ.sendWaitingDesc c).trans (hQ.sendWaitingCount _)).trans h3, ?_⟩
  show sent ((c.sendWaitingDesc H).2 ++ ((c.sendWaitingDesc H).1.sendWaitingCount H).2 ++ _) ≤ 1
  rw [sent_append, sent_append, h4]
  rcases sendWaitingDesc_outq (H := H) c with h0 | h0
  · have := sent_sendWaitingCount (H := H) (c.sendWaitingDesc H).1
    omega
  · rw [sendWaitingCount_of_outq _ h0]
    have := sent_sendWaitingDesc (H := H) c
    simpa using this

end Client

/-! ## steps and runs -/

/-- **Every step counts its sends, and sends at most once.** -/
theorem step_advances {H : NTStatKernelStructHandler} (hH : H.Lawful) {c c' : Client} {st : Step}
    {effs : List Effect} (h : step H c st = some (c', effs)) :
    c.Advances (c', effs) ∧ sent effs ≤ 1 := by
  have hQ := Client.advances_composed hH
  cases turn_of_step h with
  | nothing hn => exact ⟨hQ.still (Client.still_silent rfl rfl rfl rfl rfl), Nat.zero_le _⟩
  | message hn hx =>
    have h1 := hQ.handleResponseMessage hx
    have h2 := Client.sent_handleResponseMessage hx
    refine ⟨fun k hk => ?_, ?_⟩
    · rw [sent_append, Client.sent_record, Nat.zero_add]
      exact h1 k hk
    · rw [sent_append, Client.sent_record, Nat.zero_add]
      exact h2
  | updateWaitForCountsQueue now => exact ⟨hQ.updateWaitForCountsQueue now c, Nat.zero_le _⟩
  | removeOldSources now => exact ⟨hQ.removeOldSources now c, Nat.zero_le _⟩
  | sendNextMsg timestamp rc => exact Client.advances_sendNextMsg hH c timestamp rc

namespace Session
variable {S : Session} {steps : List Step} {c : Client} {effs : List Effect}

theorem configured_numbered (cfg : Config) : (Client.configured cfg).Numbered 0 := by
  obtain ⟨_, recordFd, recordEnabled, he, -, hr⟩ := Client.configured_changes cfg
  rw [he]
  refine ⟨?_, rfl, fun qm hm => absurd hm List.not_mem_nil, fun x hx => ?_⟩
  · unfold Client.inReplayMode
    by_cases h : 0 < recordFd
    · simp [hr h]
    · simp [h]
  · exact absurd hx ExtTreeMap.not_mem_empty

theorem sent_beginRun (H : NTStatKernelStructHandler) (c : Client) :
    sent (c.beginRun H).2 ≤ 1 := by
  unfold Client.beginRun
  dsimp only
  split <;> exact Client.sent_send _

theorem start_numbered (S : Session) :
    S.start.Numbered (sent S.prologue) ∧ sent S.prologue ≤ 1 := by
  have h0 := configured_numbered S.cfg
  have h1 : ((Client.configured S.cfg).connectToKernel S.fd).Numbered 0 :=
    ⟨h0.live, h0.seqnum, h0.outq, h0.qmsgMap⟩
  have h2 := (Client.advances_composed S.version.lawful).beginRun _ 0 h1
  rw [Nat.zero_add] at h2
  exact ⟨h2, sent_beginRun _ _⟩

/-- the requests of a session up to now -/
def requests (S : Session) (effs : List Effect) : Nat := sent (S.prologue ++ effs)

theorem run_numbered (h : S.run steps = some (c, effs)) : c.Numbered (S.requests effs) := by
  refine exec_inv (P := fun _ c effs => c.Numbered (S.requests effs)) ?_ ?_ h
  · simpa [requests] using (start_numbered S).1
  · intro steps c1 e1 st c2 e2 _ hP hst
    have := (step_advances S.version.lawful hst).1 _ hP
    simpa [requests, Nat.add_assoc] using this

/-- **The next context is usable in every state of a run exactly when the run sends fewer than
65535 requests.** -/
theorem usable_iff (h : S.run steps = some (c, effs)) :
    (∀ pre post c1 e1, steps = pre ++ post → S.run pre = some (c1, e1) → c1.Usable) ↔
      S.requests effs < 65535 := by
  constructor
  · refine exec_inv (P := fun steps _ effs => (∀ pre post c1 e1, steps = pre ++ post →
      S.run pre = some (c1, e1) → c1.Usable) → S.requests effs < 65535) ?_ ?_ h
    · intro _
      have := (start_numbered S).2
      simp only [requests, List.append_nil]
      omega
    · intro steps c1 e1 st c2 e2 hx hP hst hu
      have h1 := hP fun pre post c3 e3 he => hu pre (post ++ [st]) c3 e3 (by simp [he])
      have h2 := (step_advances S.version.lawful hst).2
      have h3 : S.requests (e1 ++ e2) = S.requests e1 + sent e2 := by
        simp [requests, Nat.add_assoc]
      have hr : S.run (steps ++ [st]) = some (c2, e1 ++ e2) := run_concat hx hst
      have h4 : S.requests (e1 ++ e2) ≠ 65535 := fun he =>
        (he ▸ run_numbered hr).wrapped (hu (steps ++ [st]) [] c2 _ (by simp) hr)
      omega
  · rintro hk pre post c1 e1 rfl hp
    obtain ⟨c1', e1', e2, hp', -, rfl⟩ := run_split h
    obtain ⟨rfl, rfl⟩ := Prod.mk.inj (Option.some.inj (hp.symm.trans hp'))
    refine (run_numbered hp).usable ?_
    simp only [requests, sent_append] at hk ⊢
    omega

/-- a source is added, or added again, and its description is requested -/
def addAndAsk : List Step :=
  [.readNextMessage 1 1 (structs3789.addedMsg 7 4) 28, .sendNextMsg 1 24]

/-- the subscription goes out, and a request -/
def askedOnce : List Step := .sendNextMsg 1 40 :: addAndAsk

theorem usable_askedOnce : ∃ c effs, session3789.run askedOnce = some (c, effs) ∧
    session3789.requests effs = 2 ∧
    ∀ pre post c1 e1, askedOnce = pre ++ post → session3789.run pre = some (c1, e1) →
      c1.Usable := by
  have hrun : (session3789.run askedOnce).map (fun x => session3789.requests x.2) = some 2 := by
    decide
  obtain ⟨⟨c, effs⟩, h, hk⟩ := Option.map_eq_some_iff.mp hrun
  refine ⟨c, effs, h, hk, (usable_iff h).mpr ?_⟩
  rw [hk]
  decide

/-! ## a run that wraps the counter -/

def addAndAskAgain (n : Nat) : List Step := (List.replicate n addAndAsk).flatten

/-- the subscription goes out, and then one request after the other -/
def wrapping : List Step := .sendNextMsg 1 40 :: addAndAskAgain 65534

/-- nothing is queued, and source 7 has no description -/
structure Idle (c : Client) : Prop where
  live : c.inReplayMode = false
  outq : c.outq = []
  waiting : c.mapWaitingForDesc = ∅
  undescribed : ∀ p, c.map[(7 : UInt64)]? = some p → (c.heap p).haveDesc = false

theorem addedMsg_seven : hdrType (structs3789.addedMsg 7 4) = .srcAdded ∧
    ntStatKernel3789.getSrcRef (structs3789.addedMsg 7 4) 28 (0, 0) = (7, 4) := by decide

/-- a source that has no description, or a new one, is found -/
theorem resetSource_undescribed {c : Client} {now : Time} {r : UInt64} {prov : UInt32}
    (h : ∀ p, c.map[r]? = some p → (c.heap p).haveDesc = false) {x : Ptr × Client}
    (hx : c.resetSource now r prov = x) :
    x.2.map[r]? = some x.1 ∧ (x.2.heap x.1).haveDesc = false ∧
      x.2.mapWaitingForDesc = c.mapWaitingForDesc ∧ x.2.outq = c.outq ∧ x.2.seqnum = c.seqnum ∧
      x.2.inReplayMode = c.inReplayMode := by
  subst hx
  unfold Client.resetSource
  split
  · next p hr =>
    split
    · exact ⟨by simp [Client.newSource], by simp [Client.newSource], rfl, rfl, rfl, rfl⟩
    · exact ⟨hr, h p hr, rfl, rfl, rfl, rfl⟩
  · exact ⟨by simp [Client.newSource], by simp [Client.newSource], rfl, rfl, rfl, rfl⟩

/-- adding a source that has no description queues it for one -/
theorem handleSrcAdded_waiting {c c' : Client} {now : Time} {r : UInt64} {prov : UInt32}
    (h : ∀ p, c.map[r]? = some p → (c.heap p).haveDesc = false)
    (hc : c.handleSrcAdded now r prov = c') :
    (∃ p k, c'.map[r]? = some p ∧ (c'.heap p).haveDesc = false ∧
      c'.mapWaitingForDesc = c.mapWaitingForDesc.insert k p) ∧
      c'.outq = c.outq ∧ c'.seqnum = c.seqnum ∧ c'.inReplayMode = c.inReplayMode := by
  subst hc
  unfold Client.handleSrcAdded
  generalize hx : c.resetSource now r prov = x
  obtain ⟨h1, h2, h3, h4, h5, h6⟩ := resetSource_undescribed h hx
  dsimp only
  rw [if_pos (by rw [h2]; rfl)]
  refine ⟨⟨x.1, (x.2.heap x.1).srcRef, h1, h2, ?_⟩, h4, h5, h6⟩
  rw [← h3]
  rfl

theorem erase_single (k : UInt64) (p : Ptr) :
    ((∅ : ExtTreeMap UInt64 Ptr).insert k p).erase k = ∅ := by
  simp [ExtTreeMap.size_insert]

/-- with one source queued for a description, its request goes out -/
theorem sendNextMsg_waiting {H : NTStatKernelStructHandler} {c : Client} (timestamp : UInt32)
    (rc : Int) {k : UInt64} {p : Ptr} (hl : c.inReplayMode = false) (ho : c.outq = [])
    (hw : c.mapWaitingForDesc = (∅ : ExtTreeMap UInt64 Ptr).insert k p) {c' : Client}
    {effs : List Effect} (hs : c.sendNextMsg H timestamp rc = (c', effs)) :
    c'.inReplayMode = false ∧ c'.outq = [] ∧ c'.mapWaitingForDesc = ∅ ∧ c'.map = c.map ∧
      c'.heap = c.heap ∧ c'.seqnum = c.seqnum + 1 := by
  have hlist : c.mapWaitingForDesc.toList = [(k, p)] := by
    rw [hw]
    rfl
  obtain ⟨qm, workingMsg, hd, -⟩ := Client.sendWaitingDesc_asks (H := H) hl ho hlist
  unfold Client.sendNextMsg at hs
  rw [hd] at hs
  dsimp only at hs
  rw [Client.sendWaitingCount_of_outq _ (List.cons_ne_nil _ _), Client.sendFirst_cons rfl] at hs
  obtain ⟨rfl, -⟩ := Prod.mk.inj hs
  refine ⟨hl, rfl, ?_, rfl, rfl, rfl⟩
  show c.mapWaitingForDesc.erase k = ∅
  rw [hw, erase_single]

theorem takeRequest_idle {c : Client} (h : Idle c) (context : UInt64) :
    Idle (c.takeRequest context).2 ∧ (c.takeRequest context).2.seqnum = c.seqnum := by
  unfold Client.takeRequest
  split <;> exact ⟨⟨h.live, h.outq, h.waiting, h.undescribed⟩, rfl⟩

/-- one round asks for one description -/
theorem addAndAsk_idle {c : Client} (h : Idle c) : ∃ c' effs,
    exec session3789.step c addAndAsk = some (c', effs) ∧ Idle c' ∧ c'.seqnum = c.seqnum + 1 := by
  obtain ⟨ht, hr⟩ := addedMsg_seven
  have hadd : c.handleResponseMessage ntStatKernel3789 1 (structs3789.addedMsg 7 4) 28 = _ :=
    Client.handle_added ht
  rw [hr] at hadd
  obtain ⟨h0, hs0⟩ := takeRequest_idle h (hdrContext (structs3789.addedMsg 7 4))
  generalize c.takeRequest (hdrContext (structs3789.addedMsg 7 4)) = q at hadd h0 hs0
  generalize hc1 : q.2.handleSrcAdded 1 7 4 = c1 at hadd
  obtain ⟨⟨p, k, hm, hd, hw⟩, ho, hs, hl⟩ := handleSrcAdded_waiting h0.undescribed hc1
  rw [h0.waiting] at hw
  generalize hx : c1.sendNextMsg session3789.handler 1 24 = x
  obtain ⟨hl2, ho2, hw2, hm2, hh2, hs2⟩ :=
    sendNextMsg_waiting 1 24 (hl.trans h0.live) (ho.trans h0.outq) hw (show _ = (x.1, x.2) from hx)
  have hstep1 : session3789.step c (.readNextMessage 1 1 (structs3789.addedMsg 7 4) 28) =
      some (c1, c.record 1 ((structs3789.addedMsg 7 4).take 28) ++ []) := by
    show (c.handleResponseMessage ntStatKernel3789 1 (structs3789.addedMsg 7 4) 28).map _ = _
    rw [hadd]
    rfl
  have hstep2 : session3789.step c1 (.sendNextMsg 1 24) = some (x.1, x.2) := congrArg some hx
  refine ⟨x.1, _, exec_cons.mpr ⟨c1, _, x.2, hstep1, exec_single.mpr hstep2, rfl⟩, ?_, ?_⟩
  · refine ⟨hl2, ho2, hw2, fun p' hp' => ?_⟩
    rw [hm2, hm] at hp'
    obtain rfl := Option.some.inj hp'
    rw [hh2, hd]
  · rw [hs2, hs, hs0]

theorem addAndAskAgain_idle (n : Nat) {c : Client} (h : Idle c) : ∃ c' effs,
    exec session3789.step c (addAndAskAgain n) = some (c', effs) ∧ Idle c' ∧
      c'.seqnum = c.seqnum + UInt16.ofNat n := by
  induction n generalizing c with
  | zero => exact ⟨c, [], rfl, h, by simp⟩
  | succ n ih =>
    obtain ⟨c1, e1, h1, hi1, hs1⟩ := addAndAsk_idle h
    obtain ⟨c2, e2, h2, hi2, hs2⟩ := ih hi1
    refine ⟨c2, e1 ++ e2, ?_, hi2, ?_⟩
    · show exec session3789.step c (addAndAsk ++ addAndAskAgain n) = _
      exact exec_append.mpr ⟨c1, e1, e2, h1, h2, rfl⟩
    · rw [hs2, hs1, UInt16.ofNat_add, UInt16.add_assoc, UInt16.add_comm 1]
      rfl

theorem asking_run (n : Nat) : ∃ c effs,
    session3789.run (.sendNextMsg 1 40 :: addAndAskAgain n) = some (c, effs) ∧
      c.seqnum = 2 + UInt16.ofNat n := by
  have h : (session3789.run [.sendNextMsg 1 40]).map (fun x => (x.1.inReplayMode,
      x.1.outq.isEmpty, x.1.mapWaitingForDesc.isEmpty, x.1.map.isEmpty, x.1.seqnum)) =
        some (false, true, true, true, 2) := by decide
  obtain ⟨⟨c1, e1⟩, h1, hx⟩ := Option.map_eq_some_iff.mp h
  simp only [Prod.mk.injEq] at hx
  obtain ⟨hl, ho, hw, hm, hs⟩ := hx
  have hidle : Idle c1 := by
    refine ⟨hl, List.isEmpty_iff.mp ho, ExtTreeMap.isEmpty_iff.mp hw, fun p hp => ?_⟩
    rw [ExtTreeMap.isEmpty_iff.mp hm] at hp
    cases hp
  obtain ⟨c2, e2, h2, _, hs2⟩ := addAndAskAgain_idle n hidle
  refine ⟨c2, e1 ++ e2, ?_, by rw [hs2, hs]⟩
  exact exec_append.mpr ⟨c1, e1, e2, h1, h2, rfl⟩

theorem context_wraps : ∃ c effs, session3789.run wrapping = some (c, effs) ∧ ¬ c.Usable := by
  obtain ⟨c, effs, h, hs⟩ := asking_run 65534
  refine ⟨c, effs, h, fun hu => hu.1 ?_⟩
  rw [hs]
  decide

end Session

end Ntstat
