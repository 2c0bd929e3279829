import Ntstat.Client.Wire
import Ntstat.Laws.Requests

/-!
# Requests and the messages that answer them

* `Client.Queued`     the requests sent so far, of which the queue holds those that are not written
                      yet, each with its place as context;
* `step_queues`       every step keeps that;
* `Filed`, `filed_step`   the filed requests are those that were handed to `SEND` and not answered
                      since;
* `requests_matched`  the order of the requests, their headers, and the request that is found for a
                      context.
-/

namespace Ntstat
open Memory Machine Std

theorem sent_eq (effs : List Effect) : sent effs = (enqueued effs).length := by
  unfold sent enqueued
  rw [List.length_filterMap_eq_countP]
  congr 1
  funext e
  cases e <;> rfl

/-- the request at place `k`, counted from 0 -/
structure InPlace (k : Nat) (msg : List UInt8) : Prop where
  context : hdrContext (Mem.ofList msg) = (UInt16.ofNat (k + 1)).toUInt64
  length : (hdrLength (Mem.ofList msg)).toNat = msg.length

namespace Client
variable {v : KernelVersion} {c : Client}

/-- a client that sent `reqs`, of which `wr` were written -/
structure Queued (c : Client) (reqs wr : List (List UInt8)) : Prop where
  live : c.inReplayMode = false
  seqnum : c.seqnum = UInt16.ofNat (reqs.length + 1)
  order : reqs = wr ++ c.outq.map QMsg.msgbytes
  outq : ∀ qm ∈ c.outq, qm.seqnum = hdrContext (Mem.ofList qm.msgbytes)
  inPlace : ∀ k msg, reqs[k]? = some msg → InPlace k msg

/-- the operation that gives `x` keeps account of its requests -/
def Queues (c : Client) (x : Client × List Effect) : Prop :=
  ∀ reqs wr, c.Queued reqs wr → x.1.Queued (reqs ++ enqueued x.2) (wr ++ written x.2)

theorem Queues.trans {x y : Client × List Effect} (hx : c.Queues x) (hy : x.1.Queues y) :
    c.Queues (y.1, x.2 ++ y.2) := by
  intro reqs wr h
  rw [enqueued_append, written_append, ← List.append_assoc, ← List.append_assoc]
  exact hy _ _ (hx reqs wr h)

theorem queues_of_still {x : Client × List Effect} (h : c.Still x) : c.Queues x := by
  intro reqs wr hq
  obtain ⟨h1, h2⟩ := quiet_of_notify h.effects
  rw [h1, h2, List.append_nil, List.append_nil]
  refine ⟨?_, h.seqnum.trans hq.seqnum, ?_, ?_, hq.inPlace⟩
  · rw [inReplayMode, h.recordFd, h.recordEnabled]
    exact hq.live
  · rw [h.outq]
    exact hq.order
  · rw [h.outq]
    exact hq.outq

theorem queues_send {msg : List UInt8} (h : Request v.handler c.seqnum.toUInt64 msg) :
    c.Queues (c.send msg) := by
  intro reqs wr hq
  have hctx : hdrContext (Mem.ofList msg) = c.seqnum.toUInt64 := h.context v.lawful
  unfold send
  rw [if_neg (by simp [hq.live])]
  refine ⟨hq.live, ?_, ?_, ?_, ?_⟩
  · show c.seqnum + 1 = _
    rw [hq.seqnum]
    simp [enqueued, Effect.enqueued]
  · rw [hq.order]
    simp [enqueued, written, Effect.enqueued, Effect.written, incQmsg]
  · intro qm hm
    rcases List.mem_append.mp hm with hm | hm
    · exact hq.outq qm hm
    · obtain rfl := List.mem_singleton.mp hm
      rfl
  · intro k msg' hk
    rw [show enqueued [Effect.enqueue msg] = [msg] from rfl] at hk
    by_cases hlt : k < reqs.length
    · rw [List.getElem?_append_left hlt] at hk
      exact hq.inPlace k msg' hk
    · -- the new request is the last one
      obtain ⟨hk1, hk2⟩ := List.getElem?_eq_some_iff.mp hk
      simp only [List.length_append, List.length_cons, List.length_nil] at hk1
      obtain rfl : k = reqs.length := by omega
      rw [List.getElem?_concat_length] at hk
      obtain rfl := Option.some.inj hk
      exact ⟨by rw [hctx, hq.seqnum], request_hdrLength h⟩

/-- **All operations keep account of their requests.** -/
theorem queues_composed (v : KernelVersion) : Composed v.handler Queues where
  trans := Queues.trans
  still := queues_of_still
  send := queues_send

theorem queues_sendFirst (c : Client) (timestamp : UInt32) (rc : Int) :
    c.Queues (c.sendFirst timestamp rc) := by
  unfold sendFirst
  split
  · exact queues_of_still (still_silent rfl rfl rfl rfl rfl)
  · next qm outq ho =>
    intro reqs wr hq
    obtain ⟨h1, h2⟩ := quiet_record_effects c timestamp qm.msgbytes
    dsimp only [sendQMsg]
    rw [enqueued_append, written_append, h1, h2, List.nil_append, List.nil_append,
      show enqueued [.socketWrite qm.msgbytes] = [] from rfl,
      show written [.socketWrite qm.msgbytes] = [qm.msgbytes] from rfl, List.append_nil]
    refine ⟨hq.live, hq.seqnum, ?_, fun q hm => hq.outq q (ho ▸ List.mem_cons_of_mem _ hm),
      hq.inPlace⟩
    have horder := hq.order
    rw [ho] at horder
    simpa using horder

theorem queues_waiting (v : KernelVersion) (c : Client) :
    c.Queues (((c.sendWaitingDesc v.handler).1.sendWaitingCount v.handler).1,
      (c.sendWaitingDesc v.handler).2 ++
        ((c.sendWaitingDesc v.handler).1.sendWaitingCount v.handler).2) :=
  ((queues_composed v).sendWaitingDesc c).trans ((queues_composed v).sendWaitingCount _)

theorem queues_sendNextMsg (v : KernelVersion) (c : Client) (timestamp : UInt32) (rc : Int) :
    c.Queues (c.sendNextMsg v.handler timestamp rc) :=
  (queues_waiting v c).trans (queues_sendFirst _ timestamp rc)

end Client

/-- **Every step keeps account of its requests.** -/
theorem step_queues {v : KernelVersion} {c c' : Client} {st : Step} {effs : List Effect}
    (h : step v.handler c st = some (c', effs)) : c.Queues (c', effs) := by
  have hQ := Client.queues_composed v
  cases turn_of_step h with
  | nothing hn => exact hQ.still (Client.still_silent rfl rfl rfl rfl rfl)
  | @message now timestamp buf n x hn hx =>
    intro reqs wr hq
    obtain ⟨h1, h2⟩ := c.quiet_record_effects timestamp (buf.take n.toNat)
    rw [enqueued_append, written_append, h1, h2, List.nil_append, List.nil_append]
    exact hQ.handleResponseMessage hx reqs wr hq
  | updateWaitForCountsQueue now => exact hQ.updateWaitForCountsQueue now c
  | removeOldSources now => exact hQ.removeOldSources now c
  | sendNextMsg timestamp rc => exact Client.queues_sendNextMsg v c timestamp rc

/-! ## the filed requests -/

/-- the step handles a message with the context -/
def Step.Answers (context : UInt64) : Step → Prop
  | readNextMessage _ _ buf n => 0 < n ∧ hdrContext buf = context
  | _ => False

namespace Client
variable {v : KernelVersion} {c : Client}

theorem handleState_qmsgMap {H : NTStatKernelStructHandler} (c : Client) (msg : Mem) (n : Nat)
    (reqMsg : QMsg) : (c.handleState H msg n reqMsg).1.qmsgMap = c.qmsgMap := by
  obtain ⟨_, _, _, _, _, _, he, -⟩ := handleState_resubscribed (H := H) c msg n reqMsg
  rw [he]

/-- a message takes out the request with its context -/
theorem handleResponseMessage_qmsgMap {H : NTStatKernelStructHandler} {now : Time} {msg : Mem}
    {n : Nat} {x : Int × Client × List Effect}
    (h : c.handleResponseMessage H now msg n = some x) (context : UInt64) :
    x.2.1.qmsgMap[context]? =
      if hdrContext msg = context then none else c.qmsgMap[context]? := by
  have htake : (c.takeRequest (hdrContext msg)).2.qmsgMap[context]? =
      if hdrContext msg = context then none else c.qmsgMap[context]? := by
    unfold takeRequest
    split
    · rw [ExtTreeMap.getElem?_erase]
      simp
    · next hn =>
      split
      · next he => exact he ▸ hn
      · rfl
  rw [← htake]
  rcases handleResponseMessage_cases h with ⟨-, -, he⟩ | ⟨-, hs⟩
  · rw [he, handleState_qmsgMap]
  · rw [hs.qmsgMap]

theorem waiting_qmsgMap {H : NTStatKernelStructHandler} (c : Client) :
    ((c.sendWaitingDesc H).1.sendWaitingCount H).1.qmsgMap = c.qmsgMap := by
  obtain ⟨_, _, _, _, h1⟩ := c.sendWaitingDesc_changes (H := H)
  obtain ⟨_, _, _, _, h2⟩ := (c.sendWaitingDesc H).1.sendWaitingCount_changes (H := H)
  rw [h2, h1]

/-- only `sendFirst` writes to the socket -/
theorem unwritten_composed (H : NTStatKernelStructHandler) :
    Composed H fun _ x => written x.2 = [] where
  trans hx hy := by rw [written_append, hx, hy, List.append_nil]
  still h := (quiet_of_notify h.effects).2
  send {c msg} _ := by
    unfold send
    split <;> rfl

/-- what is written is filed under its context -/
theorem sendNextMsg_filed {reqs wr : List (List UInt8)} (hq : c.Queued reqs wr)
    (timestamp : UInt32) (rc : Int) :
    written (c.sendNextMsg v.handler timestamp rc).2 = [] ∧
        (c.sendNextMsg v.handler timestamp rc).1.qmsgMap = c.qmsgMap ∨
      ∃ qm, written (c.sendNextMsg v.handler timestamp rc).2 = [qm.msgbytes] ∧
        qm.seqnum = hdrContext (Mem.ofList qm.msgbytes) ∧
        (c.sendNextMsg v.handler timestamp rc).1.qmsgMap = c.qmsgMap.insert qm.seqnum qm := by
  have hout := (queues_waiting v c reqs wr hq).outq
  have h1 : written (c.sendWaitingDesc v.handler).2 = [] :=
    (unwritten_composed v.handler).sendWaitingDesc c
  have h2 : written ((c.sendWaitingDesc v.handler).1.sendWaitingCount v.handler).2 = [] :=
    (unwritten_composed v.handler).sendWaitingCount _
  unfold sendNextMsg
  dsimp only at hout ⊢
  rw [written_append, written_append, h1, h2, ← waiting_qmsgMap (H := v.handler) c]
  generalize ((c.sendWaitingDesc v.handler).1.sendWaitingCount v.handler).1 = c2 at hout ⊢
  unfold sendFirst
  split
  · exact Or.inl ⟨rfl, rfl⟩
  · next qm outq ho =>
    refine Or.inr ⟨qm, ?_, hout qm (ho ▸ List.mem_cons_self), rfl⟩
    dsimp only [sendQMsg]
    rw [written_append, (c2.quiet_record_effects timestamp qm.msgbytes).2]
    rfl

end Client

namespace Session
variable (S : Session)

/-- the step hands the request with the context to `SEND` -/
def Hands (context : UInt64) (c : Client) (st : Step) : Prop :=
  ∃ c' effs, S.step c st = some (c', effs) ∧
    ∃ msg ∈ written effs, hdrContext (Mem.ofList msg) = context

/-- the request with the context was handed to `SEND`, and no message with the context was handled
since -/
def Outstanding (steps : List Step) (context : UInt64) : Prop :=
  Since S.step S.start steps (S.Hands context) fun _ st => ¬ st.Answers context

/-- the filed requests are the outstanding ones -/
structure Filed (steps : List Step) (c : Client) (wr : List (List UInt8)) (context : UInt64) :
    Prop where
  found : S.Outstanding steps context → ∃ qm, c.qmsgMap[context]? = some qm ∧
    qm.msgbytes ∈ wr ∧ hdrContext (Mem.ofList qm.msgbytes) = context
  none : ¬ S.Outstanding steps context → c.qmsgMap[context]? = none

variable {S} {steps : List Step} {c : Client} {effs : List Effect}

theorem start_queued (S : Session) : S.start.Queued (enqueued S.prologue) (written S.prologue) := by
  have hl : (Client.configured S.cfg).inReplayMode = false := (configured_numbered S.cfg).live
  have h1 : ((Client.configured S.cfg).connectToKernel S.fd).Queued [] [] := by
    obtain ⟨_, _, _, he, -⟩ := Client.configured_changes S.cfg
    rw [he] at hl ⊢
    exact ⟨hl, rfl, rfl, fun qm hm => absurd hm List.not_mem_nil, fun k msg hk => by simp at hk⟩
  exact (Client.queues_composed S.version).beginRun _ [] [] h1

theorem run_queued (h : S.run steps = some (c, effs)) :
    c.Queued (enqueued (S.prologue ++ effs)) (written (S.prologue ++ effs)) := by
  refine exec_inv (P := fun _ c effs =>
    c.Queued (enqueued (S.prologue ++ effs)) (written (S.prologue ++ effs))) ?_ ?_ h
  · rw [List.append_nil]
    exact start_queued S
  · intro steps c1 e1 st c2 e2 _ hP hst
    rw [← List.append_assoc, enqueued_append, written_append]
    exact step_queues hst _ _ hP

section
variable {c' : Client} {st : Step} {effs' : List Effect} {context : UInt64}

theorem hands_iff (hst : S.step c st = some (c', effs')) : S.Hands context c st ↔
    ∃ msg ∈ written effs', hdrContext (Mem.ofList msg) = context := by
  unfold Hands
  rw [hst]
  simp

/-- a step that writes nothing can only take the request out -/
theorem filed_of_unwritten (hx : S.run steps = some (c, effs))
    (hst : S.step c st = some (c', effs')) (hw : written effs' = [])
    (ha : st.Answers context → c'.qmsgMap[context]? = none)
    (hn : ¬ st.Answers context → c'.qmsgMap[context]? = c.qmsgMap[context]?)
    (h : S.Filed steps c (written (S.prologue ++ effs)) context) :
    S.Filed (steps ++ [st]) c' (written (S.prologue ++ (effs ++ effs'))) context := by
  have hout : S.Outstanding (steps ++ [st]) context ↔
      S.Outstanding steps context ∧ ¬ st.Answers context := by
    refine (since_concat hx).trans (or_iff_right ?_)
    rw [hands_iff hst, hw]
    simp
  rw [← List.append_assoc, written_append, hw, List.append_nil]
  constructor
  · intro ho
    obtain ⟨ho, hna⟩ := hout.mp ho
    rw [hn hna]
    exact h.found ho
  · intro ho
    by_cases hans : st.Answers context
    · exact ha hans
    · rw [hn hans]
      exact h.none fun ho' => ho (hout.mpr ⟨ho', hans⟩)

/-- what is written is filed -/
theorem filed_of_written (hx : S.run steps = some (c, effs))
    (hst : S.step c st = some (c', effs')) (hna : ¬ st.Answers context) {qm : QMsg}
    (hw : written effs' = [qm.msgbytes]) (hs : qm.seqnum = hdrContext (Mem.ofList qm.msgbytes))
    (hm : c'.qmsgMap = c.qmsgMap.insert qm.seqnum qm)
    (h : S.Filed steps c (written (S.prologue ++ effs)) context) :
    S.Filed (steps ++ [st]) c' (written (S.prologue ++ (effs ++ effs'))) context := by
  have hout : S.Outstanding (steps ++ [st]) context ↔
      qm.seqnum = context ∨ S.Outstanding steps context := by
    refine (since_concat hx).trans (or_congr ?_ (and_iff_left hna))
    rw [hands_iff hst, hw, hs]
    simp
  have hget : c'.qmsgMap[context]? =
      if qm.seqnum = context then some qm else c.qmsgMap[context]? := by
    rw [hm, ExtTreeMap.getElem?_insert]
    simp
  rw [← List.append_assoc, written_append, hw]
  by_cases he : qm.seqnum = context
  · rw [if_pos he] at hget
    exact ⟨fun _ => ⟨qm, hget, by simp, hs ▸ he⟩, fun ho => absurd (hout.mpr (Or.inl he)) ho⟩
  · rw [if_neg he] at hget
    constructor
    · intro ho
      obtain ⟨qm', h1, h2, h3⟩ := h.found ((hout.mp ho).resolve_left he)
      exact ⟨qm', hget.trans h1, List.mem_append_left _ h2, h3⟩
    · intro ho
      exact hget.trans (h.none fun ho' => ho (hout.mpr (Or.inr ho')))

/-- **Every step keeps the filed requests the outstanding ones.** -/
theorem filed_step (hx : S.run steps = some (c, effs)) (hst : S.step c st = some (c', effs'))
    (h : S.Filed steps c (written (S.prologue ++ effs)) context) :
    S.Filed (steps ++ [st]) c' (written (S.prologue ++ (effs ++ effs'))) context := by
  cases turn_of_step hst with
  | nothing hn =>
    exact filed_of_unwritten hx hst rfl (fun ha => absurd ha.1 (Int.not_lt.mpr hn)) (fun _ => rfl) h
  | @message now timestamp buf n x hn hh =>
    have hw : written x.2.2 = [] := (Client.unwritten_composed S.handler).handleResponseMessage hh
    have hm := Client.handleResponseMessage_qmsgMap hh context
    refine filed_of_unwritten hx hst ?_ (fun ha => ?_) (fun ha => ?_) h
    · rw [written_append, hw, (c.quiet_record_effects timestamp _).2]
      rfl
    · rw [hm, if_pos ha.2]
    · rw [hm, if_neg fun hc => ha ⟨hn, hc⟩]
  | updateWaitForCountsQueue now =>
    obtain ⟨_, _, he⟩ := c.updateWaitForCountsQueue_changes now
    exact filed_of_unwritten hx hst rfl (fun ha => ha.elim) (fun _ => by rw [he]) h
  | removeOldSources now =>
    exact filed_of_unwritten hx hst rfl (fun ha => ha.elim) (fun _ => rfl) h
  | sendNextMsg timestamp rc =>
    rcases Client.sendNextMsg_filed (v := S.version) (run_queued hx) timestamp rc with
      ⟨hw, hm⟩ | ⟨qm, hw, hq, hm⟩
    · exact filed_of_unwritten hx hst hw (fun ha => ha.elim) (fun _ => by rw [hm]) h
    · exact filed_of_written hx hst (fun ha => ha.elim) hw hq hm h

end

theorem run_filed (h : S.run steps = some (c, effs)) (context : UInt64) :
    S.Filed steps c (written (S.prologue ++ effs)) context := by
  refine exec_inv (P := fun steps c effs =>
    S.Filed steps c (written (S.prologue ++ effs)) context) ?_ ?_ h
  · refine ⟨fun ho => absurd ho (since_nil _), fun _ => ?_⟩
    obtain ⟨_, _, _, ⟨_, _, _, _, _, _, he, -⟩, -⟩ :=
      Client.live_resubscribed S.handler S.cfg S.fd
    rw [show S.start = _ from he]
    exact ExtTreeMap.getElem?_empty
  · intro steps c1 e1 st c2 e2 hx hP hst
    exact filed_step hx hst hP

theorem context_ofNat {k : Nat} (h : k < 65535) :
    (UInt16.ofNat (k + 1)).toUInt64 = UInt64.ofNat (k + 1) := by
  refine UInt64.toNat_inj.mp ?_
  rw [Client.toUInt64_ofNat (by omega), UInt64.toNat_ofNat']
  exact (Nat.mod_eq_of_lt (by omega)).symm

/-- **Response matching.** -/
theorem requests_matched (h : S.run steps = some (c, effs)) (hk : S.requests effs < 65535) :
    written (S.prologue ++ effs) <+: enqueued (S.prologue ++ effs) ∧
    (∀ k msg, (enqueued (S.prologue ++ effs))[k]? = some msg →
      hdrContext (Mem.ofList msg) = UInt64.ofNat (k + 1) ∧
      (hdrLength (Mem.ofList msg)).toNat = msg.length) ∧
    (∀ context, S.Outstanding steps context → ∃ k qm, context = UInt64.ofNat (k + 1) ∧
      (enqueued (S.prologue ++ effs))[k]? = some qm.msgbytes ∧
      c.takeRequest context = (qm, { c with qmsgMap := c.qmsgMap.erase context })) ∧
    (∀ context, ¬ S.Outstanding steps context → c.takeRequest context = ({}, c)) ∧
    c.takeRequest 0 = ({}, c) := by
  have hq := run_queued h
  have hplace : ∀ k msg, (enqueued (S.prologue ++ effs))[k]? = some msg →
      hdrContext (Mem.ofList msg) = UInt64.ofNat (k + 1) ∧
      (hdrLength (Mem.ofList msg)).toNat = msg.length := by
    intro k msg hget
    obtain ⟨hlt, -⟩ := List.getElem?_eq_some_iff.mp hget
    rw [requests, sent_eq] at hk
    obtain ⟨h1, h2⟩ := hq.inPlace k msg hget
    exact ⟨h1.trans (context_ofNat (by omega)), h2⟩
  have hpre : written (S.prologue ++ effs) <+: enqueued (S.prologue ++ effs) := ⟨_, hq.order.symm⟩
  have hnone : ∀ context, ¬ S.Outstanding steps context → c.takeRequest context = ({}, c) := by
    intro context ho
    unfold Client.takeRequest
    rw [(run_filed h context).none ho]
  have hfound : ∀ context, S.Outstanding steps context → ∃ k qm, k < 65535 ∧
      context = UInt64.ofNat (k + 1) ∧ (enqueued (S.prologue ++ effs))[k]? = some qm.msgbytes ∧
      c.takeRequest context = (qm, { c with qmsgMap := c.qmsgMap.erase context }) := by
    intro context ho
    obtain ⟨qm, hm, hw, hc⟩ := (run_filed h context).found ho
    obtain ⟨k, hget⟩ := List.mem_iff_getElem?.mp (hpre.subset hw)
    obtain ⟨hlt, -⟩ := List.getElem?_eq_some_iff.mp hget
    rw [requests, sent_eq] at hk
    refine ⟨k, qm, by omega, hc.symm.trans (hplace k _ hget).1, hget, ?_⟩
    unfold Client.takeRequest
    rw [hm]
  refine ⟨hpre, hplace, fun context ho => ?_, hnone, hnone 0 fun ho => ?_⟩
  · obtain ⟨k, qm, -, hex⟩ := hfound context ho
    exact ⟨k, qm, hex⟩
  · obtain ⟨k, -, hlt, h0, -⟩ := hfound 0 ho
    rw [← context_ofNat hlt] at h0
    have := congrArg UInt64.toNat h0
    rw [Client.toUInt64_ofNat (by omega)] at this
    simp at this

theorem requests_matched_subscribed : ∃ c effs,
    session3789.run [.sendNextMsg 1 40] = some (c, effs) ∧
    ((enqueued (session3789.prologue ++ effs)).length = 1 ∧
      written (session3789.prologue ++ effs) <+: enqueued (session3789.prologue ++ effs)) ∧
    (∀ context, ¬ session3789.Outstanding [.sendNextMsg 1 40] context →
      c.takeRequest context = ({}, c)) ∧
    session3789.Outstanding [.sendNextMsg 1 40] 1 ∧
    ∃ k qm, 1 = UInt64.ofNat (k + 1) ∧
      (enqueued (session3789.prologue ++ effs))[k]? = some qm.msgbytes ∧
      c.takeRequest 1 = (qm, { c with qmsgMap := c.qmsgMap.erase 1 }) := by
  have hrun : (session3789.run [.sendNextMsg 1 40]).map (fun x =>
      ((enqueued (session3789.prologue ++ x.2)).length, (written x.2).map fun msg =>
        hdrContext (Mem.ofList msg))) = some (1, [1]) := by decide
  obtain ⟨⟨c, effs⟩, h, he⟩ := Option.map_eq_some_iff.mp hrun
  obtain ⟨hlen, hctx⟩ := Prod.mk.inj he
  have hk : session3789.requests effs < 65535 := by
    rw [requests, sent_eq, hlen]
    decide
  have hout : session3789.Outstanding [.sendNextMsg 1 40] 1 := by
    refine (since_concat (exec_nil _)).mpr (Or.inl ⟨c, effs, exec_single.mp h, ?_⟩)
    obtain ⟨msg, hm, h1⟩ := List.mem_map.mp (hctx ▸ List.mem_cons_self : (1 : UInt64) ∈ _)
    exact ⟨msg, hm, h1⟩
  obtain ⟨h1, -, h2, h3, -⟩ := requests_matched h hk
  exact ⟨c, effs, h, ⟨hlen, h1⟩, h3, hout, h2 1 hout⟩

end Session

end Ntstat
