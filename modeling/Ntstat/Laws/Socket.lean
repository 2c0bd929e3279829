import Ntstat.Laws.Replay
import Ntstat.Laws.Matching
import Ntstat.Laws.Truncation

/-!
# The traffic on the control socket, and what is kept of it

* `Session.tap`        the session, watched at its socket;
* `step_traffic`       a recording client writes what is seen there to the file;
* `recorded_traffic`   so the file holds the traffic, and a file that was cut off its first part;
* `filed_latest`       of the requests, the client keeps the last one of each context that was not
                       answered, in runs of any length.
-/

namespace Ntstat
open Memory Machine Std

/-! ## the record file -/

/-- what goes over the socket in a step, with the time of its entry -/
def Step.traffic : Step → List Effect → List Record
  | readNextMessage _ timestamp buf n, _ =>
    if n ≤ 0 then [] else [⟨timestamp, buf.take n.toNat⟩]
  | sendNextMsg timestamp _, effs => (written effs).map (Record.mk timestamp)
  | _, _ => []

/-- the message has a length that the kernel gives it and the buffer can hold -/
def Step.Sized : Step → Prop
  | readNextMessage _ _ _ n => n ≤ 0 ∨ 16 ≤ n ∧ n ≤ 2048
  | _ => True

variable {H : NTStatKernelStructHandler} {c c' : Client} {st : Step} {effs : List Effect}

theorem recorded_record (hc : c.Recording H) (timestamp : UInt32) (data : List UInt8) :
    recorded (c.record timestamp data) = (Record.mk timestamp data).bytes := by
  rw [Client.record, if_pos hc.enabled]
  exact List.append_nil _

/-- what a step writes to the socket is a request -/
theorem written_request (hc : c.Recording H) (h : step H c st = some (c', effs)) :
    ∀ msg ∈ written effs, ∃ context, Request H context msg := by
  have hQ := Client.keepsRecording_composed H
  have hU := Client.unwritten_composed H
  cases turn_of_step h with
  | @message now timestamp buf n x hn hx =>
    have hw : written x.2.2 = [] := hU.handleResponseMessage hx
    rw [written_append, hw, (c.quiet_record_effects timestamp _).2]
    exact fun msg hm => absurd hm List.not_mem_nil
  | sendNextMsg timestamp rc =>
    obtain ⟨h1, -⟩ := hQ.sendWaitingDesc c hc
    obtain ⟨h2, -⟩ := hQ.sendWaitingCount (c.sendWaitingDesc H).1 h1
    have w1 : written (c.sendWaitingDesc H).2 = [] := hU.sendWaitingDesc c
    have w2 : written ((c.sendWaitingDesc H).1.sendWaitingCount H).2 = [] := hU.sendWaitingCount _
    unfold Client.sendNextMsg
    dsimp only
    rw [written_append, written_append, w1, w2, List.nil_append, List.nil_append]
    generalize ((c.sendWaitingDesc H).1.sendWaitingCount H).1 = c2 at h2 ⊢
    unfold Client.sendFirst
    split
    · exact fun msg hm => absurd hm List.not_mem_nil
    · next qm outq ho =>
      intro msg hm
      dsimp only [Client.sendQMsg] at hm
      rw [written_append, (c2.quiet_record_effects timestamp qm.msgbytes).2] at hm
      obtain rfl := List.mem_singleton.mp hm
      exact h2.outq qm (ho ▸ List.mem_cons_self)
  | _ => exact fun msg hm => absurd hm List.not_mem_nil

/-- **A recording client writes to the file what goes over the socket.** -/
theorem step_traffic (hc : c.Recording H) (h : step H c st = some (c', effs)) :
    c'.Recording H ∧ recorded effs = (st.traffic effs).flatMap Record.bytes := by
  have hQ := Client.keepsRecording_composed H
  have hU := Client.unwritten_composed H
  cases turn_of_step h with
  | nothing hn =>
    refine ⟨hc, ?_⟩
    unfold Step.traffic
    dsimp only
    rw [if_pos hn]
    rfl
  | message hn hx =>
    obtain ⟨h1, h2⟩ := hQ.handleResponseMessage hx hc
    refine ⟨h1, ?_⟩
    unfold Step.traffic
    dsimp only
    rw [recorded_append, h2, recorded_record hc, List.append_nil, if_neg (Int.not_le.mpr hn),
      List.flatMap_singleton]
  | updateWaitForCountsQueue now => exact ⟨(hQ.updateWaitForCountsQueue now c hc).1, rfl⟩
  | removeOldSources now => exact ⟨(hQ.removeOldSources now c hc).1, rfl⟩
  | sendNextMsg timestamp rc =>
    obtain ⟨h1, e1⟩ := hQ.sendWaitingDesc c hc
    obtain ⟨h2, e2⟩ := hQ.sendWaitingCount (c.sendWaitingDesc H).1 h1
    have w1 : written (c.sendWaitingDesc H).2 = [] := hU.sendWaitingDesc c
    have w2 : written ((c.sendWaitingDesc H).1.sendWaitingCount H).2 = [] := hU.sendWaitingCount _
    unfold Step.traffic Client.sendNextMsg
    dsimp only
    rw [recorded_append, recorded_append, e1, e2, written_append, written_append, w1, w2]
    generalize ((c.sendWaitingDesc H).1.sendWaitingCount H).1 = c2 at h2 ⊢
    unfold Client.sendFirst
    split
    · exact ⟨h2, rfl⟩
    · next qm outq ho =>
      have hq := h2.outq
      rw [ho] at hq
      refine ⟨⟨h2.enabled, fun q hm => hq q (List.mem_cons_of_mem _ hm)⟩, ?_⟩
      dsimp only [Client.sendQMsg]
      rw [recorded_append, recorded_record h2, written_append,
        (c2.quiet_record_effects timestamp qm.msgbytes).2]
      show _ ++ [] = (Record.mk timestamp qm.msgbytes).bytes ++ []
      rfl

/-- the traffic of a sized step can be read back -/
theorem traffic_valid {v : KernelVersion} {c c' : Client} (hc : c.Recording v.handler)
    (h : step v.handler c st = some (c', effs)) (hs : st.Sized) :
    ∀ r ∈ st.traffic effs, r.Valid := by
  intro r hr
  cases st with
  | readNextMessage now timestamp buf n =>
    unfold Step.traffic at hr
    dsimp only at hr
    by_cases hn : n ≤ 0
    · rw [if_pos hn] at hr
      exact absurd hr List.not_mem_nil
    · rw [if_neg hn] at hr
      obtain rfl := List.mem_singleton.mp hr
      obtain ⟨h16, h2048⟩ := hs.resolve_left hn
      unfold Record.Valid
      rw [hdr_offsets.2.2]
      dsimp only
      rw [Mem.take_length]
      omega
  | sendNextMsg timestamp rc =>
    obtain ⟨msg, hm, rfl⟩ := List.mem_map.mp hr
    obtain ⟨context, hreq⟩ := written_request hc h msg hm
    exact (request_entry (r := ⟨timestamp, msg⟩) hreq (fun _ => 0)).1
  | updateWaitForCountsQueue now => exact absurd hr List.not_mem_nil
  | removeOldSources now => exact absurd hr List.not_mem_nil

namespace Session
variable (S : Session)

/-- the session, watched at its socket -/
def tap (c : Client) (st : Step) : Option (Client × List Record) :=
  (S.step c st).map fun x => (x.1, st.traffic x.2)

variable {S} {steps : List Step} {c : Client} {effs : List Effect}

/-- the watched session, and the file so far -/
theorem exists_tap {fd : Int} (hrec : S.cfg.recordFd = some fd) (hfd : 0 < fd)
    (h : S.run steps = some (c, effs)) :
    c.Recording S.handler ∧ ∃ rs, exec S.tap S.start steps = some (c, rs) ∧
      recorded effs = rs.flatMap Record.bytes ∧
      ((∀ st ∈ steps, st.Sized) → ∀ r ∈ rs, r.Valid) := by
  refine exec_inv (P := fun steps c effs => c.Recording S.handler ∧ ∃ rs,
    exec S.tap S.start steps = some (c, rs) ∧ recorded effs = rs.flatMap Record.bytes ∧
      ((∀ st ∈ steps, st.Sized) → ∀ r ∈ rs, r.Valid)) ?_ ?_ h
  · exact ⟨(start_recording hrec hfd).1, [], rfl, rfl, fun _ r hr => absurd hr List.not_mem_nil⟩
  · intro steps c1 e1 st c2 e2 _ hP hst
    obtain ⟨hc, rs, htap, hbytes, hvalid⟩ := hP
    obtain ⟨hc', he⟩ := step_traffic hc hst
    have hnext : S.tap c1 st = some (c2, st.traffic e2) := by
      rw [tap, hst]
      rfl
    refine ⟨hc', rs ++ st.traffic e2, exec_concat.mpr ⟨c1, rs, _, htap, hnext, rfl⟩, ?_, ?_⟩
    · rw [recorded_append, hbytes, he, List.flatMap_append]
    · intro hs r hr
      rcases List.mem_append.mp hr with hr | hr
      · exact hvalid (fun x hx => hs x (List.mem_append_left _ hx)) r hr
      · exact traffic_valid hc hst (hs st (by simp)) r hr

/-- **The record file holds the traffic of the socket: every message that was read and every
request that was written, in order and byte for byte; and of a file that was cut off, a first part
of the traffic is read back.** -/
theorem recorded_traffic {fd : Int} (hrec : S.cfg.recordFd = some fd) (hfd : 0 < fd)
    (h : S.run steps = some (c, effs)) :
    ∃ rs, exec S.tap S.start steps = some (c, rs) ∧
      recorded (S.prologue ++ effs) = rs.flatMap Record.bytes ∧
      ((∀ st ∈ steps, st.Sized) → records (recorded (S.prologue ++ effs)) = rs ∧
        ∀ k, records ((recorded (S.prologue ++ effs)).take k) <+: rs) := by
  obtain ⟨-, rs, htap, hbytes, hvalid⟩ := exists_tap hrec hfd h
  have hfile : recorded (S.prologue ++ effs) = rs.flatMap Record.bytes := by
    rw [recorded_append, (start_recording hrec hfd).2, hbytes]
    rfl
  refine ⟨rs, htap, hfile, fun hs => ⟨?_, fun k => ?_⟩⟩
  · rw [hfile]
    exact records_bytes (hvalid hs)
  · obtain ⟨n, -, -, hreads⟩ := reads_cut (hvalid hs) k
    rw [hfile, (reads_records _).unique hreads]
    exact List.take_prefix n rs

/-- the subscription goes out, and a source is announced, described and counted -/
theorem recorded_traffic_counted : (∀ st ∈ counted, st.Sized) ∧ ∃ c effs rs,
    recording3789.run counted = some (c, effs) ∧ rs.length = 4 ∧
    exec recording3789.tap recording3789.start counted = some (c, rs) ∧
    records (recorded (recording3789.prologue ++ effs)) = rs := by
  have hs : ∀ st ∈ counted, st.Sized := by
    unfold counted
    simp only [List.forall_mem_cons, List.not_mem_nil, false_implies, implies_true, and_true]
    exact ⟨trivial, Or.inr ⟨by decide, by decide⟩, Or.inr ⟨by decide, by decide⟩, trivial,
      Or.inr ⟨by decide, by decide⟩⟩
  obtain ⟨⟨c, effs⟩, h⟩ := Option.isSome_iff_exists.mp
    (show (recording3789.run counted).isSome = true by decide)
  have hlen : (exec recording3789.tap recording3789.start counted).map
    (fun x => x.2.length) = some 4 := by decide
  have hrec : recording3789.cfg.recordFd = some 5 := rfl
  obtain ⟨rs, htap, -, hread⟩ := recorded_traffic hrec (by decide) h
  rw [htap] at hlen
  exact ⟨hs, c, effs, rs, h, Option.some.inj hlen, htap, (hread hs).1⟩

/-! ## the filed requests -/

variable (S) in
/-- what a step does to the request that is filed under a context: a message with the context takes
it out, and a request with the context takes its place -/
def refile (context : UInt64) (c : Client) : Step → Option (Option (List UInt8))
  | .readNextMessage _ _ buf n => if 0 < n ∧ hdrContext buf = context then some none else none
  | .sendNextMsg timestamp rc =>
    ((written (c.sendNextMsg S.handler timestamp rc).2).find? fun msg =>
      hdrContext (Mem.ofList msg) == context).map some
  | _ => none

/-- **A step files as `refile` says.** -/
theorem filed_next {c' : Client} {st : Step} {effs' : List Effect}
    (h : S.run steps = some (c, effs)) (hst : S.step c st = some (c', effs')) (context : UInt64) :
    c'.qmsgMap[context]?.map QMsg.msgbytes =
      (S.refile context c st).getD (c.qmsgMap[context]?.map QMsg.msgbytes) := by
  cases turn_of_step hst with
  | nothing hn =>
    unfold refile
    dsimp only
    rw [if_neg fun ha => absurd ha.1 (Int.not_lt.mpr hn)]
    rfl
  | @message now timestamp buf n x hn hx =>
    unfold refile
    dsimp only
    rw [Client.handleResponseMessage_qmsgMap hx context]
    by_cases hc : hdrContext buf = context
    · rw [if_pos hc, if_pos ⟨hn, hc⟩]
      rfl
    · rw [if_neg hc, if_neg fun ha => hc ha.2]
      rfl
  | updateWaitForCountsQueue now =>
    obtain ⟨_, _, he⟩ := c.updateWaitForCountsQueue_changes now
    rw [he]
    rfl
  | removeOldSources now => rfl
  | sendNextMsg timestamp rc =>
    unfold refile
    dsimp only
    rcases Client.sendNextMsg_filed (v := S.version) (run_queued h) timestamp rc with
      ⟨hw, hm⟩ | ⟨qm, hw, hq, hm⟩
    · rw [hw, hm]
      rfl
    · rw [hw, hm, ExtTreeMap.getElem?_insert, List.find?_singleton, ← hq]
      by_cases hc : qm.seqnum = context
      · rw [if_pos (by simp [hc]), if_pos (by simp [hc])]
        rfl
      · rw [if_neg (by simp [hc]), if_neg (by simp [hc])]
        rfl

/-- **In runs of any length, under each context stands the last request that was written with it,
unless a message with the context was handled since.** -/
theorem filed_latest (h : S.run steps = some (c, effs)) (context : UInt64) :
    c.qmsgMap[context]?.map QMsg.msgbytes =
      (latest S.step (S.refile context) S.start steps).join := by
  refine exec_inv (P := fun steps c _ => c.qmsgMap[context]?.map QMsg.msgbytes =
    (latest S.step (S.refile context) S.start steps).join) ?_ ?_ h
  · rw [show S.start.qmsgMap = ∅ from ?_, ExtTreeMap.getElem?_empty]
    · rfl
    · obtain ⟨_, _, _, ⟨_, _, _, _, _, _, he, -⟩, -⟩ :=
        Client.live_resubscribed S.handler S.cfg S.fd
      rw [show S.start = _ from he]
  · intro steps c1 e1 st c2 e2 hx hP hst
    rw [latest_concat hx, filed_next hx hst context, hP]
    cases S.refile context c1 st <;> rfl

/-- the subscription is filed, and an answer to something else leaves it so -/
def answeredOther : List Step :=
  [.sendNextMsg 1 24, .readNextMessage 1 1 (hdrImage 2 0 16 0) 16]

theorem filed_latest_answeredOther : ∃ c effs, session3789.run answeredOther = some (c, effs) ∧
    (latest session3789.step (session3789.refile 1) session3789.start answeredOther).join.isSome ∧
    c.qmsgMap[(1 : UInt64)]?.map QMsg.msgbytes =
      (latest session3789.step (session3789.refile 1) session3789.start answeredOther).join := by
  obtain ⟨⟨c, effs⟩, h⟩ := Option.isSome_iff_exists.mp
    (show (session3789.run answeredOther).isSome = true by decide)
  exact ⟨c, effs, h, by decide, filed_latest h 1⟩

end Session

end Ntstat
