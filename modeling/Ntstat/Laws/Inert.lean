import Ntstat.Client.Traffic
import Ntstat.Laws.Drops

/-!
# Answers to requests change nothing once the client runs

Two clients that differ only in their filed requests and their counters of errors are compared, one
of which handles the answers.

* `Client.withAnswers`   the parts that answers change;
* `withAnswers_message` and its companions   no operation reads them;
* `answers_inert`        so SUCCESS, ERROR and unknown messages show nothing in the running state:
                         no request is repeated, and no call of the listener depends on them.
-/

namespace Ntstat
open Memory Machine Std

/-- the messages about sources -/
def sourceMessages : List MsgType := [.srcAdded, .srcRemoved, .srcDesc, .srcCounts]

/-- a step other than handling an answer -/
def Step.noAnswer : Step → Bool
  | readNextMessage _ _ buf n => 0 < n && hdrType buf ∈ sourceMessages
  | _ => true

/-- everything but the record file -/
def Effect.unrecorded : Effect → Option Effect
  | fileWrite _ => none
  | e => some e

namespace Client
variable {H : NTStatKernelStructHandler} {c : Client} {m : ExtTreeMap UInt64 QMsg} {d e : UInt32}

/-- the parts that answers change -/
def withAnswers (c : Client) (m : ExtTreeMap UInt64 QMsg) (d e : UInt32) : Client :=
  { c with qmsgMap := m, numDrops := d, numErrors := e }

theorem withAnswers_self (c : Client) : c.withAnswers c.qmsgMap c.numDrops c.numErrors = c := rfl

/-! ## the operations -/

theorem withAnswers_reset (now : Time) (srcRef : UInt64) (providerId : UInt32) :
    (c.withAnswers m d e).resetSource now srcRef providerId =
      ((c.resetSource now srcRef providerId).1,
        (c.resetSource now srcRef providerId).2.withAnswers m d e) := by
  unfold resetSource withAnswers
  dsimp only
  cases c.map[srcRef]? with
  | none => rfl
  | some p =>
    dsimp only
    by_cases h : (c.heap p).tsRemoved > 0
    · rw [if_pos h, if_pos h]
      rfl
    · rw [if_neg h, if_neg h]

theorem withAnswers_added (now : Time) (srcRef : UInt64) (providerId : UInt32) :
    (c.withAnswers m d e).handleSrcAdded now srcRef providerId =
      (c.handleSrcAdded now srcRef providerId).withAnswers m d e := by
  unfold handleSrcAdded
  rw [withAnswers_reset]
  generalize c.resetSource now srcRef providerId = r
  show (if !(r.2.heap r.1).haveDesc then _ else _) =
    (if !(r.2.heap r.1).haveDesc then _ else _ : Client).withAnswers m d e
  cases (r.2.heap r.1).haveDesc <;> rfl

theorem withAnswers_removed (now : Time) (srcRef : UInt64) :
    (c.withAnswers m d e).handleSrcRemoved now srcRef =
      ((c.handleSrcRemoved now srcRef).1.withAnswers m d e, (c.handleSrcRemoved now srcRef).2) := by
  unfold handleSrcRemoved lookupSource withAnswers
  dsimp only
  cases c.map[srcRef]? <;> rfl

theorem withAnswers_desc (msg : Mem) (n : Nat) (srcRef : UInt64) :
    (c.withAnswers m d e).handleSrcDesc H msg n srcRef =
      (c.handleSrcDesc H msg n srcRef).map fun x => (x.1.withAnswers m d e, x.2) := by
  unfold handleSrcDesc lookupSource withAnswers
  dsimp only
  cases c.map[srcRef]? with
  | none => rfl
  | some p =>
    dsimp only
    cases H.readSrcDesc msg n (c.heap p).obj with
    | none => rfl
    | some x =>
      obtain ⟨b, obj⟩ := x
      cases b <;> rfl

theorem withAnswers_counts (now : Time) (msg : Mem) (n : Nat) (srcRef : UInt64) :
    (c.withAnswers m d e).handleSrcCounts H now msg n srcRef =
      ((c.handleSrcCounts H now msg n srcRef).1.withAnswers m d e,
        (c.handleSrcCounts H now msg n srcRef).2) := by
  unfold handleSrcCounts lookupSource withAnswers
  dsimp only
  cases c.map[srcRef]? <;> rfl

theorem withAnswers_sweep (now : Time) : (c.withAnswers m d e).updateWaitForCountsQueue now =
    (c.updateWaitForCountsQueue now).withAnswers m d e := by
  have key : ∀ (ps : List Ptr) (c : Client), ps.foldl (requestCount now) (c.withAnswers m d e) =
      (ps.foldl (requestCount now) c).withAnswers m d e := by
    intro ps
    induction ps with
    | nil => exact fun c => rfl
    | cons p ps ih =>
      intro c
      rw [List.foldl_cons, List.foldl_cons, ← ih]
      refine congrArg (List.foldl _ · ps) ?_
      unfold requestCount
      show (if (c.heap p).wantsCount now then _ else _) =
        (if (c.heap p).wantsCount now then _ else _ : Client).withAnswers m d e
      cases (c.heap p).wantsCount now <;> rfl
  exact key _ c

theorem withAnswers_send (msg : List UInt8) : (c.withAnswers m d e).send msg =
    ((c.send msg).1.withAnswers m d e, (c.send msg).2) := by
  unfold send
  show (if c.inReplayMode then _ else _) = _
  cases c.inReplayMode <;> rfl

theorem withAnswers_sendDesc : (c.withAnswers m d e).sendWaitingDesc H =
    ((c.sendWaitingDesc H).1.withAnswers m d e, (c.sendWaitingDesc H).2) := by
  have h1 : (c.withAnswers m d e).outq = c.outq := rfl
  have h2 : (c.withAnswers m d e).mapWaitingForDesc = c.mapWaitingForDesc := rfl
  unfold sendWaitingDesc
  rw [h1, h2]
  cases c.outq with
  | cons qm outq => rfl
  | nil =>
    cases c.mapWaitingForDesc.toList with
    | nil => rfl
    | cons kp rest =>
      dsimp only
      rw [withAnswers_send]
      rfl

theorem withAnswers_sendCount : (c.withAnswers m d e).sendWaitingCount H =
    ((c.sendWaitingCount H).1.withAnswers m d e, (c.sendWaitingCount H).2) := by
  have h1 : (c.withAnswers m d e).outq = c.outq := rfl
  have h2 : (c.withAnswers m d e).mapWaitingForCount = c.mapWaitingForCount := rfl
  have h3 : (c.withAnswers m d e).heap = c.heap := rfl
  unfold sendWaitingCount
  rw [h1, h2, h3]
  cases c.outq with
  | cons qm outq => rfl
  | nil =>
    cases c.mapWaitingForCount.toList with
    | nil => rfl
    | cons kp rest =>
      dsimp only
      rw [withAnswers_send]
      cases (c.heap kp.2).tsRemoved == 0 && (c.heap kp.2).requestedCount <;> rfl

/-- the request that goes out is filed -/
theorem withAnswers_sendFirst (timestamp : UInt32) (rc : Int) :
    ∃ m', (c.withAnswers m d e).sendFirst timestamp rc =
      ((c.sendFirst timestamp rc).1.withAnswers m' d e, (c.sendFirst timestamp rc).2) := by
  have h1 : (c.withAnswers m d e).outq = c.outq := rfl
  unfold sendFirst
  rw [h1]
  cases c.outq with
  | nil => exact ⟨m, rfl⟩
  | cons qm outq => exact ⟨m.insert qm.seqnum qm, rfl⟩

theorem withAnswers_sendNextMsg (timestamp : UInt32) (rc : Int) :
    ∃ m', (c.withAnswers m d e).sendNextMsg H timestamp rc =
      ((c.sendNextMsg H timestamp rc).1.withAnswers m' d e, (c.sendNextMsg H timestamp rc).2) := by
  unfold sendNextMsg
  rw [withAnswers_sendDesc]
  dsimp only
  rw [withAnswers_sendCount]
  obtain ⟨m', h⟩ := withAnswers_sendFirst (m := m) (d := d) (e := e)
    (c := ((c.sendWaitingDesc H).1.sendWaitingCount H).1) timestamp rc
  exact ⟨m', by rw [h]⟩

/-! ## messages -/

theorem takeRequest_withAnswers (context : UInt64) :
    ∃ m', (c.takeRequest context).2 = c.withAnswers m' c.numDrops c.numErrors := by
  unfold takeRequest
  split
  · exact ⟨_, rfl⟩
  · exact ⟨c.qmsgMap, rfl⟩

/-- a message about a source does not ask for the parts that answers change -/
theorem withAnswers_message {now : Time} {msg : Mem} {n : Nat} (ht : hdrType msg ∈ sourceMessages)
    {x : Int × Client × List Effect} (h : c.handleResponseMessage H now msg n = some x) :
    ∃ m', (c.withAnswers m d e).handleResponseMessage H now msg n =
      some (x.1, x.2.1.withAnswers m' d e, x.2.2) := by
  obtain ⟨m1, h1⟩ := takeRequest_withAnswers (c := c) (hdrContext msg)
  obtain ⟨m2, h2⟩ := takeRequest_withAnswers (c := c.withAnswers m d e) (hdrContext msg)
  have h2 : ((c.withAnswers m d e).takeRequest (hdrContext msg)).2 = c.withAnswers m2 d e := h2
  refine ⟨m2, ?_⟩
  simp only [sourceMessages, List.mem_cons, List.not_mem_nil, or_false] at ht
  rcases ht with ht | ht | ht | ht
  · rw [handle_added ht, h1, withAnswers_added] at h
    obtain rfl := Option.some.inj h
    rw [handle_added ht, h2, withAnswers_added]
    rfl
  · rw [handle_removed ht, h1, withAnswers_removed] at h
    obtain rfl := Option.some.inj h
    rw [handle_removed ht, h2, withAnswers_removed]
    rfl
  · rw [handle_desc ht, h1, withAnswers_desc, Option.map_map] at h
    obtain ⟨y, hy, rfl⟩ := Option.map_eq_some_iff.mp h
    rw [handle_desc ht, h2, withAnswers_desc, hy]
    rfl
  · rw [handle_counts ht, h1, withAnswers_counts] at h
    obtain rfl := Option.some.inj h
    rw [handle_counts ht, h2, withAnswers_counts]
    rfl

/-- in the running state an answer changes these parts only -/
theorem answer_withAnswers {now : Time} {msg : Mem} {n : Nat} (hr : c.state = .running)
    (ht : hdrType msg ∉ sourceMessages) {x : Int × Client × List Effect}
    (h : c.handleResponseMessage H now msg n = some x) :
    x.2.2 = [] ∧ ∃ m d e, x.2.1 = c.withAnswers m d e := by
  obtain ⟨m, hm⟩ := takeRequest_withAnswers (c := c) (hdrContext msg)
  have hstate : ¬ (c.takeRequest (hdrContext msg)).2.state ≠ .running := by
    rw [hm]
    exact not_not.mpr hr
  by_cases hresp : hdrType msg ∈ responses
  · have hcases : hdrType msg = .success ∨ hdrType msg = .error := by
      generalize hdrType msg = type at ht hresp ⊢
      cases type <;>
        first | exact Or.inl rfl | exact Or.inr rfl | simp_all [responses, sourceMessages]
    rcases hcases with ht | ht
    · rw [handle_success ht, if_neg hstate] at h
      obtain rfl := Option.some.inj h
      exact ⟨rfl, _, _, _, hm⟩
    · rw [handle_error ht, if_neg hstate, hm] at h
      obtain rfl := Option.some.inj h
      refine ⟨rfl, ?_⟩
      show ∃ m' d e, ((c.withAnswers m c.numDrops c.numErrors).getAndLogError msg n).2 = _
      unfold getAndLogError
      dsimp only
      split
      · exact ⟨m, _, _, rfl⟩
      · split <;> exact ⟨m, _, _, rfl⟩
  · rw [handle_other hresp] at h
    obtain rfl := Option.some.inj h
    exact ⟨rfl, _, _, _, hm⟩

end Client

/-! ## runs -/

variable {H : NTStatKernelStructHandler} {c c' q : Client} {effs : List Effect} {st : Step}

theorem unrecorded_record (c : Client) (timestamp : UInt32) (data : List UInt8) :
    (c.record timestamp data).filterMap Effect.unrecorded = [] := by
  unfold Client.record
  split <;> rfl

/-- the running state is never left -/
theorem running_step (hr : c.state = .running) (hx : step H c st = some (c', effs)) :
    c'.state = .running := by
  cases turn_of_step hx with
  | nothing hn => exact hr
  | @message now timestamp buf n x hn hmsg =>
    obtain ⟨m, hm⟩ := Client.takeRequest_withAnswers (c := c) (hdrContext buf)
    rcases Client.handleResponseMessage_cases hmsg with ⟨hs, -⟩ | ⟨-, ⟨_, _, _, _, _, _, he⟩, -⟩
    · rw [hm] at hs
      exact absurd hr hs
    · rw [he, hm]
      exact hr
  | updateWaitForCountsQueue now =>
    obtain ⟨_, _, he⟩ := c.updateWaitForCountsQueue_changes now
    rw [he]
    exact hr
  | removeOldSources now => exact hr
  | sendNextMsg timestamp rc =>
    obtain ⟨_, _, _, _, _, _, he⟩ := c.sendNextMsg_changes (H := H) timestamp rc
    rw [he]
    exact hr

/-- a client in the running state, and one that differs from it in what answers change -/
def UpToAnswers (c q : Client) : Prop := c.state = .running ∧ ∃ m d e, q = c.withAnswers m d e

/-- a step that handles no answer does the same to both -/
theorem upToAnswers_step (h : UpToAnswers c q) (hst : st.noAnswer = true)
    (hx : step H c st = some (c', effs)) : ∃ q' effs', step H q st = some (q', effs') ∧
      UpToAnswers c' q' ∧
      effs.filterMap Effect.unrecorded = effs'.filterMap Effect.unrecorded := by
  obtain ⟨hr, m, d, e, rfl⟩ := h
  have hr' := running_step hr hx
  cases turn_of_step hx with
  | nothing hn => exact ⟨_, [], if_pos hn, ⟨hr', m, d, e, rfl⟩, rfl⟩
  | @message now timestamp buf n x hn hmsg =>
    obtain ⟨-, ht⟩ := Bool.and_eq_true_iff.mp hst
    obtain ⟨m', h'⟩ := Client.withAnswers_message (m := m) (d := d) (e := e)
      (of_decide_eq_true ht) hmsg
    refine ⟨_, (c.withAnswers m d e).record timestamp (buf.take n.toNat) ++ x.2.2, ?_,
      ⟨hr', m', d, e, rfl⟩, ?_⟩
    · show (if n ≤ 0 then _ else _) = _
      rw [if_neg (Int.not_le.mpr hn), h']
      rfl
    · rw [List.filterMap_append, List.filterMap_append, unrecorded_record, unrecorded_record]
  | updateWaitForCountsQueue now =>
    exact ⟨_, [], congrArg (fun c => some (c, [])) (Client.withAnswers_sweep now),
      ⟨hr', m, d, e, rfl⟩, rfl⟩
  | removeOldSources now => exact ⟨_, [], rfl, ⟨hr', m, d, e, rfl⟩, rfl⟩
  | sendNextMsg timestamp rc =>
    obtain ⟨m', h'⟩ := c.withAnswers_sendNextMsg (H := H) (m := m) (d := d) (e := e) timestamp rc
    exact ⟨_, _, congrArg some h', ⟨hr', m', d, e, rfl⟩, rfl⟩

/-- handling an answer moves only the first one, and shows nothing -/
theorem upToAnswers_skip (h : UpToAnswers c q) (hst : st.noAnswer = false)
    (hx : step H c st = some (c', effs)) :
    UpToAnswers c' q ∧ effs.filterMap Effect.unrecorded = [] := by
  obtain ⟨hr, m, d, e, rfl⟩ := h
  have hr' := running_step hr hx
  cases turn_of_step hx with
  | nothing hn => exact ⟨⟨hr', m, d, e, rfl⟩, rfl⟩
  | @message now timestamp buf n x hn hmsg =>
    have ht : hdrType buf ∉ sourceMessages := by
      intro ht
      have hst' := hst
      unfold Step.noAnswer at hst'
      simp [hn, ht] at hst'
    obtain ⟨he, m', d', e', hx'⟩ := Client.answer_withAnswers hr ht hmsg
    refine ⟨⟨hr', m, d, e, ?_⟩, ?_⟩
    · rw [hx']
      rfl
    · rw [List.filterMap_append, unrecorded_record, he]
      rfl
  | _ => cases hst

/-- **In the running state, SUCCESS, ERROR and unknown messages change neither what is sent nor what
the listener is told.** -/
theorem answers_inert {steps : List Step} (hr : c.state = .running)
    (hx : exec (step H) c steps = some (c', effs)) :
    ∃ q effs', exec (step H) c (steps.filter Step.noAnswer) = some (q, effs') ∧
      (∃ m d e, q = c'.withAnswers m d e) ∧
      effs.filterMap Effect.unrecorded = effs'.filterMap Effect.unrecorded := by
  have hself : UpToAnswers c c := ⟨hr, _, _, _, c.withAnswers_self.symm⟩
  obtain ⟨q, effs', h1, h2, h3⟩ := exec_filter_sim (f := step H) (g := step H)
    (fun s t i s' o hR hk hf => upToAnswers_step hR hk hf)
    (fun s t i s' o hR hk hf => upToAnswers_skip hR hk hf) hself hx
  exact ⟨q, effs', h1, h2.2, h3⟩

namespace Session

/-- the messages of a source, with ENOBUFS in between -/
def dropsBetween : List Step :=
  [.readNextMessage 1 1 (structs3789.addedMsg 7 4) 28, .readNextMessage 1 1 dropMsg 24,
   .sendNextMsg 1 24, .readNextMessage 2 2 dropMsg 24, .sendNextMsg 2 24,
   .readNextMessage 2 2 (structs3789.udpDescMsg 7 4 80 81) 248]

theorem answers_inert_dropsBetween : ∃ c effs c' effs',
    session3789.run [.readNextMessage 1 1 dropMsg 24] = some (c, effs) ∧
    exec session3789.step c dropsBetween = some (c', effs') ∧ c'.numDrops = 3 ∧
    ∃ q effs'', exec session3789.step c (dropsBetween.filter Step.noAnswer) = some (q, effs'') ∧
      (∃ m d e, q = c'.withAnswers m d e) ∧
      effs'.filterMap Effect.unrecorded = effs''.filterMap Effect.unrecorded := by
  have hrun : (session3789.run [.readNextMessage 1 1 dropMsg 24]).map (fun x => (x.1.state,
      (exec session3789.step x.1 dropsBetween).map fun y => y.1.numDrops)) =
        some (.running, some 3) := by decide
  obtain ⟨⟨c, effs⟩, h, he⟩ := Option.map_eq_some_iff.mp hrun
  obtain ⟨hr, hx⟩ := Prod.mk.inj he
  obtain ⟨⟨c', effs'⟩, hx, hd⟩ := Option.map_eq_some_iff.mp hx
  exact ⟨c, effs, c', effs', h, hx, hd, answers_inert hr hx⟩

end Session

end Ntstat
