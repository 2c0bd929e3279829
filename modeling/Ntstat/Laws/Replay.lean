import Ntstat.Client.Replay
import Ntstat.Client.Wire
import Ntstat.Laws.Sweeps

/-!
# Replay of a recorded session

A session that records writes every message it reads and every request it sends to the file.
`runRecording` gives the messages to the same handler, at other times, files the requests, and
performs no sweep.

* `Client.Recording`, `step_records`   what a step of a recording client writes;
* `same_step`                          a message handled at another time;
* `replay_unswept`                     the replay tells the listener what the session without its
                                       sweeps tells it;
* `replay_iff`                         so it tells the same as the session exactly if the sweeps do
                                       not show.
-/

namespace Ntstat
open Memory Machine Std

/-! ## what is recorded -/

/-- what the effect adds to the record file -/
def Effect.fileBytes : Effect → List UInt8
  | fileWrite bytes => bytes
  | _ => []

def recorded (effs : List Effect) : List UInt8 := effs.flatMap Effect.fileBytes

@[simp] theorem recorded_append (e e' : List Effect) :
    recorded (e ++ e') = recorded e ++ recorded e' := List.flatMap_append

theorem recorded_of_notify {effs : List Effect} (h : ∀ e ∈ effs, e.isNotify = true) :
    recorded effs = [] := by
  refine List.flatMap_eq_nil_iff.mpr fun e he => ?_
  have := h e he
  cases e <;> simp_all [Effect.isNotify, Effect.fileBytes]

namespace Client
variable {H : NTStatKernelStructHandler} {c : Client}

/-- the client records, and only requests wait to be sent -/
structure Recording (H : NTStatKernelStructHandler) (c : Client) : Prop where
  enabled : c.recordEnabled = true
  outq : ∀ qm ∈ c.outq, ∃ context, Request H context qm.msgbytes

/-- it goes on recording, and nothing was written -/
def KeepsRecording (H : NTStatKernelStructHandler) (c : Client) (x : Client × List Effect) : Prop :=
  c.Recording H → x.1.Recording H ∧ recorded x.2 = []

theorem keepsRecording_send {msg : List UInt8} {context : UInt64} (hm : Request H context msg) :
    c.KeepsRecording H (c.send msg) := by
  intro h
  unfold send
  split
  · exact ⟨h, rfl⟩
  · refine ⟨⟨h.enabled, fun qm hq => ?_⟩, rfl⟩
    rcases List.mem_append.mp hq with hq | hq
    · exact h.outq qm hq
    · obtain rfl := List.mem_singleton.mp hq
      exact ⟨context, hm⟩

/-- **No operation but reading and sending writes to the file.** -/
theorem keepsRecording_composed (H : NTStatKernelStructHandler) :
    Composed H (KeepsRecording H) where
  trans := by
    intro c x y hx hy h
    obtain ⟨h1, e1⟩ := hx h
    obtain ⟨h2, e2⟩ := hy h1
    exact ⟨h2, by rw [recorded_append, e1, e2]; rfl⟩
  still := by
    intro c x hs h
    refine ⟨⟨hs.recordEnabled.trans h.enabled, ?_⟩, recorded_of_notify hs.effects⟩
    rw [hs.outq]
    exact h.outq
  send := keepsRecording_send

end Client

/-- the entries that a step writes -/
def Step.Entries (H : NTStatKernelStructHandler) : Step → List Record → Prop
  | readNextMessage _ timestamp buf n, rs =>
    rs = if n ≤ 0 then [] else [⟨timestamp, buf.take n.toNat⟩]
  | sendNextMsg _ _, rs => ∀ r ∈ rs, ∃ context, Request H context r.data
  | _, rs => rs = []

/-- **What a step of a recording client writes.** -/
theorem step_records {H : NTStatKernelStructHandler} {c c' : Client} {st : Step}
    {effs : List Effect} (hc : c.Recording H) (h : step H c st = some (c', effs)) :
    c'.Recording H ∧ ∃ rs, st.Entries H rs ∧ recorded effs = rs.flatMap Record.bytes := by
  have hQ := Client.keepsRecording_composed H
  have hrecord : ∀ {c : Client} timestamp data, c.Recording H →
      recorded (c.record timestamp data) = (Record.mk timestamp data).bytes := by
    intro c timestamp data hc
    rw [Client.record, if_pos hc.enabled]
    exact List.append_nil _
  cases turn_of_step h with
  | nothing hn => exact ⟨hc, [], (if_pos hn).symm, rfl⟩
  | message hn hx =>
    obtain ⟨h1, h2⟩ := hQ.handleResponseMessage hx hc
    refine ⟨h1, _, (if_neg (Int.not_le.mpr hn)).symm, ?_⟩
    rw [recorded_append, h2, hrecord _ _ hc, List.flatMap_singleton, List.append_nil]
  | updateWaitForCountsQueue now => exact ⟨(hQ.updateWaitForCountsQueue now c hc).1, [], rfl, rfl⟩
  | removeOldSources now => exact ⟨(hQ.removeOldSources now c hc).1, [], rfl, rfl⟩
  | sendNextMsg timestamp rc =>
    obtain ⟨h1, e1⟩ := hQ.sendWaitingDesc c hc
    obtain ⟨h2, e2⟩ := hQ.sendWaitingCount (c.sendWaitingDesc H).1 h1
    unfold Client.sendNextMsg
    dsimp only
    rw [recorded_append, recorded_append, e1, e2]
    generalize ((c.sendWaitingDesc H).1.sendWaitingCount H).1 = c2 at h2 ⊢
    unfold Client.sendFirst
    split
    · exact ⟨h2, [], fun _ h => absurd h List.not_mem_nil, rfl⟩
    · next qm outq ho =>
      have hq := h2.outq
      rw [ho] at hq
      refine ⟨⟨h2.enabled, fun q hm => hq q (List.mem_cons_of_mem _ hm)⟩,
        [⟨timestamp, qm.msgbytes⟩], fun r hr => ?_, ?_⟩
      · obtain rfl := List.mem_singleton.mp hr
        exact hq qm List.mem_cons_self
      · show recorded (c2.record timestamp qm.msgbytes ++ [.socketWrite qm.msgbytes]) = _
        rw [recorded_append, hrecord _ _ h2, List.flatMap_singleton]
        exact List.append_nil _

/-! ## requests in the file -/

/-- **A request in the file is a valid entry, and is filed.** -/
theorem request_entry {v : KernelVersion} {r : Record} {context : UInt64}
    (h : Request v.handler context r.data) (behind : Mem) :
    r.Valid ∧ hdrType (vecData r.data behind) ∈ requestTypes := by
  obtain ⟨s, hs, t, ht, vals, he⟩ := request_form h
  have hlen : r.data.length = s.sizeOf := by rw [he, KernelStructs.request_length]
  obtain ⟨h1, h2⟩ := v.request_sizes s hs
  obtain ⟨hh, h0⟩ := v.request_hdr s hs
  have hagree : Mem.Agree 12 (Mem.ofList r.data) (vecData r.data behind) := by
    intro i hi
    have hi' : i < r.data.length := by omega
    simp [Mem.ofList, vecData, hi']
  have htype : hdrType (vecData r.data behind) = t := by
    rw [hdrType, ← u32_agree hagree (by rw [hdr_offsets.2.1]), he]
    exact KernelStructs.request_type hh h0 t context vals
  exact ⟨⟨by rw [hdr_offsets.2.2, hlen]; exact h1, by rw [hlen]; exact h2⟩, htype ▸ ht⟩

/-! ## a message at another time -/

/-- the listener is told the same of both, now and later -/
structure NetstatSource.Same (t t' : NetstatSource) : Prop where
  obj : t'.obj = t.obj
  haveDesc : t'.haveDesc = t.haveDesc
  haveNotifiedAdded : t'.haveNotifiedAdded = t.haveNotifiedAdded
  unmarked : t.requestedCount = false
  unmarked' : t'.requestedCount = false
  removed : 0 < t'.tsRemoved ↔ 0 < t.tsRemoved

/-- the same message, handled at another time -/
inductive SrcEvent.Retimed : SrcEvent → SrcEvent → Prop
  | removed {now now'} (h : 0 < now) (h' : 0 < now') : Retimed (.removed now) (.removed now')
  | desc {read} : Retimed (.desc read) (.desc read)
  | counts {now now' read} : Retimed (.counts now read) (.counts now' read)

inductive Input.Retimed : Input → Input → Prop
  | added {now now' r prov} : Retimed (.added now r prov) (.added now' r prov)
  | message {r e e'} (he : e.Retimed e') : Retimed (.message r e) (.message r e')
  | other : Retimed .other .other

theorem same_apply {e e' : SrcEvent} (he : e.Retimed e') {t t' q : NetstatSource}
    {shown : List Call} (hs : t.Same q) (h : e.apply t = some (t', shown)) :
    ∃ q', e'.apply q = some (q', shown) ∧ t'.Same q' := by
  cases he with
  | @removed now now' h1 h2 =>
    obtain ⟨rfl, rfl⟩ := Prod.mk.inj (Option.some.inj h)
    refine ⟨(q.removed now').1, ?_, { hs with removed := iff_of_true h2 h1 }⟩
    unfold SrcEvent.apply NetstatSource.removed
    dsimp only
    rw [hs.obj]
  | @desc read =>
    obtain ⟨⟨b, obj⟩, hb, hx⟩ := Option.map_eq_some_iff.mp h
    rw [SrcEvent.apply, hs.obj, hb]
    cases b with
    | true =>
      obtain ⟨rfl, rfl⟩ := Prod.mk.inj hx
      refine ⟨(q.described obj).1, ?_,
        { hs with obj := rfl, haveDesc := rfl, haveNotifiedAdded := rfl }⟩
      unfold NetstatSource.described
      dsimp only [Option.map_some]
      rw [hs.haveNotifiedAdded]
    | false =>
      obtain ⟨rfl, rfl⟩ := Prod.mk.inj hx
      exact ⟨{ q with obj }, rfl, { hs with obj := rfl }⟩
  | @counts now now' read =>
    obtain ⟨rfl, rfl⟩ := Prod.mk.inj (Option.some.inj h)
    refine ⟨(q.counted now' (read t.obj.stats)).1, ?_,
      { hs with obj := ?_, unmarked := rfl, unmarked' := rfl }⟩
    · unfold SrcEvent.apply NetstatSource.counted
      dsimp only
      rw [hs.unmarked, hs.unmarked', hs.obj]
      simp only [Bool.false_and, Bool.and_false, Bool.false_eq_true, if_false]
    · unfold NetstatSource.counted
      dsimp only
      rw [hs.obj]

/-- both references name the same, or nothing -/
def SameNamed : Option NetstatSource → Option NetstatSource → Prop
  | some t, some q => t.Same q
  | none, none => True
  | _, _ => False

theorem SameNamed.vacant {t q : Option NetstatSource} (h : SameNamed t q)
    (hf : ∀ x, t = some x → x.tsRemoved > 0) : ∀ y, q = some y → y.tsRemoved > 0 := by
  intro y hy
  subst hy
  cases t with
  | none => exact h.elim
  | some t => exact h.removed.mpr (hf t rfl)

theorem same_cell_step {r : UInt64} {i k : Input} {t t' q : Option NetstatSource}
    {shown : List Call} (hi : i.Retimed k) (hs : SameNamed t q)
    (h : cellStep r t i = some (t', shown)) :
    ∃ q', cellStep r q k = some (q', shown) ∧ SameNamed t' q' := by
  cases cellMoves_of_step h with
  | fresh hf =>
    cases hi
    exact ⟨_, cellStep_added_fresh (hs.vacant hf), rfl, rfl, rfl, rfl, rfl, Iff.rfl⟩
  | @kept x _ _ hx =>
    cases hi
    cases q with
    | none => exact hs.elim
    | some q => exact ⟨_, cellStep_added_kept fun hq => hx (hs.removed.mp hq), hs⟩
  | addedOther hr =>
    cases hi
    exact ⟨_, cellStep_added_ne hr, hs⟩
  | unknown =>
    cases hi
    cases q with
    | none => exact ⟨_, cellStep_message_none, trivial⟩
    | some q => exact hs.elim
  | found hx =>
    cases hi with
    | message he =>
      cases q with
      | none => exact hs.elim
      | some q =>
        obtain ⟨q', hq, hs'⟩ := same_apply he hs hx
        exact ⟨some q', by rw [cellStep_message_some, hq, Option.map_some], hs'⟩
  | messageOther hr =>
    cases hi
    exact ⟨_, cellStep_message_ne hr, hs⟩
  | requestCounts => cases hi
  | evict => cases hi
  | other =>
    cases hi
    exact ⟨_, rfl, hs⟩

namespace Sources
variable {s s' q : Sources} {i k : Input} {shown : List Shown}

/-- the same sources, up to times -/
structure Same (s q : Sources) : Prop where
  coherent : s.Coherent
  coherent' : q.Coherent
  cells : ∀ r, SameNamed (s.cell r) (q.cell r)

theorem same_init : Same {} {} := ⟨coherent_init, coherent_init, fun _ => trivial⟩

/-- **A step at another time tells the listener the same.** -/
theorem same_step (hi : i.Retimed k) (hl : i.Lawful) (hl' : k.Lawful) (h : Same s q)
    (hs : s.step i = some (s', shown)) :
    ∃ q' shown', q.step k = some (q', shown') ∧ Same s' q' ∧
      shown'.map Prod.snd = shown.map Prod.snd := by
  have hcell := fun r => same_cell_step hi (h.cells r) (step_cell h.coherent hl hs r)
  obtain ⟨q', shown', hq⟩ := step_of_cell (s := q) (i := k) fun r e _ => by
    obtain ⟨u, hu, -⟩ := hcell r
    rw [hu]
    rfl
  have hpair : ∀ r, SameNamed (s'.cell r) (q'.cell r) ∧ callsFor r shown' = callsFor r shown := by
    intro r
    obtain ⟨u, hu, hsame⟩ := hcell r
    rw [step_cell h.coherent' hl' hq r] at hu
    obtain ⟨rfl, he⟩ := Prod.mk.inj (Option.some.inj hu)
    exact ⟨hsame, he⟩
  refine ⟨q', shown', hq, ⟨step_coherent h.coherent hl hs, step_coherent h.coherent' hl' hq,
    fun r => (hpair r).1⟩, ?_⟩
  cases hi with
  | @message r e e' he =>
    have h1 := calls_about h.coherent hl hs fun r' e he => (Input.message.inj he).1.symm
    have h2 := calls_about h.coherent' hl' hq fun r' e he => (Input.message.inj he).1.symm
    rw [h1, h2, (hpair r).2]
  | added =>
    have h1 := calls_about h.coherent hl hs (r := 0) fun r' e he => by cases he
    have h2 := calls_about h.coherent' hl' hq (r := 0) fun r' e he => by cases he
    rw [h1, h2, (hpair 0).2]
  | other =>
    have h1 := calls_about h.coherent hl hs (r := 0) fun r' e he => by cases he
    have h2 := calls_about h.coherent' hl' hq (r := 0) fun r' e he => by cases he
    rw [h1, h2, (hpair 0).2]

end Sources

/-! ## the entries, replayed -/

/-- what a replay makes of a record -/
def Record.input (H : NTStatKernelStructHandler) (env : ReplayEnv) (k : Nat) (r : Record) : Input :=
  messageInput H (env.clock k) (vecData r.data (env.behind k)) r.data.length

/-- **An entry is a step of the tracker.** -/
theorem replayRecord_refines (H : NTStatKernelStructHandler) (env : ReplayEnv) (k : Nat)
    (c : Client) (r : Record) :
    (replayRecord H env (k, c) r).map (fun x => (x.1.1, x.1.2.sources, callbacks x.2)) =
      (c.sources.step (r.input H env k)).map fun y => (k + 1, y) := by
  unfold replayRecord Record.input
  dsimp only
  generalize vecData r.data (env.behind k) = hdr
  have hsrc : (if k = 0 ∧ hdrType hdr = .addAllSrcs then { c with state := .start }
      else c).sources = c.sources := by
    split <;> rfl
  generalize (if k = 0 ∧ hdrType hdr = .addAllSrcs then { c with state := .start } else c) = c'
    at hsrc ⊢
  have hmsg := c'.handleResponseMessage_refines (H := H) (env.clock k) hdr r.data.length
  rw [← hsrc, ← hmsg]
  cases ht : hdrType hdr with
  | addSrc | querySrc | getSrcDesc | addAllSrcs | remSrc =>
    rw [hmsg, messageInput, ht]
    rfl
  | _ =>
    rw [Option.map_map, Option.map_map]
    rfl

theorem input_of_request {H : NTStatKernelStructHandler} {env : ReplayEnv} {k : Nat} {r : Record}
    (h : hdrType (vecData r.data (env.behind k)) ∈ requestTypes) : r.input H env k = .other := by
  unfold Record.input messageInput
  simp only [requestTypes, List.mem_cons, List.not_mem_nil, or_false] at h
  rcases h with h | h | h <;> rw [h]

theorem agree_vecData (buf behind : Mem) (n : Nat) :
    Mem.Agree n buf (vecData (buf.take n) behind) := by
  intro i hi
  unfold vecData Mem.take
  simp [hi]

/-- a received message is decoded from the file as it was from the buffer -/
theorem messageInput_retimed {v : KernelVersion} {now now' : Time} {buf msg : Mem} {n : Nat}
    (hr : v.Received n buf) (hn : 12 ≤ n) (h : Mem.Agree n buf msg) (h1 : 0 < now) (h2 : 0 < now') :
    (messageInput v.handler now buf n).Retimed (messageInput v.handler now' msg n) := by
  have ht : hdrType msg = hdrType buf :=
    congrArg MsgType.ofCode (u32_agree h (by rw [hdr_offsets.2.1]; omega)).symm
  have hcont : hdrType buf ∈ Client.responses → v.ContentReceived n buf (hdrType buf) :=
    fun hm => (hr.2 _ hm (mayBe_hdrType hm)).2
  unfold messageInput
  rw [ht]
  cases hb : hdrType buf <;> rw [hb] at hcont ht <;> dsimp only
  case srcAdded =>
    obtain ⟨h3, h4⟩ := hcont (by decide)
    rw [v.getSrcRef_added n _ hb, v.getSrcRef_added n _ ht, ← readSrcref_agree h h3,
      ← readProvider_agree h h4]
    exact .added
  case srcRemoved =>
    have h3 := hcont (by decide)
    rw [v.getSrcRef_removed n _ hb, v.getSrcRef_removed n _ ht, ← readSrcref_agree h h3]
    exact .message (.removed h1 h2)
  case srcDesc =>
    obtain ⟨h3, h4⟩ := hcont (by decide)
    have hread : v.handler.readSrcDesc msg n = v.handler.readSrcDesc buf n :=
      funext fun dest => (readSrcDesc_agree h h4 dest).1.symm
    rw [v.getSrcRef_desc n _ hb, v.getSrcRef_desc n _ ht, ← readSrcref_agree h h3, hread]
    exact .message .desc
  case srcCounts =>
    obtain ⟨h3, h4⟩ := hcont (by decide)
    have hread : v.handler.readCounts msg n = v.handler.readCounts buf n :=
      funext fun dest => (readCounts_eq_iff.mpr fun i hi => u64_agree h (h4 i hi)).symm
    rw [v.getSrcRef_counts n _ hb, v.getSrcRef_counts n _ ht, ← readSrcref_agree h h3, hread]
    exact .message .counts
  all_goals exact .other

/-! ## replays -/

/-- a newly constructed client, configured, and the file it can open -/
structure Replay where
  cfg : Config := {}
  fd : Int := 3
  opened : 0 < fd := by decide
  env : ReplayEnv
  ticking : ∀ k, 0 < env.clock k

namespace Replay
variable (R : Replay) (v : KernelVersion)

def run (file : List UInt8) : Option (Client × List Effect) :=
  (Client.configured R.cfg).runRecording v.handler R.env R.fd file

/-- at the start of the loop -/
def start : Nat × Client :=
  (0, { Client.configured R.cfg with recordFd := R.fd, state := .running })

theorem start_sources : R.start.2.sources = {} := configured_sources R.cfg

variable {R v} {k : Nat} {q : Client} {o : List Effect} {rs : List Record}

theorem run_of_exec (hv : ∀ r ∈ rs, r.Valid)
    (h : exec (replayRecord v.handler R.env) R.start rs = some ((k, q), o)) :
    R.run v (rs.flatMap Record.bytes) = some (q, o) := by
  unfold run Client.runRecording
  rw [if_neg (by have := R.opened; omega), records_bytes hv]
  show (exec (replayRecord v.handler R.env) R.start rs).map _ = _
  rw [h]
  rfl

/-- one entry more -/
theorem exec_record {r : Record} {s' : Sources} {shown : List Shown}
    (h : q.sources.step (r.input v.handler R.env k) = some (s', shown)) :
    ∃ q' o', exec (replayRecord v.handler R.env) (k, q) [r] = some ((k + 1, q'), o') ∧
      q'.sources = s' ∧ callbacks o' = shown := by
  have href := replayRecord_refines v.handler R.env k q r
  rw [h] at href
  obtain ⟨⟨⟨k', q'⟩, o'⟩, h1, h2⟩ := Option.map_eq_some_iff.mp href
  obtain ⟨rfl, h3⟩ := Prod.mk.inj h2
  obtain ⟨h4, h5⟩ := Prod.mk.inj h3
  exact ⟨q', o', exec_single.mpr h1, h4, h5⟩

/-- requests change nothing that matters -/
theorem exec_requests (hr : ∀ r ∈ rs, ∃ context, Request v.handler context r.data) (k : Nat)
    (q : Client) : ∃ k' q' o', exec (replayRecord v.handler R.env) (k, q) rs = some ((k', q'), o') ∧
      q'.sources = q.sources ∧ callbacks o' = [] := by
  induction rs generalizing k q with
  | nil => exact ⟨k, q, [], rfl, rfl, rfl⟩
  | cons r rs ih =>
    obtain ⟨context, hc⟩ := hr r List.mem_cons_self
    have hin : r.input v.handler R.env k = .other :=
      input_of_request (request_entry hc (R.env.behind k)).2
    have hstep : q.sources.step (r.input v.handler R.env k) = some (q.sources, []) := by
      rw [hin]
      rfl
    obtain ⟨q1, o1, h1, hs1, he1⟩ := exec_record hstep
    have hrs : ∀ x ∈ rs, ∃ context, Request v.handler context x.data :=
      fun x hx => hr x (List.mem_cons_of_mem _ hx)
    obtain ⟨k2, q2, o2, h2, hs2, he2⟩ := ih hrs (k + 1) q1
    refine ⟨k2, q2, o1 ++ o2, ?_, hs2.trans hs1, by rw [callbacks_append, he1, he2]; rfl⟩
    exact exec_append.mpr ⟨(k + 1, q1), o1, o2, h1, h2, rfl⟩

end Replay

/-! ## the session without its sweeps, and the replay -/

namespace Session
variable {S : Session} {R : Replay} {steps : List Step} {c : Client} {effs : List Effect}

/-- a session that records does so from its start -/
theorem start_recording {fd : Int} (hrec : S.cfg.recordFd = some fd) (hfd : 0 < fd) :
    S.start.Recording S.handler ∧ recorded S.prologue = [] := by
  have h0 : ((Client.configured S.cfg).connectToKernel S.fd).Recording S.handler := by
    unfold Client.configured
    rw [hrec]
    refine ⟨?_, fun qm hq => ?_⟩
    · simp [Client.connectToKernel, Client.enableRecording, hfd]
    · simp [Client.connectToKernel, Client.enableRecording, Client.configure] at hq
  exact (Client.keepsRecording_composed S.handler).beginRun _ h0

/-- what stands in the file, the run without the sweeps, and the replay of the file -/
structure Replayed (S : Session) (R : Replay) (steps : List Step) (c : Client) (effs : List Effect)
    (w : Client) (e : List Effect) (rs : List Record) (q : Nat × Client) (o : List Effect) :
    Prop where
  recording : c.Recording S.handler
  entries : recorded effs = rs.flatMap Record.bytes
  valid : ∀ r ∈ rs, r.Valid
  unswept : S.run (steps.filter Step.unswept) = some (w, e)
  replay : exec (replayRecord S.handler R.env) R.start rs = some (q, o)
  same : Sources.Same w.sources q.2.sources
  calls : calls o = calls e

variable {c' w w' : Client} {st : Step} {e e2 o o' ow : List Effect} {rs rs' : List Record}
  {q q' : Nat × Client}

/-- a step more, on both sides -/
theorem Replayed.snoc (h : S.Replayed R steps c effs w e rs q o) (hc : c'.Recording S.handler)
    (he : recorded e2 = rs'.flatMap Record.bytes) (hv : ∀ r ∈ rs', r.Valid)
    (hu : S.run ((steps ++ [st]).filter Step.unswept) = some (w', e ++ ow))
    (hr : exec (replayRecord S.handler R.env) q rs' = some (q', o'))
    (hs : Sources.Same w'.sources q'.2.sources) (ho : Ntstat.calls o' = Ntstat.calls ow) :
    S.Replayed R (steps ++ [st]) c' (effs ++ e2) w' (e ++ ow) (rs ++ rs') q' (o ++ o') := by
  refine ⟨hc, ?_, fun r hm => ?_, hu, exec_append.mpr ⟨q, o, o', h.replay, hr, rfl⟩, hs, ?_⟩
  · rw [recorded_append, h.entries, he, List.flatMap_append]
  · rcases List.mem_append.mp hm with hm | hm
    · exact h.valid r hm
    · exact hv r hm
  · rw [calls_append, calls_append, h.calls, ho]

/-- a step that is nothing to the sources and writes requests at most -/
theorem Replayed.other (h : S.Replayed R steps c effs w e rs q o) (hc : c'.Recording S.handler)
    (hi : st.input S.handler = .other) (hst : st.unswept = true)
    (he : recorded e2 = rs'.flatMap Record.bytes)
    (hreq : ∀ r ∈ rs', ∃ context, Request S.handler context r.data) :
    ∃ w' e' rs' q' o', S.Replayed R (steps ++ [st]) c' (effs ++ e2) w' e' rs' q' o' := by
  have hnone : w.sources.step (st.input S.handler) = some (w.sources, []) := by
    rw [hi]
    rfl
  obtain ⟨w', ow, hw, hsrc, hcalls⟩ := step_of_sources hnone
  obtain ⟨k, q', o', hr, hsrc', hcalls'⟩ :=
    Replay.exec_requests (R := R) (v := S.version) hreq q.1 q.2
  have hu : S.run ((steps ++ [st]).filter Step.unswept) = some (w', e ++ ow) := by
    rw [List.filter_append, List.filter_cons_of_pos hst, List.filter_nil]
    exact run_concat h.unswept hw
  have hv : ∀ r ∈ rs', r.Valid := fun r hm => by
    obtain ⟨context, hx⟩ := hreq r hm
    exact (request_entry hx (fun _ => 0)).1
  refine ⟨w', _, _, (k, q'), _, h.snoc hc he hv hu hr ?_ ?_⟩
  · show Sources.Same w'.sources q'.sources
    rw [hsrc, hsrc']
    exact h.same
  · rw [Ntstat.calls, Ntstat.calls, hcalls']
    exact congrArg _ hcalls.symm

/-- a message is read from the file as it was from the socket -/
theorem Replayed.message {now : Time} {timestamp : UInt32} {buf : Mem} {n : Int}
    (h : S.Replayed R steps c effs w e rs q o) (hc : c'.Recording S.handler)
    (hcomplete : 0 < now ∧ 16 ≤ n ∧ n ≤ 2048 ∧ S.version.Received n.toNat buf)
    (he : recorded e2 = (Record.mk timestamp (buf.take n.toNat)).bytes) :
    ∃ w' e' rs' q' o', S.Replayed R (steps ++ [.readNextMessage now timestamp buf n]) c'
      (effs ++ e2) w' e' rs' q' o' := by
  obtain ⟨hnow, h16, h2048, hreceived⟩ := hcomplete
  set st := Step.readNextMessage now timestamp buf n with hst0
  set r : Record := ⟨timestamp, buf.take n.toNat⟩ with hr0
  have hin : st.input S.handler = messageInput S.handler now buf n.toNat := if_neg (by omega)
  have hsound : (st.input S.handler).Sound :=
    input_sound (v := S.version) (Or.inr ⟨hnow, h16, h2048, hreceived⟩)
  have hlen : r.data.length = n.toNat := Mem.take_length _ _
  have hret : (st.input S.handler).Retimed (r.input S.handler R.env q.1) := by
    rw [hin, Record.input, hlen]
    exact messageInput_retimed hreceived (by omega) (agree_vecData _ _ _) hnow (R.ticking _)
  have hl := input_lawful S.version.lawful st
  have hl' : (r.input S.handler R.env q.1).Lawful := by
    have := input_lawful S.version.lawful (.readNextMessage (R.env.clock q.1) timestamp
      (vecData r.data (R.env.behind q.1)) n)
    rw [Step.input, if_neg (by omega), ← hlen] at this
    exact this
  obtain ⟨sw, shown, hsw⟩ := w.sources.sound_step hsound
  obtain ⟨w', ow, hw, rfl, rfl⟩ := step_of_sources hsw
  obtain ⟨sq, shown', hsq, hsame, hshown⟩ := Sources.same_step hret hl hl' h.same hsw
  obtain ⟨q', o', hr, rfl, rfl⟩ := Replay.exec_record hsq
  have hu : S.run ((steps ++ [st]).filter Step.unswept) = some (w', e ++ ow) := by
    rw [List.filter_append, List.filter_cons_of_pos rfl, List.filter_nil]
    exact run_concat h.unswept hw
  refine ⟨w', _, rs ++ [r], _, _, h.snoc hc ?_ (fun x hx => ?_) hu hr hsame hshown⟩
  · rw [he, List.flatMap_singleton]
  · obtain rfl := List.mem_singleton.mp hx
    refine ⟨?_, ?_⟩
    · rw [hdr_offsets.2.2]
      show 16 ≤ (buf.take n.toNat).length
      rw [Mem.take_length]
      omega
    · show (buf.take n.toNat).length ≤ 2048
      rw [Mem.take_length]
      omega

/-- **Every recorded session can be replayed, next to its run without the sweeps.** -/
theorem exists_replayed {fd : Int} (hrec : S.cfg.recordFd = some fd) (hfd : 0 < fd) (R : Replay)
    (hc : ∀ st ∈ steps, st.Complete S.version) (h : S.run steps = some (c, effs)) :
    ∃ w e rs q o, S.Replayed R steps c effs w e rs q o := by
  refine exec_inv (P := fun steps c effs => (∀ st ∈ steps, st.Complete S.version) →
    ∃ w e rs q o, S.Replayed R steps c effs w e rs q o) ?_ ?_ h hc
  · intro _
    refine ⟨S.start, [], [], R.start, [], (start_recording hrec hfd).1, rfl,
      fun r hr => absurd hr List.not_mem_nil, rfl, rfl, ?_, rfl⟩
    rw [start_sources, R.start_sources]
    exact Sources.same_init
  · intro steps c1 e1 st c2 e2 _ ih hst hc
    obtain ⟨w, e, rs, q, o, hx⟩ := ih fun x hx => hc x (List.mem_append_left _ hx)
    obtain ⟨hrec2, rs', hent, hbytes⟩ := step_records hx.recording hst
    have hcomplete := hc st (by simp)
    have hsweep : ∀ {st : Step}, st.unswept = false → recorded e2 = [] →
        ∃ w' e' rs' q' o', S.Replayed R (steps ++ [st]) c2 (e1 ++ e2) w' e' rs' q' o' := by
      intro st hst he
      refine ⟨w, e ++ [], rs ++ [], q, _, hx.snoc hrec2 he
        (fun r hr => absurd hr List.not_mem_nil) ?_ rfl hx.same rfl⟩
      rw [List.filter_append, List.filter_cons_of_neg (by simp [hst]), List.filter_nil,
        List.append_nil, List.append_nil]
      exact hx.unswept
    cases st with
    | readNextMessage now timestamp buf n =>
      unfold Step.Entries at hent
      dsimp only at hent
      by_cases hn : n ≤ 0
      · rw [if_pos hn] at hent
        subst hent
        exact hx.other hrec2 (if_pos hn) rfl hbytes fun r hr => absurd hr List.not_mem_nil
      · rw [if_neg hn] at hent
        subst hent
        rw [List.flatMap_singleton] at hbytes
        exact hx.message hrec2 (hcomplete.resolve_left hn) hbytes
    | sendNextMsg timestamp rc => exact hx.other hrec2 rfl rfl hbytes hent
    | updateWaitForCountsQueue now =>
      obtain rfl : rs' = [] := hent
      exact hsweep rfl hbytes
    | removeOldSources now =>
      obtain rfl : rs' = [] := hent
      exact hsweep rfl hbytes

/-- **A replay tells the listener what the session without its sweeps tells it.** -/
theorem replay_unswept {fd : Int} (hrec : S.cfg.recordFd = some fd) (hfd : 0 < fd) (R : Replay)
    (hc : ∀ st ∈ steps, st.Complete S.version) (h : S.run steps = some (c, effs)) :
    ∃ w e q o, S.run (steps.filter Step.unswept) = some (w, e) ∧
      R.run S.version (recorded (S.prologue ++ effs)) = some (q, o) ∧
      Ntstat.calls o = Ntstat.calls e := by
  obtain ⟨w, e, rs, ⟨k, q⟩, o, hx⟩ := exists_replayed hrec hfd R hc h
  refine ⟨w, e, q, o, hx.unswept, ?_, hx.calls⟩
  rw [recorded_append, (start_recording hrec hfd).2, List.nil_append, hx.entries]
  exact Replay.run_of_exec hx.valid hx.replay

/-- **A replay tells the listener what the session told it exactly if the sweeps do not show: no
marked source reports its counts, and no message is about a source that was evicted and would
otherwise be reported.** -/
theorem replay_iff {fd : Int} (hrec : S.cfg.recordFd = some fd) (hfd : 0 < fd) (R : Replay)
    (hc : ∀ st ∈ steps, st.Complete S.version) (h : S.run steps = some (c, effs)) :
    ∃ q o, R.run S.version (recorded (S.prologue ++ effs)) = some (q, o) ∧
      (Ntstat.calls o = Ntstat.calls effs ↔ ¬ S.ReportsCounts steps ∧ ¬ S.MissesStale steps) := by
  obtain ⟨w, e, q, o, hu, hr, he⟩ := replay_unswept hrec hfd R hc h
  obtain ⟨w', e', hw⟩ := exists_withoutSweeps hc h
  obtain ⟨rfl, rfl⟩ := Prod.mk.inj (Option.some.inj (hu.symm.trans hw.run))
  refine ⟨q, o, hr, ?_⟩
  rw [he]
  exact sweeps_show h hw

/-! ### a source that reports its counts -/

def recording3789 : Session := { session3789 with cfg := { recordFd := some 5 } }

def replay3789 : Replay where
  opened := session3789.connected
  env := ⟨fun _ => 1, fun _ _ => 0⟩
  ticking := fun _ => show (0 : Time) < 1 by decide

/-- one UDP source that is described, marked and counted -/
def counted : List Step :=
  [.sendNextMsg 1 56,
   .readNextMessage 1 1 (structs3789.addedMsg 7 4) 28,
   .readNextMessage 2 2 (structs3789.udpDescMsg 7 4 80 81) 248,
   .updateWaitForCountsQueue 20,
   .readNextMessage 21 21 (structs3789.countsMsg 7 3) 144]

theorem counted_complete : ∀ st ∈ counted, st.Complete recording3789.version := by
  unfold counted
  simp only [List.forall_mem_cons, List.not_mem_nil, false_implies, implies_true, and_true]
  refine ⟨trivial, Or.inr ⟨by decide, by decide, by decide, addedMsg_received⟩,
    Or.inr ⟨by decide, by decide, by decide, udpDescMsg_received⟩, trivial,
    Or.inr ⟨by decide, by decide, by decide, ?_⟩⟩
  exact received_of_content (t := .srcCounts) (by decide) (by decide)
    ⟨by unfold KernelVersion.SrcrefReceived; decide, by decide⟩

/-- the counts of a marked source are not replayed -/
theorem counted_not_replayed : (∀ st ∈ counted, st.Complete recording3789.version) ∧
    ∃ c effs q o, recording3789.run counted = some (c, effs) ∧
      replay3789.run .xnu3789 (recorded (recording3789.prologue ++ effs)) = some (q, o) ∧
      Ntstat.calls o ≠ Ntstat.calls effs := by
  let told (x : Client × List Effect) : List Callback := (Ntstat.calls x.2).map Prod.fst
  let live := recording3789.run counted
  let replayed (x : Client × List Effect) :=
    replay3789.run .xnu3789 (recorded (recording3789.prologue ++ x.2))
  have hlive : live.map told = some [.onStreamAdded, .onStreamStatsUpdate] := by decide
  have hreplayed : (live.bind replayed).map told = some [.onStreamAdded] := by decide +kernel
  obtain ⟨⟨c, effs⟩, he, hc⟩ := Option.map_eq_some_iff.mp hlive
  rw [he, Option.bind_some] at hreplayed
  obtain ⟨⟨q, o⟩, hq, ho⟩ := Option.map_eq_some_iff.mp hreplayed
  refine ⟨counted_complete, c, effs, q, o, he, hq, fun heq => ?_⟩
  have : told (q, o) = told (c, effs) := congrArg (List.map Prod.fst) heq
  rw [ho, hc] at this
  exact absurd this (by decide)

/-- a source that is removed before the sweep, and evicted -/
def removedAndEvicted : List Step :=
  [.sendNextMsg 1 56,
   .readNextMessage 1 1 (structs3789.addedMsg 7 4) 28,
   .readNextMessage 2 2 (structs3789.udpDescMsg 7 4 80 81) 248,
   .readNextMessage 3 3 (structs3789.removedMsg 7) 24,
   .updateWaitForCountsQueue 20,
   .removeOldSources 100]

theorem removedAndEvicted_complete :
    ∀ st ∈ removedAndEvicted, st.Complete recording3789.version := by
  unfold removedAndEvicted
  simp only [List.forall_mem_cons, List.not_mem_nil, false_implies, implies_true, and_true]
  exact ⟨trivial, Or.inr ⟨by decide, by decide, by decide, addedMsg_received⟩,
    Or.inr ⟨by decide, by decide, by decide, udpDescMsg_received⟩,
    Or.inr ⟨by decide, by decide, by decide, removedMsg_received⟩, trivial, trivial⟩

theorem replay_removedAndEvicted : ∃ c effs q o,
    recording3789.run removedAndEvicted = some (c, effs) ∧
    replay3789.run .xnu3789 (recorded (recording3789.prologue ++ effs)) = some (q, o) ∧
    (Ntstat.calls effs).map Prod.fst = [.onStreamAdded, .onStreamRemoved] ∧
    Ntstat.calls o = Ntstat.calls effs ∧
    ¬ recording3789.ReportsCounts removedAndEvicted ∧
    ¬ recording3789.MissesStale removedAndEvicted := by
  have hrun : (recording3789.run removedAndEvicted).map (fun x =>
      (Ntstat.calls x.2).map Prod.fst) = some [.onStreamAdded, .onStreamRemoved] := by
    decide
  have hunswept : (recording3789.run (removedAndEvicted.filter Step.unswept)).map (fun x =>
      (Ntstat.calls x.2).length) = some 2 := by decide
  obtain ⟨⟨c, effs⟩, h, hcalls⟩ := Option.map_eq_some_iff.mp hrun
  have hnone : ∀ x ∈ Ntstat.calls effs, x.isStats = false := by
    intro x hx
    have hmem : x.1 ∈ (Ntstat.calls effs).map Prod.fst := List.mem_map_of_mem hx
    rw [hcalls] at hmem
    unfold Call.isStats
    rcases List.mem_pair.mp hmem with he | he <;> rw [he] <;> rfl
  have hcounts : ¬ recording3789.ReportsCounts removedAndEvicted := by
    rw [reportsCounts_iff h]
    intro hex
    obtain ⟨x, hx, hs⟩ := hex
    exact Bool.false_ne_true ((hnone x hx).symm.trans hs)
  have hstale : ¬ recording3789.MissesStale removedAndEvicted := by
    intro hm
    -- without the sweeps there would be more calls
    obtain ⟨w, e, hw⟩ := exists_withoutSweeps removedAndEvicted_complete h
    have hmore := hw.more hm
    rw [hw.run] at hunswept
    have hlen : (Ntstat.calls effs).length = 2 := by
      rw [← List.length_map, hcalls]
      rfl
    rw [List.filter_eq_self.mpr fun x hx => by simp [hnone x hx], hlen] at hmore
    exact absurd (Option.some.inj hunswept) (Nat.ne_of_gt hmore)
  have hrec : recording3789.cfg.recordFd = some 5 := rfl
  obtain ⟨q, o, hr, hiff⟩ := replay_iff hrec (by decide) replay3789 removedAndEvicted_complete h
  exact ⟨c, effs, q, o, h, hr, hcalls, hiff.mpr ⟨hcounts, hstale⟩, hcounts, hstale⟩

end Session

end Ntstat
