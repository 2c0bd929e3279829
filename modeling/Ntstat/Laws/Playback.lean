import Ntstat.Sources.History
import Ntstat.Laws.Replay
import Ntstat.Laws.Removal
import Ntstat.Laws.Truncation

/-!
# What a replay does, whatever the file holds

* `Client.Replaying`      what the loop of `runRecording` keeps of a new client;
* `replayRecord_keeps`    every entry of a file keeps it;
* `replay_quiet`          so a replay sends and writes nothing, and reports no statistics;
* `replay_determined`     what it tells the listener does not depend on the clock, on the memory
                          behind the messages, or on how the client was configured.
-/

namespace Ntstat
open Memory Machine Std

/-! ## nothing is sent -/

/-- the listener is told of an added or a removed stream -/
def Effect.announces : Effect → Bool
  | notify cb _ _ => cb != .onStreamStatsUpdate
  | _ => false

namespace Client

/-- as a client is while it replays -/
structure Replaying (c : Client) : Prop where
  state : c.state = .start ∨ c.state = .running
  outq : c.outq = []
  seqnum : c.seqnum = 1
  unmarked : ∀ p, (c.heap p).requestedCount = false

variable {H : NTStatKernelStructHandler} {c : Client}

/-- outside of a subscription, an answer leads to the running state, and nothing is sent -/
theorem handleState_start (hs : c.state = .start) (msg : Mem) (n : Nat) (reqMsg : QMsg) :
    ∃ numDrops numErrors, c.handleState H msg n reqMsg =
      ({ c with state := .running, numDrops, numErrors }, []) := by
  have hlog : ∃ numDrops numErrors, (if hdrType msg = .error then c.getAndLogError msg n
      else (0, c)).2 = { c with numDrops, numErrors } := by
    split
    · unfold getAndLogError
      dsimp only
      split
      · exact ⟨_, _, rfl⟩
      · split <;> exact ⟨_, _, rfl⟩
    · exact ⟨_, _, rfl⟩
  obtain ⟨numDrops, numErrors, he⟩ := hlog
  refine ⟨numDrops, numErrors, ?_⟩
  unfold handleState
  dsimp only
  rw [he]
  dsimp only
  rw [hs]
  rfl

theorem Replaying.takeRequest (h : c.Replaying) (context : UInt64) :
    (c.takeRequest context).2.Replaying := by
  unfold Client.takeRequest
  split
  · exact ⟨h.state, h.outq, h.seqnum, h.unmarked⟩
  · exact h

/-- only the sweep over the sources marks one -/
theorem unmarked_message {now : Time} {msg : Mem} {n : Nat} {x : Int × Client × List Effect}
    (h : ∀ p, (c.heap p).requestedCount = false)
    (hx : c.handleResponseMessage H now msg n = some x) :
    (∀ p, (x.2.1.heap p).requestedCount = false) ∧
      ∀ y ∈ callbacks x.2.2, y.2.1 ≠ .onStreamStatsUpdate := by
  have href := c.handleResponseMessage_refines (H := H) now msg n
  rw [hx] at href
  have hstep : c.sources.step (messageInput H now msg n) =
      some (x.2.1.sources, callbacks x.2.2) := href.symm
  have hother : ∀ p t, ¬ c.sources.Marks (messageInput H now msg n) p t := by
    intro p t hm
    have hi : messageInput H now msg n = .requestCounts t := hm.1
    unfold messageInput at hi
    dsimp only at hi
    split at hi <;> cases hi
  refine ⟨fun p => ?_, fun y hy => ?_⟩
  · rw [← Bool.not_eq_true]
    intro hmark
    have := Sources.unmarked_step (hother p) hstep hmark
    rw [heap_sources, h p] at this
    cases this
  · obtain ⟨p, cb, stream⟩ := y
    intro hcb
    obtain rfl : cb = .onStreamStatsUpdate := hcb
    obtain ⟨_, _, _, hmark, _⟩ := (Sources.shown_stats hstep).mp hy
    rw [heap_sources, h p] at hmark
    cases hmark

/-- **A message keeps it, and at most announces a stream.** -/
theorem Replaying.message {now : Time} {msg : Mem} {n : Nat} {x : Int × Client × List Effect}
    (h : c.Replaying) (hx : c.handleResponseMessage H now msg n = some x) :
    x.2.1.Replaying ∧ ∀ e ∈ x.2.2, e.announces = true := by
  obtain ⟨hunmarked, hcalls⟩ := unmarked_message h.unmarked hx
  have hq := h.takeRequest (hdrContext msg)
  rcases handleResponseMessage_cases hx with ⟨hs, -, he⟩ | ⟨-, ⟨_, _, _, _, _, _, hc⟩, hn⟩
  · obtain ⟨_, _, hh⟩ := handleState_start (H := H) (hq.state.resolve_right hs) msg n
      (c.takeRequest (hdrContext msg)).1
    rw [hh] at he
    refine ⟨⟨Or.inr ?_, ?_, ?_, hunmarked⟩, fun e hm => ?_⟩
    · rw [he]
    · rw [he]
      exact hq.outq
    · rw [he]
      exact hq.seqnum
    · rw [he] at hm
      exact absurd hm List.not_mem_nil
  · refine ⟨⟨?_, ?_, ?_, hunmarked⟩, fun e hm => ?_⟩
    · rw [hc]
      exact hq.state
    · rw [hc]
      exact hq.outq
    · rw [hc]
      exact hq.seqnum
    · have hnotify := hn e hm
      cases e with
      | notify cb p stream =>
        exact bne_iff_ne.mpr (hcalls (p, cb, stream) (mem_callbacks.mpr hm))
      | enqueue => cases hnotify
      | socketWrite => cases hnotify
      | fileWrite => cases hnotify

end Client

/-- **Every entry of a file keeps it.** -/
theorem replayRecord_keeps {H : NTStatKernelStructHandler} {env : ReplayEnv} {k k' : Nat}
    {c c' : Client} {r : Record} {o : List Effect} (hc : c.Replaying)
    (h : replayRecord H env (k, c) r = some ((k', c'), o)) :
    c'.Replaying ∧ ∀ e ∈ o, e.announces = true := by
  rw [replayRecord_eq] at h
  unfold processMessage at h
  dsimp only at h
  have hfirst : (c.firstReplayed k (vecData r.data (env.behind k))).Replaying := by
    unfold Client.firstReplayed
    split
    · exact ⟨Or.inl rfl, hc.outq, hc.seqnum, hc.unmarked⟩
    · exact hc
  by_cases hreq : IsRequest (vecData r.data (env.behind k))
  · rw [if_pos hreq] at h
    obtain ⟨hs, rfl⟩ := Prod.mk.inj (Option.some.inj h)
    obtain ⟨-, rfl⟩ := Prod.mk.inj hs
    exact ⟨⟨hfirst.state, hfirst.outq, hfirst.seqnum, hfirst.unmarked⟩,
      fun e he => absurd he List.not_mem_nil⟩
  · rw [if_neg hreq] at h
    obtain ⟨x, hx, he⟩ := Option.map_eq_some_iff.mp h
    obtain ⟨hs, rfl⟩ := Prod.mk.inj he
    obtain ⟨-, rfl⟩ := Prod.mk.inj hs
    exact hfirst.message hx

namespace Replay
variable {R R' : Replay} {v : KernelVersion} {file : List UInt8} {q : Client} {o : List Effect}

theorem run_eq_exec (R : Replay) (v : KernelVersion) (file : List UInt8) : R.run v file =
    (exec (replayRecord v.handler R.env) R.start (records file)).map fun x => (x.1.2, x.2) := by
  unfold run Client.runRecording
  rw [if_neg (Int.not_le.mpr R.opened)]
  rfl

theorem start_replaying (R : Replay) : R.start.2.Replaying := by
  obtain ⟨_, _, _, hc, -, -⟩ := Client.configured_changes R.cfg
  unfold start
  rw [hc]
  exact ⟨Or.inr rfl, rfl, rfl, fun _ => rfl⟩

/-- **A replay sends nothing, writes nothing and reports no statistics, whatever the file holds: it
only tells the listener of streams that were added or removed.** -/
theorem replay_quiet (h : R.run v file = some (q, o)) :
    (∀ e ∈ o, e.announces = true) ∧ q.Replaying := by
  rw [run_eq_exec] at h
  obtain ⟨⟨⟨k, q'⟩, o'⟩, hx, he⟩ := Option.map_eq_some_iff.mp h
  obtain ⟨rfl, rfl⟩ := Prod.mk.inj he
  refine exec_inv (P := fun _ s o => (∀ e ∈ o, e.announces = true) ∧ s.2.Replaying)
    ⟨fun e he => absurd he List.not_mem_nil, R.start_replaying⟩ ?_ hx
  intro rs s1 o1 r s2 o2 _ hP hr
  obtain ⟨hkeep, hnew⟩ := replayRecord_keeps hP.2 hr
  refine ⟨fun e he => ?_, hkeep⟩
  rcases List.mem_append.mp he with he | he
  · exact hP.1 e he
  · exact hnew e he

end Replay

/-! ## nothing but the file matters -/

/-- the entries of a file have a length that the loop accepts -/
theorem Reads.valid {file : List UInt8} {rs : List Record} (h : Reads file rs) :
    ∀ r ∈ rs, r.Valid := by
  induction h with
  | stop => exact fun r hr => absurd hr List.not_mem_nil
  | @next file r rest rs h _ ih =>
    intro x hx
    rcases List.mem_cons.mp hx with rfl | hx
    · unfold readRecord at h
      dsimp only at h
      generalize (u32 (Mem.ofList (file.drop 4)) 0).toNat = n at h
      by_cases hlen : n < nstatMsgHdr.sizeOf ∨ 2048 < n
      · rw [if_pos hlen] at h
        split at h
        · cases h
        · split at h <;> cases h
      · rw [if_neg hlen] at h
        split at h
        · cases h
        · split at h
          · cases h
          · split at h
            · cases h
            · next hfit =>
              obtain ⟨rfl, -⟩ := Prod.mk.inj (Option.some.inj h)
              have hdata : ((file.drop 8).take n).length = n := by
                rw [List.length_take]
                omega
              unfold Record.Valid
              rw [hdata]
              omega
    · exact ih x hx

theorem SrcEvent.Retimed.meet {e e1 e2 : SrcEvent} (h1 : e.Retimed e1) (h2 : e.Retimed e2) :
    e1.Retimed e2 := by
  cases h1 with
  | removed _ hn1 =>
    cases h2 with
    | removed _ hn2 => exact .removed hn1 hn2
  | desc =>
    cases h2
    exact .desc
  | counts =>
    cases h2
    exact .counts

/-- the same message at two other times -/
theorem Input.Retimed.meet {i i1 i2 : Input} (h1 : i.Retimed i1) (h2 : i.Retimed i2) :
    i1.Retimed i2 := by
  cases h1 with
  | added =>
    cases h2
    exact .added
  | message he1 =>
    cases h2 with
    | message he2 => exact .message (he1.meet he2)
  | other =>
    cases h2
    exact .other

theorem Input.Retimed.sound {i i' : Input} (h : i.Retimed i') (hs : i.Sound) : i'.Sound := by
  cases h with
  | added => trivial
  | other => trivial
  | message he =>
    cases he with
    | removed _ hn => exact hn
    | desc => exact hs
    | counts => trivial

/-- the data of the record was received in full -/
def Record.Received (v : KernelVersion) (r : Record) : Prop :=
  v.Received r.data.length (Mem.ofList r.data)

/-- what is decoded of a record does not depend on what lies behind it -/
theorem Record.input_retimed {v : KernelVersion} {r : Record} (hr : r.Received v) (hv : r.Valid)
    {env : ReplayEnv} {k : Nat} (hk : 0 < env.clock k) :
    (messageInput v.handler 1 (Mem.ofList r.data) r.data.length).Retimed
      (r.input v.handler env k) := by
  have h16 : 16 ≤ r.data.length := by
    have := hv.1
    rwa [hdr_offsets.2.2] at this
  refine messageInput_retimed hr (by omega) (fun i hi => ?_) (by decide) hk
  unfold Mem.ofList vecData
  simp [hi]

theorem Record.input_lawful (v : KernelVersion) {r : Record} (hv : r.Valid) (env : ReplayEnv)
    (k : Nat) : (r.input v.handler env k).Lawful := by
  have h16 : 16 ≤ r.data.length := by
    have := hv.1
    rwa [hdr_offsets.2.2] at this
  have := Ntstat.input_lawful v.lawful
    (.readNextMessage (env.clock k) 0 (vecData r.data (env.behind k)) r.data.length)
  unfold Step.input at this
  dsimp only at this
  rwa [if_neg (by omega), Int.toNat_natCast] at this

theorem Record.input_sound {v : KernelVersion} {r : Record} (hr : r.Received v) (hv : r.Valid)
    {env : ReplayEnv} {k : Nat} (hk : 0 < env.clock k) : (r.input v.handler env k).Sound := by
  refine (r.input_retimed hr hv hk).sound ?_
  have h16 : 16 ≤ r.data.length := by
    have := hv.1
    rwa [hdr_offsets.2.2] at this
  have h2048 := hv.2
  have hcomplete : Step.Complete v (.readNextMessage 1 0 (Mem.ofList r.data) r.data.length) :=
    Or.inr ⟨by decide, by omega, by omega, hr⟩
  have := Ntstat.input_sound hcomplete
  unfold Step.input at this
  dsimp only at this
  rwa [if_neg (by omega), Int.toNat_natCast] at this

/-- what the listener is told by an effect -/
def Effect.call (e : Effect) : Option Call := e.shown.map Prod.snd

theorem calls_eq (effs : List Effect) : calls effs = effs.filterMap Effect.call := by
  unfold calls callbacks
  rw [List.map_filterMap]
  rfl

namespace Replay
variable {v : KernelVersion} {file : List UInt8}

/-- the replays are at the same entry, with the same sources up to times -/
def Abreast (s t : Nat × Client) : Prop := s.1 = t.1 ∧ Sources.Same s.2.sources t.2.sources

theorem start_abreast (R R' : Replay) : Abreast R.start R'.start := by
  refine ⟨rfl, ?_⟩
  rw [R.start_sources, R'.start_sources]
  exact Sources.same_init

/-- one entry more, in both -/
theorem abreast_step (R R' : Replay) {s t : Nat × Client} {r : Record} (h : Abreast s t)
    (hr : r.Received v) (hv : r.Valid) :
    ∃ s' o t' o', replayRecord v.handler R.env s r = some (s', o) ∧
      replayRecord v.handler R'.env t r = some (t', o') ∧ Abreast s' t' ∧
      o.filterMap Effect.call = o'.filterMap Effect.call := by
  obtain ⟨k, c⟩ := s
  obtain ⟨k', c'⟩ := t
  obtain ⟨hk, hsame⟩ := h
  obtain rfl : k = k' := hk
  have hin : (r.input v.handler R.env k).Retimed (r.input v.handler R'.env k) :=
    (r.input_retimed hr hv (R.ticking k)).meet (r.input_retimed hr hv (R'.ticking k))
  obtain ⟨s1, shown, hs⟩ := c.sources.sound_step (r.input_sound hr hv (R.ticking k))
  obtain ⟨s2, shown', hs', hsame', he⟩ := Sources.same_step hin (r.input_lawful v hv R.env k)
    (r.input_lawful v hv R'.env k) hsame hs
  obtain ⟨q, o, hq, rfl, rfl⟩ := exec_record hs
  obtain ⟨q', o', hq', rfl, rfl⟩ := exec_record hs'
  refine ⟨_, o, _, o', exec_single.mp hq, exec_single.mp hq', ⟨rfl, hsame'⟩, ?_⟩
  rw [← calls_eq, ← calls_eq]
  exact he.symm

/-- **What a replay tells the listener depends on the file alone**: not on the clock, nor on the
memory behind the messages, nor on the configuration of the client. -/
theorem replay_determined (R R' : Replay) (hr : ∀ r ∈ records file, r.Received v) :
    ∃ q o q' o', R.run v file = some (q, o) ∧ R'.run v file = some (q', o') ∧
      calls o = calls o' := by
  have hv := (reads_records file).valid
  have hQ : ∀ r ∈ records file, r.Received v ∧ r.Valid := fun r hm => ⟨hr r hm, hv r hm⟩
  have hsim := fun s t (r : Record) hR (hQ : r.Received v ∧ r.Valid) =>
    abreast_step (s := s) (t := t) R R' hR hQ.1 hQ.2
  obtain ⟨⟨k, q⟩, o, ⟨k', q'⟩, o', h, h', -, he⟩ := exec_obs_sim hsim hQ (start_abreast R R')
  refine ⟨q, o, q', o', ?_, ?_, ?_⟩
  · rw [run_eq_exec, h]
    rfl
  · rw [run_eq_exec, h']
    rfl
  · rw [calls_eq, calls_eq]
    exact he

/-! ### a file with one source -/

/-- source 7 is announced and described -/
def described : List Record :=
  [⟨1, (structs3789.addedMsg 7 4).take 28⟩, ⟨2, (structs3789.udpDescMsg 7 4 80 81).take 248⟩]

def describedFile : List UInt8 := described.flatMap Record.bytes

theorem described_records : records describedFile = described := by
  refine records_bytes fun r hr => ?_
  rcases List.mem_pair.mp hr with rfl | rfl
  · exact ⟨by decide, by decide⟩
  · exact ⟨by decide +kernel, by decide +kernel⟩

theorem described_received : ∀ r ∈ described, r.Received .xnu3789 := by
  intro r hr
  rcases List.mem_pair.mp hr with rfl | rfl
  · exact received_of_content (t := .srcAdded) (by decide) (by decide)
      ⟨by unfold KernelVersion.SrcrefReceived; decide, by decide⟩
  · unfold Record.Received
    dsimp only
    generalize hm : Mem.ofList ((structs3789.udpDescMsg 7 4 80 81).take 248) = m
    rw [Mem.take_length]
    have hdesc : KernelVersion.DescReceived .xnu3789 248 m := by
      intro p hp
      obtain rfl := (u32_of_mayBe hp (by decide)).symm
      subst hm
      exact ⟨fun hm => absurd hm (by decide), fun _ =>
        ⟨⟨by decide, by decide⟩, by decide, Or.inl (by decide)⟩⟩
    exact received_of_content (t := .srcDesc) (by subst hm; decide) (by decide)
      ⟨by unfold KernelVersion.SrcrefReceived; decide, hdesc⟩

/-- a replay at another time, with other memory, of a client that wants UDP -/
def later : Replay where
  cfg := { wantTcp := false, wantUdp := true }
  opened := Session.session3789.connected
  env := ⟨fun _ => 1000, fun _ _ => 255⟩
  ticking := fun _ => show (0 : Time) < 1000 by decide

theorem replay_quiet_described : ∃ q o,
    Session.replay3789.run .xnu3789 describedFile = some (q, o) ∧
      o.length = 1 ∧ (∀ e ∈ o, e.announces = true) ∧ q.Replaying := by
  have hrun : (Session.replay3789.run .xnu3789 describedFile).map (fun x => x.2.length) =
      some 1 := by decide +kernel
  obtain ⟨⟨q, o⟩, h, hlen⟩ := Option.map_eq_some_iff.mp hrun
  exact ⟨q, o, h, hlen, replay_quiet h⟩

theorem replay_determined_described :
    (∀ r ∈ records describedFile, r.Received .xnu3789) ∧ ∃ q o q' o',
      Session.replay3789.run .xnu3789 describedFile = some (q, o) ∧
      later.run .xnu3789 describedFile = some (q', o') ∧ calls o = calls o' := by
  have hr : ∀ r ∈ records describedFile, r.Received .xnu3789 := by
    rw [described_records]
    exact described_received
  exact ⟨hr, replay_determined Session.replay3789 later hr⟩

end Replay

end Ntstat
