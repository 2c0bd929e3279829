import Ntstat.Client.Connect
import Ntstat.Laws.Playback

/-!
# The life of a client object

The methods of the client may be called in any order: it may be configured again, connected again,
run again, and it may replay recordings between sessions.

* `uses_faithful`        what is kept over all of them: the map names every source by its reference,
                         and no object is announced twice, be it live or replayed;
* `replayMode_iff`       which calls leave the client in the replay mode;
* `session_mute_iff`     in that mode a later session asks the kernel for nothing.
-/

namespace Ntstat
open Memory Machine Std

namespace Client
variable {v : KernelVersion} {c c' : Client} {effs : List Effect}

/-! ## the sources -/

/-- the sources take steps of the tracker, and the listener hears what it shows -/
def Tracked (c : Client) (x : Client × List Effect) : Prop :=
  ∃ is, (∀ i ∈ is, i.Lawful) ∧ exec Sources.step c.sources is = some (x.1.sources, callbacks x.2)

theorem tracked_silent (h : c'.sources = c.sources) : c.Tracked (c', []) := by
  refine ⟨[], fun i hi => absurd hi List.not_mem_nil, ?_⟩
  rw [h]
  rfl

theorem Tracked.trans {x y : Client × List Effect} (hx : c.Tracked x) (hy : x.1.Tracked y) :
    c.Tracked (y.1, x.2 ++ y.2) := by
  obtain ⟨is, hl, he⟩ := hx
  obtain ⟨is', hl', he'⟩ := hy
  refine ⟨is ++ is', fun i hi => ?_, ?_⟩
  · rcases List.mem_append.mp hi with hi | hi
    · exact hl i hi
    · exact hl' i hi
  · rw [callbacks_append]
    exact exec_append.mpr ⟨_, _, _, he, he', rfl⟩

/-- a recording is replayed by steps of the tracker -/
theorem tracked_records {env : ReplayEnv} {rs : List Record} {k k' : Nat}
    (hv : ∀ r ∈ rs, r.Valid)
    (h : exec (replayRecord v.handler env) (k, c) rs = some ((k', c'), effs)) :
    c.Tracked (c', effs) := by
  induction rs generalizing k c effs with
  | nil =>
    obtain ⟨hs, rfl⟩ := Prod.mk.inj (Option.some.inj h)
    obtain ⟨-, rfl⟩ := Prod.mk.inj hs
    exact tracked_silent rfl
  | cons r rs ih =>
    obtain ⟨⟨k1, c1⟩, e1, e2, h1, h2, rfl⟩ := exec_cons.mp h
    have href := replayRecord_refines v.handler env k c r
    rw [h1, Option.map_some] at href
    obtain ⟨⟨s1, shown⟩, hs, he⟩ := Option.map_eq_some_iff.mp href.symm
    obtain ⟨rfl, he⟩ := Prod.mk.inj he
    obtain ⟨rfl, rfl⟩ := Prod.mk.inj he
    have hfirst : c.Tracked (c1, e1) := by
      refine ⟨[r.input v.handler env k], fun i hi => ?_, exec_single.mpr hs⟩
      obtain rfl := List.mem_singleton.mp hi
      exact r.input_lawful v (hv r List.mem_cons_self) env k
    exact hfirst.trans (ih (fun x hx => hv x (List.mem_cons_of_mem _ hx)) h2)

/-- **Every call is made of steps of the tracker.** -/
theorem use_tracked {u : Use} (h : c.use v u = some (c', effs)) : c.Tracked (c', effs) := by
  cases u with
  | configure wantTcp wantUdp updateIntervalSeconds =>
    obtain ⟨rfl, rfl⟩ := Prod.mk.inj (Option.some.inj h)
    exact tracked_silent rfl
  | enableRecording fd =>
    obtain ⟨rfl, rfl⟩ := Prod.mk.inj (Option.some.inj h)
    exact tracked_silent rfl
  | connectToKernel a =>
    obtain ⟨rfl, rfl⟩ := Prod.mk.inj (Option.some.inj h)
    rw [connectToKernelBy_client]
    exact tracked_silent rfl
  | run steps =>
    unfold use at h
    dsimp only at h
    by_cases hc : c.isConnected
    · rw [if_pos hc] at h
      obtain ⟨⟨c1, e1⟩, hx, he⟩ := Option.map_eq_some_iff.mp h
      obtain ⟨rfl, rfl⟩ := Prod.mk.inj he
      obtain ⟨hs, hp⟩ := Prod.mk.inj (quiet_beginRun (c := c) v.handler)
      refine ⟨steps.map (Step.input v.handler), fun i hi => ?_, ?_⟩
      · obtain ⟨st, -, rfl⟩ := List.mem_map.mp hi
        exact input_lawful v.lawful st
      · rw [callbacks_append]
        show _ = some (c1.sources, callbacks (c.beginRun v.handler).2 ++ callbacks e1)
        rw [show callbacks (c.beginRun v.handler).2 = [] from hp, List.nil_append, ← hs]
        exact sources_of_run hx
    · rw [if_neg hc] at h
      obtain ⟨rfl, rfl⟩ := Prod.mk.inj (Option.some.inj h)
      exact tracked_silent rfl
  | runRecording version env fd file =>
    unfold use Client.runRecording at h
    dsimp only at h
    split at h
    · obtain ⟨rfl, rfl⟩ := Prod.mk.inj (Option.some.inj h)
      exact tracked_silent rfl
    · obtain ⟨⟨⟨k, q⟩, o⟩, hx, he⟩ := Option.map_eq_some_iff.mp h
      obtain ⟨rfl, rfl⟩ := Prod.mk.inj he
      have hq : ({ c with recordFd := fd, state := .running } : Client).Tracked (q, o) :=
        tracked_records (reads_records file).valid hx
      exact hq

theorem uses_tracked {us : List Use} (h : exec (use v) c us = some (c', effs)) :
    c.Tracked (c', effs) := by
  refine exec_inv (P := fun _ c1 e1 => c.Tracked (c1, e1)) (tracked_silent rfl) ?_ h
  intro us c1 e1 u c2 e2 _ hP hu
  exact hP.trans (use_tracked hu)

end Client

/-- what all runs of the tracker have in common -/
structure Sources.Faithful (s : Sources) (shown : List Shown) : Prop where
  coherent : s.Coherent
  once : ∀ p, (callsOf p shown).countP isAdded ≤ 1
  ids : ∀ p cb stream, (p, cb, stream) ∈ shown → p < s.next ∧ stream.id = (s.heap p).obj.id

theorem Sources.run_faithful {is : List Input} {s : Sources} {shown : List Shown}
    (hl : ∀ i ∈ is, i.Lawful) (h : exec Sources.step {} is = some (s, shown)) :
    s.Faithful shown := by
  obtain ⟨hc, hlife⟩ := Sources.run_life hl h
  refine ⟨hc, fun p => (hlife p).once, ?_⟩
  refine exec_inv (P := fun is s shown => (∀ i ∈ is, i.Lawful) → ∀ p cb stream,
    (p, cb, stream) ∈ shown → p < s.next ∧ stream.id = (s.heap p).obj.id) ?_ ?_ h hl
  · exact fun _ p cb stream hm => absurd hm List.not_mem_nil
  · intro is s1 o1 i s2 o2 hx hP hs hl p cb stream hm
    have hl1 : ∀ j ∈ is, j.Lawful := fun j hj => hl j (List.mem_append_left _ hj)
    have hi : i.Lawful := hl i (by simp)
    have h1 : p < s1.next ∧ stream.id = (s1.heap p).obj.id := by
      rcases List.mem_append.mp hm with hm | hm
      · exact hP hl1 p cb stream hm
      · exact Sources.shown_id (Sources.run_life hl1 hx).1 hi hs hm
    exact ⟨Nat.lt_of_lt_of_le h1.1 (Sources.next_step hs),
      h1.2.trans (Sources.id_step hi h1.1 hs).symm⟩

/-- **In whatever order the methods are called, over any number of sessions and replays: the map
names every source by its reference, no object is announced twice, and all calls for an object show
its id.** -/
theorem uses_faithful {v : KernelVersion} {us : List Use} {c : Client} {effs : List Effect}
    (h : exec (Client.use v) {} us = some (c, effs)) : c.sources.Faithful (callbacks effs) := by
  obtain ⟨is, hl, hx⟩ := Client.uses_tracked h
  refine Sources.run_faithful hl ?_
  have h0 : ({} : Client).sources = {} := by
    rw [← configured_sources {}]
    rfl
  rw [← h0]
  exact hx

/-- a session, a replay of a recording with the same source, and the session again -/
def reused : List Use :=
  [.connectToKernel ⟨3, 0, 0⟩, .run Session.counted,
   .runRecording .xnu3789 ⟨fun _ => 30, fun _ _ => 0⟩ 5 Replay.describedFile,
   .connectToKernel ⟨4, 0, 0⟩, .run Session.counted]

theorem uses_faithful_reused : ∃ c effs,
    exec (Client.use .xnu3789) {} reused = some (c, effs) ∧
    (callbacks effs).map (fun x => (x.1, x.2.1)) =
      [(0, .onStreamAdded), (0, .onStreamStatsUpdate)] ∧
    c.sources.Faithful (callbacks effs) := by
  have hrun : (exec (Client.use .xnu3789) {} reused).map (fun x =>
      (callbacks x.2).map fun y => (y.1, y.2.1)) =
        some [(0, .onStreamAdded), (0, .onStreamStatsUpdate)] := by decide +kernel
  obtain ⟨⟨c, effs⟩, h, he⟩ := Option.map_eq_some_iff.mp hrun
  exact ⟨c, effs, h, he, uses_faithful h⟩

/-! ## the replay mode -/

namespace Client
variable {H : NTStatKernelStructHandler} {v : KernelVersion} {c c' : Client} {effs : List Effect}

/-- the record file stays as it is, and in the replay mode nothing is sent -/
structure KeepsFile (c : Client) (x : Client × List Effect) : Prop where
  recordFd : x.1.recordFd = c.recordFd
  recordEnabled : x.1.recordEnabled = c.recordEnabled
  mute : c.inReplayMode = true → enqueued x.2 = []

theorem KeepsFile.mode {x : Client × List Effect} (h : c.KeepsFile x) :
    x.1.inReplayMode = c.inReplayMode := by
  unfold inReplayMode
  rw [h.recordFd, h.recordEnabled]

theorem KeepsFile.trans {x y : Client × List Effect} (hx : c.KeepsFile x) (hy : x.1.KeepsFile y) :
    c.KeepsFile (y.1, x.2 ++ y.2) := by
  refine ⟨hy.recordFd.trans hx.recordFd, hy.recordEnabled.trans hx.recordEnabled, fun hc => ?_⟩
  have h1 := hx.mute hc
  have h2 := hy.mute (hx.mode.trans hc)
  show enqueued (x.2 ++ y.2) = []
  rw [enqueued_append, h1, h2, List.append_nil]

theorem keepsFile_composed (H : NTStatKernelStructHandler) : Composed H KeepsFile where
  trans := KeepsFile.trans
  still h := ⟨h.recordFd, h.recordEnabled, fun _ => (quiet_of_notify h.effects).1⟩
  send {c msg} _ := by
    unfold send
    split
    · exact ⟨rfl, rfl, fun _ => rfl⟩
    · next hn => exact ⟨rfl, rfl, fun hc => absurd hc hn⟩

theorem keepsFile_sendFirst (c : Client) (timestamp : UInt32) (rc : Int) :
    c.KeepsFile (c.sendFirst timestamp rc) := by
  unfold sendFirst
  split
  · exact ⟨rfl, rfl, fun _ => rfl⟩
  · next qm outq ho =>
    refine ⟨rfl, rfl, fun _ => ?_⟩
    dsimp only [sendQMsg]
    rw [enqueued_append, (c.quiet_record_effects timestamp qm.msgbytes).1]
    rfl

/-- **No step of a session changes it.** -/
theorem step_keepsFile {st : Step} (h : step H c st = some (c', effs)) :
    c.KeepsFile (c', effs) := by
  have hQ := keepsFile_composed H
  cases turn_of_step h with
  | nothing hn => exact ⟨rfl, rfl, fun _ => rfl⟩
  | @message now timestamp buf n x hn hx =>
    have hm := hQ.handleResponseMessage hx
    refine ⟨hm.recordFd, hm.recordEnabled, fun hc => ?_⟩
    rw [enqueued_append, (c.quiet_record_effects timestamp _).1, hm.mute hc]
    rfl
  | updateWaitForCountsQueue now => exact hQ.updateWaitForCountsQueue now c
  | removeOldSources now => exact hQ.removeOldSources now c
  | sendNextMsg timestamp rc =>
    exact ((hQ.sendWaitingDesc c).trans (hQ.sendWaitingCount _)).trans
      (keepsFile_sendFirst _ timestamp rc)

theorem run_keepsFile {steps : List Step} (h : exec (step H) c steps = some (c', effs)) :
    c.KeepsFile (c', effs) := by
  refine exec_inv (P := fun _ c1 e1 => c.KeepsFile (c1, e1)) ⟨rfl, rfl, fun _ => rfl⟩ ?_ h
  intro steps c1 e1 st c2 e2 _ hP hst
  exact hP.trans (step_keepsFile hst)

/-- out of the replay mode the subscription is enqueued before the loop -/
theorem beginRun_enqueues (H : NTStatKernelStructHandler) (hc : c.inReplayMode = false) :
    enqueued (c.beginRun H).2 ≠ [] := by
  have hsend : ∀ (s : ClientState) (msg : List UInt8),
      enqueued (send { c with keepRunning := true, state := s } msg).2 ≠ [] := by
    intro s msg
    unfold send
    rw [if_neg (by simpa [inReplayMode] using hc)]
    exact List.cons_ne_nil _ _
  unfold beginRun
  dsimp only
  split
  · exact hsend _ _
  · exact hsend _ _

theorem records_keepsFile {env : ReplayEnv} {rs : List Record} {k k' : Nat}
    (h : exec (replayRecord H env) (k, c) rs = some ((k', c'), effs)) :
    c'.recordFd = c.recordFd ∧ c'.recordEnabled = c.recordEnabled := by
  refine exec_inv (P := fun _ s _ =>
    s.2.recordFd = c.recordFd ∧ s.2.recordEnabled = c.recordEnabled) ⟨rfl, rfl⟩ ?_ h
  intro rs s1 e1 r s2 e2 _ hP hr
  rw [replayRecord_eq] at hr
  unfold processMessage at hr
  dsimp only at hr
  have hfirst : (s1.2.firstReplayed s1.1 (vecData r.data (env.behind s1.1))).recordFd =
        c.recordFd ∧
      (s1.2.firstReplayed s1.1 (vecData r.data (env.behind s1.1))).recordEnabled =
        c.recordEnabled := by
    unfold firstReplayed
    split <;> exact hP
  by_cases hreq : IsRequest (vecData r.data (env.behind s1.1))
  · rw [if_pos hreq] at hr
    obtain ⟨rfl, -⟩ := Prod.mk.inj (Option.some.inj hr)
    exact hfirst
  · rw [if_neg hreq] at hr
    obtain ⟨x, hx, he⟩ := Option.map_eq_some_iff.mp hr
    obtain ⟨rfl, -⟩ := Prod.mk.inj he
    have hm := (keepsFile_composed H).handleResponseMessage hx
    exact ⟨hm.recordFd.trans hfirst.1, hm.recordEnabled.trans hfirst.2⟩

end Client

/-- the file that a call opens -/
def Use.opens : Use → Option Int
  | enableRecording fd => some fd
  | runRecording _ _ fd _ => some fd
  | _ => none

/-- the call makes the client record -/
def Use.records : Use → Bool
  | enableRecording fd => 0 < fd
  | _ => false

/-- after these calls the client takes itself for one that replays: the last file was opened, and it
never recorded -/
def LeftReplaying (us : List Use) : Prop :=
  0 < (us.filterMap Use.opens).getLast?.getD 0 ∧ us.any Use.records = false

section
variable {v : KernelVersion} {us : List Use} {c c' : Client} {effs : List Effect}

theorem use_opens {u : Use} (h : c.use v u = some (c', effs)) :
    c'.recordFd = u.opens.getD c.recordFd ∧
      c'.recordEnabled = (c.recordEnabled || u.records) := by
  cases u with
  | configure wantTcp wantUdp updateIntervalSeconds =>
    obtain ⟨rfl, -⟩ := Prod.mk.inj (Option.some.inj h)
    exact ⟨rfl, (Bool.or_false _).symm⟩
  | enableRecording fd =>
    obtain ⟨rfl, -⟩ := Prod.mk.inj (Option.some.inj h)
    exact ⟨rfl, Bool.or_comm _ _⟩
  | connectToKernel a =>
    obtain ⟨rfl, -⟩ := Prod.mk.inj (Option.some.inj h)
    rw [Client.connectToKernelBy_client]
    exact ⟨rfl, (Bool.or_false _).symm⟩
  | run steps =>
    unfold Client.use at h
    dsimp only at h
    by_cases hc : c.isConnected
    · rw [if_pos hc] at h
      obtain ⟨⟨c1, e1⟩, hx, he⟩ := Option.map_eq_some_iff.mp h
      obtain ⟨rfl, -⟩ := Prod.mk.inj he
      have hbegin := (Client.keepsFile_composed v.handler).beginRun c
      have hrun := Client.run_keepsFile hx
      exact ⟨hrun.recordFd.trans hbegin.recordFd,
        (hrun.recordEnabled.trans hbegin.recordEnabled).trans (Bool.or_false _).symm⟩
    · rw [if_neg hc] at h
      obtain ⟨rfl, -⟩ := Prod.mk.inj (Option.some.inj h)
      exact ⟨rfl, (Bool.or_false _).symm⟩
  | runRecording version env fd file =>
    unfold Client.use Client.runRecording at h
    dsimp only at h
    split at h
    · obtain ⟨rfl, -⟩ := Prod.mk.inj (Option.some.inj h)
      exact ⟨rfl, (Bool.or_false _).symm⟩
    · obtain ⟨⟨⟨k, q⟩, o⟩, hx, he⟩ := Option.map_eq_some_iff.mp h
      obtain ⟨rfl, -⟩ := Prod.mk.inj he
      obtain ⟨h1, h2⟩ := Client.records_keepsFile hx
      exact ⟨h1, h2.trans (Bool.or_false _).symm⟩

/-- **Which calls leave the client in the replay mode.** -/
theorem replayMode_iff (h : exec (Client.use v) {} us = some (c, effs)) :
    c.inReplayMode = true ↔ LeftReplaying us := by
  have key : c.recordFd = (us.filterMap Use.opens).getLast?.getD 0 ∧
      c.recordEnabled = us.any Use.records := by
    refine exec_inv (P := fun us c _ => c.recordFd = (us.filterMap Use.opens).getLast?.getD 0 ∧
      c.recordEnabled = us.any Use.records) ⟨rfl, rfl⟩ ?_ h
    intro us c1 e1 u c2 e2 _ hP hu
    obtain ⟨h1, h2⟩ := use_opens hu
    rw [h1, h2, hP.1, hP.2, List.filterMap_append, List.any_append]
    refine ⟨?_, by simp⟩
    cases ho : u.opens with
    | none => simp [ho]
    | some fd => simp [ho]
  unfold Client.inReplayMode LeftReplaying
  rw [key.1, key.2]
  simp

/-- **A session asks the kernel for nothing exactly if the client was left in the replay mode.** -/
theorem session_mute_iff {steps : List Step} {e : List Effect}
    (h : exec (Client.use v) {} us = some (c, effs)) (hc : c.isConnected = true)
    (hrun : c.use v (.run steps) = some (c', e)) : enqueued e = [] ↔ LeftReplaying us := by
  rw [← replayMode_iff h]
  unfold Client.use at hrun
  dsimp only at hrun
  rw [if_pos hc] at hrun
  obtain ⟨⟨c1, e1⟩, hx, he⟩ := Option.map_eq_some_iff.mp hrun
  obtain ⟨-, rfl⟩ := Prod.mk.inj he
  have hbegin := (Client.keepsFile_composed v.handler).beginRun c
  rw [enqueued_append]
  constructor
  · intro hnone
    by_contra hmode
    have hsub := Client.beginRun_enqueues v.handler (Bool.not_eq_true _ ▸ hmode)
    exact hsub (List.append_eq_nil_iff.mp hnone).1
  · intro hmode
    have h1 := hbegin.mute hmode
    have h2 := (Client.run_keepsFile hx).mute (hbegin.mode.trans hmode)
    rw [h1, h2]
    rfl

/-- a replay, and then a connection -/
def replayedFirst : List Use :=
  [.runRecording .xnu3789 ⟨fun _ => 30, fun _ _ => 0⟩ 5 Replay.describedFile,
   .connectToKernel ⟨3, 0, 0⟩]

theorem session_mute_iff_replayedFirst : ∃ c effs c' e,
    exec (Client.use .xnu3789) {} replayedFirst = some (c, effs) ∧ c.isConnected = true ∧
    c.use .xnu3789 (.run [.sendNextMsg 1 0]) = some (c', e) ∧
    (enqueued e = [] ↔ LeftReplaying replayedFirst) ∧ LeftReplaying replayedFirst := by
  have hrun : ((exec (Client.use .xnu3789) {} replayedFirst).bind fun x =>
      (x.1.use .xnu3789 (.run [.sendNextMsg 1 0])).map fun _ => x.1.isConnected) = some true := by
    decide +kernel
  obtain ⟨⟨c, effs⟩, h, hx⟩ := Option.bind_eq_some_iff.mp hrun
  obtain ⟨⟨c', e⟩, h', hc⟩ := Option.map_eq_some_iff.mp hx
  exact ⟨c, effs, c', e, h, hc, h', session_mute_iff h hc h', by decide, by decide⟩

end

end Ntstat
