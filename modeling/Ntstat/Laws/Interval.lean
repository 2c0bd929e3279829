import Ntstat.Client.Loop
import Ntstat.Laws.Pending

/-!
# The statistics interval

* `configure_clamp`       0 is configured as 30, so the loop never finds the sweeps turned off;
* `sweeps_spaced`         the sweeps of the loop are as far apart as its interval;
* `query_iff`             a request for counts is sent exactly when `sendNextMsg` finds a source for
                          it;
* `unasked_of_unmarked`   it finds none as long as no sweep marks one;
* `interval_iff`          when the loop does with the interval what `configure` promises.
-/

namespace Ntstat
open Memory Machine

/-- when the step sweeps -/
def Step.sweep : Step → Option Time
  | updateWaitForCountsQueue now => some now
  | _ => none

/-- `_updateIntervalSeconds` after `configure` -/
def Config.interval (cfg : Config) : UInt32 :=
  if cfg.updateIntervalSeconds < 30 then 30 else cfg.updateIntervalSeconds

/-- an interval below 30 is the same as 30: no client knows that the application gave 0 -/
theorem Client.configure_clamp (c : Client) (wantTcp wantUdp : Bool) {interval : UInt32}
    (h : interval < 30) :
    c.configure wantTcp wantUdp interval = c.configure wantTcp wantUdp 30 := by
  unfold configure
  rw [if_pos h]
  rfl

theorem interval_toNat (cfg : Config) :
    cfg.interval.toNat = max cfg.updateIntervalSeconds.toNat 30 := by
  unfold Config.interval
  split
  · next h => exact (Nat.max_eq_right (Nat.le_of_lt h)).symm
  · next h => exact (Nat.max_eq_left (Nat.not_lt.mp h)).symm

theorem interval_le (cfg : Config) : cfg.updateIntervalSeconds.toNat ≤ cfg.interval.toNat := by
  rw [interval_toNat]
  exact Nat.le_max_left _ _

/-- so the loop's test for an interval of 0 never keeps it from a sweep -/
theorem updateDue_iff (cfg : Config) {t : Timers} {r : Round} :
    t.UpdateDue cfg.interval r ↔ t.tLastUpdate + cfg.interval.toNat ≤ r.now := by
  have hpos : 0 < cfg.interval := by
    rw [UInt32.lt_iff_toNat_lt, interval_toNat]
    exact lt_of_lt_of_le (by decide) (Nat.le_max_right _ _)
  exact (and_iff_right hpos).trans le_sub_iff_add_le'

namespace Timers
variable {interval : UInt32}

/-- the sweeps of some rounds -/
def sweeps (interval : UInt32) (t : Timers) (rounds : List Round) : List Time :=
  (t.steps interval rounds).filterMap Step.sweep

theorem sweeps_cons (t : Timers) (r : Round) (rounds : List Round) :
    t.sweeps interval (r :: rounds) = (if t.UpdateDue interval r then [r.now] else []) ++
      (t.tick interval r).sweeps interval rounds := by
  have hincoming : (r.incoming.map fun m => Step.readNextMessage m.now m.timestamp m.buf
      m.numBytes).filterMap Step.sweep = [] := by
    rw [List.filterMap_map]
    exact List.filterMap_eq_nil_iff.mpr fun _ _ => rfl
  have hround : (t.roundSteps interval r).filterMap Step.sweep =
      if t.UpdateDue interval r then [r.now] else [] := by
    unfold roundSteps
    rw [List.filterMap_append, List.filterMap_append, List.filterMap_cons, hincoming]
    split <;> split <;> rfl
  unfold sweeps
  rw [steps, List.filterMap_append, hround]

/-- **Any two sweeps of the loop are at least an interval apart.** -/
theorem sweeps_spaced (t : Timers) (rounds : List Round) :
    (t.sweeps interval rounds).Pairwise (fun (a b : Time) => a + interval.toNat ≤ b) ∧
      ∀ a ∈ t.sweeps interval rounds, t.tLastUpdate + interval.toNat ≤ a := by
  induction rounds generalizing t with
  | nil => exact ⟨List.Pairwise.nil, fun a h => by cases h⟩
  | cons r rounds ih =>
    obtain ⟨h1, h2⟩ := ih (t.tick interval r)
    rw [sweeps_cons]
    by_cases hu : t.UpdateDue interval r
    · have htick : (t.tick interval r).tLastUpdate = r.now := if_pos hu
      rw [htick] at h2
      rw [if_pos hu, List.singleton_append]
      have hnow : t.tLastUpdate + interval.toNat ≤ r.now := le_sub_iff_add_le'.mp hu.2
      refine ⟨List.pairwise_cons.mpr ⟨h2, h1⟩, fun a ha => ?_⟩
      rcases List.mem_cons.mp ha with rfl | ha
      · exact hnow
      · have hnat : r.now ≤ r.now + interval.toNat := le_add_of_nonneg_right (Int.natCast_nonneg _)
        exact le_trans hnow (le_trans hnat (h2 a ha))
    · have htick : (t.tick interval r).tLastUpdate = t.tLastUpdate := if_neg hu
      rw [htick] at h2
      rw [if_neg hu, List.nil_append]
      exact ⟨h1, h2⟩

end Timers

namespace Session
variable {S : Session} {steps : List Step} {c c' : Client} {effs effs' : List Effect} {st : Step}

/-- a message makes the client subscribe at most -/
theorem subscribes_of_handle {now : Time} {msg : Mem} {n : Nat} {x : Int × Client × List Effect}
    (h : c.handleResponseMessage S.handler now msg n = some x) {msg' : List UInt8}
    (hm : .enqueue msg' ∈ x.2.2) : Client.Subscribes S.handler msg' := by
  rcases Client.handleResponseMessage_cases h with ⟨-, -, he⟩ | ⟨-, -, hn⟩
  · obtain ⟨_, _, _, _, _, _, -, -, hs⟩ := Client.handleState_resubscribed (H := S.handler)
      (c.takeRequest (hdrContext msg)).2 msg n (c.takeRequest (hdrContext msg)).1
    rw [he] at hm
    exact hs msg' hm
  · cases hn _ hm

/-- a request for counts is sent exactly when `sendNextMsg` finds a source for it -/
theorem query_iff (hl : c.inReplayMode = false) (hst : S.step c st = some (c', effs')) :
    (∃ msg, .enqueue msg ∈ effs' ∧ hdrType (Mem.ofList msg) = .querySrc) ↔
      (∃ timestamp rc, st = .sendNextMsg timestamp rc) ∧ c.WantsQuery := by
  cases turn_of_step hst with
  | sendNextMsg timestamp rc =>
    have hx := (Client.sends_sendNextMsg (v := S.version) hl timestamp rc rfl).1.query_iff
    simp only [mem_enqueued] at hx
    rw [hx]
    exact (and_iff_right ⟨timestamp, rc, rfl⟩).symm
  | @message now timestamp buf n x hn hx =>
    refine iff_of_false (fun hex => ?_) fun hex => ?_
    · obtain ⟨msg, hm, ht⟩ := hex
      rcases List.mem_append.mp hm with hm | hm
      · have hm' := mem_enqueued.mpr hm
        rw [(c.quiet_record_effects timestamp _).1] at hm'
        cases hm'
      · rw [S.version.subscribes_type (subscribes_of_handle hx hm)] at ht
        cases ht
    · obtain ⟨⟨_, _, he⟩, -⟩ := hex
      cases he
  | _ =>
    refine iff_of_false (fun hex => ?_) fun hex => ?_
    · obtain ⟨_, hm, -⟩ := hex
      cases hm
    · obtain ⟨⟨_, _, he⟩, -⟩ := hex
      cases he

/-! ## the law of the interval -/

/-- what `configure` promises of a run with these effects, whose sweeps were at `sweeps` -/
structure IntervalKept (S : Session) (sweeps : List Time) (effs : List Effect) : Prop where
  off : S.cfg.updateIntervalSeconds = 0 →
    (∀ msg ∈ enqueued (S.prologue ++ effs), hdrType (Mem.ofList msg) ≠ .querySrc) ∧
    ∀ x ∈ callbacks effs, x.2.1 ≠ .onStreamStatsUpdate
  spaced : 0 < S.cfg.updateIntervalSeconds →
    sweeps.Pairwise fun (a b : Time) => a + S.cfg.updateIntervalSeconds.toNat ≤ b

/-- at no step `sendNextMsg` finds a source to ask the counts of, or counts arrive for a source that
is described and marked -/
def Unasked (S : Session) (steps : List Step) : Prop :=
  ∀ pre st post c effs, S.At steps pre st post c effs →
    ((∃ timestamp rc, st = .sendNextMsg timestamp rc) → ¬ c.WantsQuery) ∧
    ∀ p, ¬ c.sources.CountsWanted (st.input S.handler) p

theorem start_interval (S : Session) : S.start.updateIntervalSeconds = S.cfg.interval := by
  obtain ⟨_, _, _, ⟨_, _, _, _, _, _, he, -⟩, hi⟩ :=
    Client.live_resubscribed S.handler S.cfg S.fd
  rw [show S.start = _ from he]
  exact hi

theorem prologue_subscribes (S : Session) {msg : List UInt8}
    (hm : .enqueue msg ∈ S.prologue) : Client.Subscribes S.handler msg := by
  obtain ⟨_, _, _, ⟨_, _, _, _, _, _, -, -, hs⟩, -⟩ :=
    Client.live_resubscribed S.handler S.cfg S.fd
  exact hs msg hm

/-- a run is unasked exactly if no request for counts is sent in it and no counts are handed over -/
theorem unasked_iff (h : S.run steps = some (c, effs)) : S.Unasked steps ↔
    (∀ msg ∈ enqueued (S.prologue ++ effs), hdrType (Mem.ofList msg) ≠ .querySrc) ∧
    ∀ x ∈ callbacks effs, x.2.1 ≠ .onStreamStatsUpdate := by
  constructor
  · intro hun
    refine ⟨fun msg hm ht => ?_, fun x hx hcb => ?_⟩
    · rw [enqueued_append, List.mem_append] at hm
      rcases hm with hm | hm
      · rw [S.version.subscribes_type (prologue_subscribes S (mem_enqueued.mp hm))] at ht
        cases ht
      · obtain ⟨pre, st, post, c1, e1, he, h1, c2, e2, hst, hm⟩ :=
          (mem_outputs h).mp (mem_enqueued.mp hm)
        obtain ⟨hsend, hw⟩ := (query_iff (run_numbered h1).live hst).mp ⟨msg, hm, ht⟩
        exact (hun pre st post c1 e1 ⟨he, h1⟩).1 hsend hw
    · obtain ⟨p, cb, stream⟩ := x
      obtain rfl : cb = .onStreamStatsUpdate := hcb
      obtain ⟨e, hm, hs⟩ := List.mem_filterMap.mp hx
      obtain ⟨pre, st, post, c1, e1, he, h1, c2, e2, hst, hm⟩ := (mem_outputs h).mp hm
      have hshown : (p, Callback.onStreamStatsUpdate, stream) ∈ callbacks e2 :=
        List.mem_filterMap.mpr ⟨e, hm, hs⟩
      exact (hun pre st post c1 e1 ⟨he, h1⟩).2 p
        ((Sources.countsWanted_iff (step_sources hst)).mpr ⟨stream, hshown⟩)
  · intro hex pre st post c1 e1 hat
    obtain ⟨hquery, hcb⟩ := hex
    obtain ⟨rfl, h1⟩ := hat
    -- the step has its place in the run
    obtain ⟨c1', e1', e2, h1', hpost, rfl⟩ := run_split h
    obtain ⟨rfl, rfl⟩ := Prod.mk.inj (Option.some.inj (h1.symm.trans h1'))
    obtain ⟨c2, o1, o2, hst, -, rfl⟩ := exec_cons.mp hpost
    constructor
    · intro hsend hw
      obtain ⟨msg, hm, ht⟩ := (query_iff (run_numbered h1).live hst).mpr ⟨hsend, hw⟩
      refine hquery msg ?_ ht
      rw [mem_enqueued]
      simp [hm]
    · intro p hwant
      obtain ⟨stream, hm⟩ := (Sources.countsWanted_iff (step_sources hst)).mp hwant
      refine hcb (p, .onStreamStatsUpdate, stream) ?_ rfl
      rw [callbacks_append, callbacks_append]
      exact List.mem_append_right _ (List.mem_append_left _ hm)

/-- an object is marked by a sweep only -/
theorem marked_of_requested (h : S.run steps = some (c, effs)) {p : Ptr}
    (hr : (c.heap p).requestedCount = true) :
    S.Ever steps fun s i => ∃ p now, s.Marks i p now := by
  refine exec_inv (P := fun steps c _ => (c.heap p).requestedCount = true →
    S.Ever steps fun s i => ∃ p now, s.Marks i p now) (fun hr => ?_) ?_ h hr
  · -- the heap of a new client is blank
    have hheap : S.start.heap p = ({} : Sources).heap p :=
      congrArg (fun s => s.heap p) (start_sources (S := S))
    rw [hheap] at hr
    cases hr
  · intro steps c1 e1 st c2 e2 hx hP hst hr
    rw [Ever, sometime_concat hx]
    by_cases hm : ∃ now, c1.sources.Marks (st.input S.handler) p now
    · exact Or.inr ⟨p, hm⟩
    · exact Or.inl (hP (Sources.unmarked_step (not_exists.mp hm) (step_sources hst) hr))

/-- **A run whose sweeps mark no source is unasked.** -/
theorem unasked_of_unmarked (hn : ¬ S.Ever steps fun s i => ∃ p now, s.Marks i p now) :
    S.Unasked steps := by
  intro pre st post c1 e1 hat
  obtain ⟨rfl, h1⟩ := hat
  have hpre : ∀ p, ¬ (c1.heap p).requestedCount = true := fun p hr =>
    hn ((marked_of_requested h1 hr).append (st :: post))
  constructor
  · intro _ hw
    obtain ⟨k, p, rest, -, -, -, -, hr⟩ := hw
    exact hpre p hr
  · intro p hw
    obtain ⟨stats, -, -, hr, -⟩ := hw
    exact hpre p hr

/-- **The loop keeps what `configure` promises of the interval exactly if it is not zero, or no
counts are asked for and handed over.** -/
theorem interval_iff {t t' : Timers} {rounds : List Round}
    (h : exec (round S.handler) (t, S.start) rounds = some ((t', c), effs)) :
    S.IntervalKept (t.sweeps S.cfg.interval rounds) effs ↔
      S.cfg.updateIntervalSeconds ≠ 0 ∨ S.Unasked (t.steps S.cfg.interval rounds) := by
  rw [rounds_eq, start_interval] at h
  obtain ⟨x, hrun, hx⟩ := Option.map_eq_some_iff.mp h
  obtain ⟨hx1, rfl⟩ := Prod.mk.inj hx
  obtain ⟨-, rfl⟩ := Prod.mk.inj hx1
  have hun : S.Unasked (t.steps S.cfg.interval rounds) ↔ _ := unasked_iff hrun
  have hspaced : (t.sweeps S.cfg.interval rounds).Pairwise
      fun (a b : Time) => a + S.cfg.updateIntervalSeconds.toNat ≤ b := by
    refine (t.sweeps_spaced rounds).1.imp fun {a b} hab => le_trans ?_ hab
    exact add_le_add_right (Int.ofNat_le.mpr (interval_le S.cfg)) a
  constructor
  · intro hkept
    by_cases h0 : S.cfg.updateIntervalSeconds = 0
    · exact Or.inr (hun.mpr (hkept.off h0))
    · exact Or.inl h0
  · intro hor
    refine ⟨fun h0 => ?_, fun _ => hspaced⟩
    exact hun.mp (hor.resolve_left (absurd h0))

/-- a session for UDP that is configured with interval 0 -/
def sessionZero : Session :=
  { session3789 with cfg := { wantTcp := false, wantUdp := true, updateIntervalSeconds := 0 } }

/-- source 7 is added, asked for its description and described; its counts are asked for 30 seconds
later, and arrive -/
def describedThenIdle : List Round :=
  [⟨1, 1, 1, 24, [⟨1, 1, structs3789.addedMsg 7 4, 28⟩]⟩,
   ⟨1, 1, 1, 24, [⟨1, 1, structs3789.udpDescMsg 7 4 80 81, 248⟩]⟩,
   ⟨31, 31, 31, 24, [⟨31, 31, structs3789.countsMsg 7 5, 136⟩]⟩]

theorem not_off_describedThenIdle : ∃ l effs,
    exec (round sessionZero.handler) (⟨1, 1⟩, sessionZero.start) describedThenIdle =
      some (l, effs) ∧
    ¬ sessionZero.IntervalKept
      ((⟨1, 1⟩ : Timers).sweeps sessionZero.cfg.interval describedThenIdle) effs := by
  have hrun : (exec (round sessionZero.handler) (⟨1, 1⟩, sessionZero.start)
      describedThenIdle).map (fun x => ((enqueued x.2).map fun msg => hdrType (Mem.ofList msg),
        (callbacks x.2).map fun x => x.2.1)) =
      some ([.getSrcDesc, .querySrc], [.onStreamAdded, .onStreamStatsUpdate]) := by
    decide
  obtain ⟨⟨l, effs⟩, h, he⟩ := Option.map_eq_some_iff.mp hrun
  obtain ⟨hq, -⟩ := Prod.mk.inj he
  refine ⟨l, effs, h, fun hkept => ?_⟩
  obtain ⟨msg, hm, ht⟩ := List.mem_map.mp (hq ▸ by simp : MsgType.querySrc ∈
    (enqueued effs).map fun msg => hdrType (Mem.ofList msg))
  refine (hkept.off rfl).1 msg ?_ ht
  rw [enqueued_append]
  exact List.mem_append_right _ hm

/-- source 7 is announced and removed before the sweep, which does not mark it -/
def removedThenSwept : List Round :=
  [⟨1, 1, 1, 24, [⟨1, 1, structs3789.addedMsg 7 4, 28⟩]⟩,
   ⟨1, 1, 1, 24, [⟨1, 1, structs3789.udpDescMsg 7 4 80 81, 248⟩,
     ⟨2, 2, structs3789.removedMsg 7, 24⟩]⟩,
   ⟨31, 31, 31, 24, [⟨31, 31, structs3789.countsMsg 7 5, 136⟩]⟩]

theorem interval_removedThenSwept : ∃ t c effs,
    exec (round sessionZero.handler) (⟨1, 1⟩, sessionZero.start) removedThenSwept =
      some ((t, c), effs) ∧
    (⟨1, 1⟩ : Timers).sweeps sessionZero.cfg.interval removedThenSwept = [31] ∧
    (callbacks effs).map (fun x => x.2.1) = [.onStreamAdded, .onStreamRemoved] ∧
    sessionZero.IntervalKept
      ((⟨1, 1⟩ : Timers).sweeps sessionZero.cfg.interval removedThenSwept) effs ∧
    sessionZero.Unasked
      ((⟨1, 1⟩ : Timers).steps sessionZero.cfg.interval removedThenSwept) := by
  have hrun : (exec (round sessionZero.handler) (⟨1, 1⟩, sessionZero.start)
      removedThenSwept).map (fun x => ((enqueued (sessionZero.prologue ++ x.2)).map
        fun msg => hdrType (Mem.ofList msg), (callbacks x.2).map fun x => x.2.1)) =
      some ([.addAllSrcs, .getSrcDesc], [.onStreamAdded, .onStreamRemoved]) := by
    decide
  obtain ⟨⟨⟨t, c⟩, effs⟩, h, he⟩ := Option.map_eq_some_iff.mp hrun
  obtain ⟨hq, hcb⟩ := Prod.mk.inj he
  have hkept : sessionZero.IntervalKept
      ((⟨1, 1⟩ : Timers).sweeps sessionZero.cfg.interval removedThenSwept) effs := by
    refine ⟨fun _ => ⟨fun msg hm ht => ?_, fun x hx hs => ?_⟩, fun h0 => absurd h0 (by decide)⟩
    · have hmem := List.mem_map_of_mem (f := fun msg => hdrType (Mem.ofList msg)) hm
      rw [hq, ht] at hmem
      exact absurd hmem (by decide)
    · have hmem := List.mem_map_of_mem (f := fun x : Shown => x.2.1) hx
      rw [hcb, hs] at hmem
      exact absurd hmem (by decide)
  refine ⟨t, c, effs, h, by decide, hcb, hkept, ?_⟩
  exact ((interval_iff h).mp hkept).resolve_left fun h0 => h0 rfl

end Session

end Ntstat
