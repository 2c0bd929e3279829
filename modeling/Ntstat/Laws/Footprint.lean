import Ntstat.Laws.Service

/-!
# What a session holds on to

* `Timers.readings`   what the loop reads from the clock, in order;
* `Fresh`, `fresh_step`   the removed sources in the map are those of the time since a reading;
* `removed_retained`  so no source that was removed more than 90 seconds ago is in the map;
* `footprint`         the queue, the waiting sources and the filed requests are bounded.
-/

namespace Ntstat
open Memory Machine Std

/-- what a step reads from the clock itself -/
def Step.clock : Step → Option Time
  | readNextMessage now _ _ n => if n ≤ 0 then none else some now
  | removeOldSources now => some now
  | _ => none

/-- what some rounds read from the clock -/
def Timers.readings (interval : UInt32) (t : Timers) : List Round → List Time
  | [] => []
  | r :: rs => r.now :: (t.roundSteps interval r).filterMap Step.clock ++
      (t.tick interval r).readings interval rs

theorem Timers.readings_cons (interval : UInt32) (t : Timers) (r : Round) (rs : List Round) :
    t.readings interval (r :: rs) =
      t.readings interval [r] ++ (t.tick interval r).readings interval rs := by
  show _ = r.now :: (_ ++ []) ++ _
  rw [List.append_nil]
  rfl

/-- the last cleanup was at most 60 seconds before the round, and at a time that was read -/
theorem Timers.tick_cleanup (interval : UInt32) (t : Timers) (r : Round) :
    r.now ≤ (t.tick interval r).tLastCleanup + cleanupSourceListSeconds ∧
      (t.tick interval r).tLastCleanup ∈ t.tLastCleanup :: t.readings interval [r] := by
  unfold tick
  dsimp only
  by_cases hdue : t.CleanupDue r
  · rw [if_pos hdue]
    exact ⟨Int.le_add_of_nonneg_right (by decide), List.mem_cons_of_mem _ List.mem_cons_self⟩
  · rw [if_neg hdue]
    exact ⟨sub_le_iff_le_add'.mp (Int.not_lt.mp hdue), List.mem_cons_self⟩

/-- every removed source in the map was removed in the 30 seconds before `t0` or later -/
def Fresh (t0 : Time) (s : Sources) : Prop :=
  ∀ (k : UInt64) p, s.map k = some p → 0 < (s.heap p).tsRemoved →
    t0 ≤ (s.heap p).tsRemoved + NetstatSource.removedSourceKeepSeconds

namespace Session
variable {S : Session} {steps : List Step} {c c' : Client} {effs effs' : List Effect} {st : Step}
  {t0 : Time}

theorem clock_of_removed {p : Ptr} {now : Time}
    (hh : c.sources.Handles (st.input S.handler) p (.removed now)) : st.clock = some now := by
  obtain ⟨r, hi, -⟩ := hh
  obtain ⟨now', _, _, n, rfl, hn, -, hcases⟩ := message_of_input hi
  rcases hcases with ⟨_, he⟩ | ⟨_, he⟩ | ⟨_, he⟩
  · obtain rfl := SrcEvent.removed.inj he
    exact if_neg (Int.not_le.mpr hn)
  · cases he
  · cases he

/-- **A step that reads no earlier time keeps the removed sources fresh.** -/
theorem fresh_step (hc : c.sources.Coherent) (h : Fresh t0 c.sources)
    (hlate : ∀ x, st.clock = some x → t0 ≤ x) (hst : S.step c st = some (c', effs')) :
    Fresh t0 c'.sources := by
  have hs := step_sources hst
  intro k p hm h0
  by_cases hr : c.sources.Removes (st.input S.handler) p
  · obtain ⟨now, hh⟩ := hr
    have hnow : (c'.sources.heap p).tsRemoved = now := by
      have ha := Sources.step_act hs p
      rw [Sources.act_event.mpr hh] at ha
      exact congrArg NetstatSource.tsRemoved (Prod.mk.inj (Option.some.inj ha)).1.symm
    have hle := hlate now (clock_of_removed hh)
    rw [hnow]
    exact Int.le_trans hle (Int.le_add_of_nonneg_right (by decide))
  · rw [Sources.tsRemoved_step hc hs p hr] at h0 ⊢
    rcases Sources.map_step hs hm with hm | ⟨rfl, -⟩
    · exact h k p hm h0
    · -- a new source is not removed
      rw [hc.blank (Nat.le_refl _)] at h0
      exact absurd h0 (Int.lt_irrefl 0)

/-- the cleanup takes the others out -/
theorem fresh_evict {now : Time} (hnow : t0 ≤ now)
    (hst : S.step c (.removeOldSources now) = some (c', effs')) : Fresh t0 c'.sources := by
  have he : c.sources.dropExpired now = c'.sources :=
    (Prod.mk.inj (Option.some.inj (step_sources hst))).1
  rw [← he]
  intro k p hm h0
  obtain ⟨-, hx⟩ := Option.filter_eq_some_iff.mp hm
  have hx : (c.sources.heap p).expired now = false := by simpa using hx
  unfold NetstatSource.expired at hx
  have h0' : (c.sources.heap p).tsRemoved > 0 := h0
  simp only [h0', decide_true, Bool.true_and, decide_eq_false_iff_not] at hx
  exact Int.le_trans hnow (sub_le_iff_le_add'.mp (Int.not_lt.mp hx))

theorem fresh_run (hc : c.sources.Coherent) (h : Fresh t0 c.sources)
    (hlate : ∀ x ∈ steps.filterMap Step.clock, t0 ≤ x)
    (hx : exec S.step c steps = some (c', effs')) : c'.sources.Coherent ∧ Fresh t0 c'.sources := by
  refine exec_inv (P := fun steps c' _ => (∀ x ∈ steps.filterMap Step.clock, t0 ≤ x) →
    c'.sources.Coherent ∧ Fresh t0 c'.sources) (fun _ => ⟨hc, h⟩) ?_ hx hlate
  intro steps c1 e1 st c2 e2 _ hP hst hlate
  rw [List.filterMap_append] at hlate
  obtain ⟨hc1, h1⟩ := hP fun x hm => hlate x (List.mem_append_left _ hm)
  refine ⟨Sources.step_coherent hc1 (input_lawful S.version.lawful st) (step_sources hst), ?_⟩
  refine fresh_step hc1 h1 (fun x hm => hlate x (List.mem_append_right _ ?_)) hst
  exact List.mem_filterMap.mpr ⟨st, List.mem_singleton.mpr rfl, hm⟩

/-! ## the loop -/

variable {t t' : Timers} {rounds : List Round} {r : Round}

theorem tick_of_round (hx : round S.handler (t, c) r = some ((t', c'), effs')) :
    t.tick c.updateIntervalSeconds r = t' ∧
      c'.updateIntervalSeconds = c.updateIntervalSeconds := by
  rw [round_eq] at hx
  obtain ⟨⟨c1, e1⟩, hrun, he⟩ := Option.map_eq_some_iff.mp hx
  obtain ⟨he, -⟩ := Prod.mk.inj he
  obtain ⟨rfl, rfl⟩ := Prod.mk.inj he
  exact ⟨rfl, exec_interval hrun⟩

/-- after a round, the removed sources are fresh as of the last cleanup -/
theorem fresh_round (hc : c.sources.Coherent) (h : Fresh t.tLastCleanup c.sources)
    (hclock : (t.tLastCleanup :: t.readings c.updateIntervalSeconds [r]).Pairwise (· ≤ ·))
    (hx : round S.handler (t, c) r = some ((t', c'), effs')) :
    c'.sources.Coherent ∧ Fresh t'.tLastCleanup c'.sources := by
  rw [round_eq] at hx
  obtain ⟨⟨c1, e1⟩, hrun, he⟩ := Option.map_eq_some_iff.mp hx
  obtain ⟨he, -⟩ := Prod.mk.inj he
  obtain ⟨rfl, rfl⟩ := Prod.mk.inj he
  obtain ⟨hfirst, hclock⟩ := List.pairwise_cons.mp hclock
  have hread : ∀ y ∈ (t.roundSteps c.updateIntervalSeconds r).filterMap Step.clock,
      r.now ≤ y ∧ t.tLastCleanup ≤ y := by
    intro y hy
    have hy' : y ∈ (t.roundSteps c.updateIntervalSeconds r).filterMap Step.clock ++ [] :=
      List.mem_append_left _ hy
    exact ⟨(List.pairwise_cons.mp hclock).1 y hy', hfirst y (List.mem_cons_of_mem _ hy')⟩
  unfold Timers.tick
  dsimp only
  by_cases hdue : t.CleanupDue r
  · rw [if_pos hdue]
    unfold Timers.roundSteps at hread hrun
    rw [if_pos hdue, List.append_assoc, List.singleton_append] at hread hrun
    obtain ⟨c2, e2, e3, h2, h3, -⟩ := exec_cons.mp hrun
    have hc2 := Sources.step_coherent hc (input_lawful S.version.lawful _) (step_sources h2)
    have hnow : r.now ≤ r.removeNow := (hread r.removeNow List.mem_cons_self).1
    exact fresh_run hc2 (fresh_evict hnow h2)
      (fun y hy => (hread y (List.mem_cons_of_mem _ hy)).1) h3
  · rw [if_neg hdue]
    exact fresh_run hc h (fun y hy => (hread y hy).2) hrun

/-- after some rounds too, and the last round was at most 60 seconds after the cleanup -/
theorem fresh_rounds (hc : c.sources.Coherent) (h : Fresh t.tLastCleanup c.sources)
    (hclock : (t.tLastCleanup :: t.readings c.updateIntervalSeconds rounds).Pairwise (· ≤ ·))
    (hx : exec (round S.handler) (t, c) rounds = some ((t', c'), effs')) :
    Fresh t'.tLastCleanup c'.sources ∧ ∀ r ∈ rounds.getLast?,
      r.now ≤ t'.tLastCleanup + cleanupSourceListSeconds := by
  induction rounds generalizing t c effs' with
  | nil =>
    obtain ⟨he, -⟩ := Prod.mk.inj (Option.some.inj hx)
    obtain ⟨rfl, rfl⟩ := Prod.mk.inj he
    exact ⟨h, fun r hr => by cases hr⟩
  | cons r rounds ih =>
    obtain ⟨⟨t1, c1⟩, e1, e2, h1, h2, rfl⟩ := exec_cons.mp hx
    obtain ⟨rfl, hi⟩ := tick_of_round h1
    rw [Timers.readings_cons, ← List.cons_append] at hclock
    obtain ⟨hclock1, hclock2, hcross⟩ := List.pairwise_append.mp hclock
    obtain ⟨hc1, hf1⟩ := fresh_round hc h hclock1 h1
    obtain ⟨hlast, hmem⟩ := Timers.tick_cleanup c.updateIntervalSeconds t r
    obtain ⟨hf, hl⟩ := ih hc1 hf1 (by
      rw [hi]
      exact List.pairwise_cons.mpr ⟨hcross _ hmem, hclock2⟩) h2
    refine ⟨hf, fun q hq => ?_⟩
    cases rounds with
    | nil =>
      obtain ⟨he, -⟩ := Prod.mk.inj (Option.some.inj h2)
      obtain ⟨rfl, -⟩ := Prod.mk.inj he
      obtain rfl := Option.some.inj hq
      exact hlast
    | cons r' rounds =>
      rw [List.getLast?_cons_cons] at hq
      exact hl q hq

/-- **No source that was removed more than 90 seconds ago is in the map.** -/
theorem removed_retained
    (hx : exec (round S.handler) (t, S.start) (rounds ++ [r]) = some ((t', c), effs))
    (hclock : (t.tLastCleanup :: t.readings S.cfg.interval (rounds ++ [r])).Pairwise (· ≤ ·))
    {k : UInt64} {p : Ptr} (hm : c.map[k]? = some p) (h0 : 0 < (c.heap p).tsRemoved) :
    r.now ≤ (c.heap p).tsRemoved + 90 := by
  have hstart : S.start.sources.Coherent ∧ Fresh t.tLastCleanup S.start.sources := by
    rw [start_sources]
    exact ⟨Sources.coherent_init, fun k p hm => by cases hm⟩
  rw [← start_interval] at hclock
  obtain ⟨hf, hlast⟩ := fresh_rounds hstart.1 hstart.2 hclock hx
  have h1 := hlast r (by rw [List.getLast?_concat]; exact rfl)
  have h2 := hf k p hm h0
  have h90 : (c.heap p).tsRemoved + 90 = (c.heap p).tsRemoved +
      NetstatSource.removedSourceKeepSeconds + cleanupSourceListSeconds :=
    (Int.add_assoc (c.heap p).tsRemoved 30 60).symm
  rw [h90]
  exact Int.le_trans h1 (Int.add_le_add_right h2 _)

/-! ## the queues and the maps -/

/-- a request is filed under a 16-bit context -/
def ShortContexts (c : Client) : Prop :=
  ∀ k : UInt64, c.qmsgMap[k]?.isSome → k.toNat < 65536

theorem shortContexts_send (h : S.run steps = some (c, effs)) (hP : ShortContexts c)
    {timestamp : UInt32} {rc : Int}
    (hst : S.step c (.sendNextMsg timestamp rc) = some (c', effs')) : ShortContexts c' := by
  intro k hk
  have hq := run_queued h
  have hq' := run_queued (run_concat h hst)
  have hfiled := Client.sendNextMsg_filed (v := S.version) hq timestamp rc
  rw [show c.sendNextMsg S.version.handler timestamp rc = (c', effs') from Option.some.inj hst]
    at hfiled
  rcases hfiled with ⟨-, hmap⟩ | ⟨qm, hw, hctx, hmap⟩
  · dsimp only at hmap
    rw [hmap] at hk
    exact hP k hk
  · dsimp only at hmap hw
    rw [hmap, ExtTreeMap.getElem?_insert] at hk
    by_cases he : qm.seqnum = k
    · -- the request has its place as context
      have hmem : qm.msgbytes ∈ enqueued (S.prologue ++ (effs ++ effs')) := by
        rw [hq'.order, ← List.append_assoc, written_append, hw]
        exact List.mem_append_left _ (List.mem_append_right _ List.mem_cons_self)
      obtain ⟨n, hn⟩ := List.mem_iff_getElem?.mp hmem
      rw [← he, hctx, (hq'.inPlace n _ hn).context, UInt16.toNat_toUInt64]
      exact UInt16.toNat_lt _
    · rw [if_neg (by simp [he])] at hk
      exact hP k hk

theorem shortContexts_step (h : S.run steps = some (c, effs)) (hP : ShortContexts c)
    (hst : S.step c st = some (c', effs')) : ShortContexts c' := by
  cases turn_of_step hst with
  | nothing hn => exact hP
  | message hn hx =>
    intro k hk
    rw [Client.handleResponseMessage_qmsgMap hx] at hk
    split at hk
    · cases hk
    · exact hP k hk
  | updateWaitForCountsQueue now =>
    obtain ⟨_, _, he⟩ := c.updateWaitForCountsQueue_changes now
    rw [he]
    exact hP
  | removeOldSources now => exact hP
  | sendNextMsg timestamp rc => exact shortContexts_send h hP hst

theorem run_shortContexts (h : S.run steps = some (c, effs)) : ShortContexts c := by
  refine exec_inv (P := fun _ c _ => ShortContexts c) ?_
    (fun _ _ _ _ _ _ hx hP hst => shortContexts_step hx hP hst) h
  obtain ⟨_, _, _, ⟨_, _, _, _, _, _, he, -⟩, -⟩ := Client.live_resubscribed S.handler S.cfg S.fd
  have hstart : S.start = _ := he
  rw [hstart]
  intro k hk
  have hempty : (∅ : ExtTreeMap UInt64 QMsg)[k]? = none := ExtTreeMap.getElem?_empty
  have hk : (∅ : ExtTreeMap UInt64 QMsg)[k]?.isSome := hk
  rw [hempty] at hk
  cases hk

/-- what a session holds on to besides the sources -/
structure Footprint (c : Client) : Prop where
  outq : c.outq.length ≤ 2
  desc : c.mapWaitingForDesc.size ≤ c.map.size
  filed : c.qmsgMap.size ≤ 65536

/-- **In every state of a run the queue, the wait for descriptions and the filed requests are
bounded.** -/
theorem footprint (h : S.Reached c) : Footprint c := by
  have hsub := h.subscribing_le
  obtain ⟨steps, effs, h, hpos⟩ := h
  refine ⟨Nat.le_trans (Nat.le_add_right _ _) hsub, ?_, ?_⟩
  · refine size_le [] fun x hx => Or.inl ?_
    obtain ⟨p, hp⟩ := Option.isSome_iff_exists.mp hx
    exact Option.isSome_iff_exists.mpr ⟨p, ((run_pending h hpos).desc x p hp).1⟩
  · have hle : c.qmsgMap.size ≤ (∅ : ExtTreeMap UInt64 QMsg).size +
        ((List.range 65536).map UInt64.ofNat).length := by
      refine size_le _ fun x hx => Or.inr ?_
      have hlt := run_shortContexts h x hx
      exact List.mem_map.mpr ⟨x.toNat, List.mem_range.mpr hlt, UInt64.ofNat_toNat⟩
    rwa [ExtTreeMap.size_empty, Nat.zero_add, List.length_map, List.length_range] at hle

/-- source 7 is removed after a cleanup, which the next one comes too early to take out -/
def removedBetween : List Round :=
  [⟨1, 1, 1, 24, [⟨1, 1, structs3789.addedMsg 7 4, 28⟩]⟩,
   ⟨62, 62, 62, 24, []⟩,
   ⟨95, 95, 95, 24, [⟨100, 100, structs3789.removedMsg 7, 24⟩]⟩]

theorem removed_retained_between : ∃ t' c effs,
    exec (round session3789.handler) (⟨1, 1⟩, session3789.start)
      (removedBetween ++ [⟨123, 124, 124, 24, []⟩]) = some ((t', c), effs) ∧
    c.map[(7 : UInt64)]? = some 0 ∧ 0 < (c.heap 0).tsRemoved ∧
    123 ≤ (c.heap 0).tsRemoved + 90 := by
  have hrun : (exec (round session3789.handler) (⟨1, 1⟩, session3789.start)
      (removedBetween ++ [⟨123, 124, 124, 24, []⟩])).map (fun x =>
        (x.1.2.map[(7 : UInt64)]?, decide (0 < (x.1.2.heap 0).tsRemoved))) =
          some (some 0, true) := by decide +kernel
  obtain ⟨⟨⟨t', c⟩, effs⟩, h, he⟩ := Option.map_eq_some_iff.mp hrun
  obtain ⟨hm, h0⟩ := Prod.mk.inj he
  have h0 := of_decide_eq_true h0
  exact ⟨t', c, effs, h, hm, h0, removed_retained h (by decide) hm h0⟩

theorem footprint_bothWait : ∃ c effs, session3789.run bothWait = some (c, effs) ∧
    Footprint c := by
  obtain ⟨⟨c, effs⟩, h⟩ := Option.isSome_iff_exists.mp
    (show (session3789.run bothWait).isSome = true by decide)
  exact ⟨c, effs, h, footprint ⟨_, _, h, by unfold Positive; decide⟩⟩

end Session

end Ntstat
