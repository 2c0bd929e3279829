import Ntstat.Laws.Announce
import Ntstat.Sources.History

/-!
# How often statistics are reported

* `NewlyMarks`        a sweep marks an object that was not marked;
* `rate_run`          from an object that is not marked and whose time is at least `t0`: it is
                      marked only by a sweep at least 15 seconds after `t0`;
* `stats_rate`        so two statistics updates of an object are at least 15 seconds apart with such
                      a sweep between them, and the first one is as far from its SRC_ADDED.
-/

namespace Ntstat
open Memory Machine

namespace Session
variable (S : Session)

/-- the step is an `_updateWaitForCountsQueue` at `now` that marks `p`, which was not marked -/
def NewlyMarks (p : Ptr) (now : Time) (c : Client) (st : Step) : Prop :=
  st = .updateWaitForCountsQueue now ∧ c.sources.Marks (st.input S.handler) p now ∧
    (c.heap p).requestedCount = false

variable {S} {steps mid : List Step} {c c1 : Client} {e : List Effect} {p : Ptr} {t0 : Time}

theorem rate_run (h0 : 0 < t0) (hp : p < c.next) (hbase : t0 ≤ c.sources.base p)
    (hq : (c.heap p).requestedCount = false)
    (hlate : ∀ t ∈ mid.filterMap Step.reading, t0 ≤ t)
    (h : exec S.step c mid = some (c1, e)) (hr : (c1.heap p).requestedCount = true) :
    ∃ now, t0 + 15 ≤ now ∧ Sometime S.step c mid fun _ => S.NewlyMarks p now := by
  refine (exec_inv (P := fun mid c1 _ => (∀ t ∈ mid.filterMap Step.reading, t0 ≤ t) →
    p < c1.next ∧ t0 ≤ c1.sources.base p ∧ ((c1.heap p).requestedCount = true → ∃ now,
      t0 + 15 ≤ now ∧ Sometime S.step c mid fun _ => S.NewlyMarks p now)) ?_ ?_ h hlate).2.2 hr
  · exact fun _ => ⟨hp, hbase, fun hr => by rw [hq] at hr; cases hr⟩
  · intro mid c1 e1 st c2 e2 hx hP hst hlate
    rw [List.filterMap_append] at hlate
    obtain ⟨hp1, hb1, hm1⟩ := hP fun t ht => hlate t (List.mem_append_left _ ht)
    have hs := step_sources hst
    have hp2 : p < c2.next := lt_of_lt_of_le hp1 (Sources.next_step hs)
    rcases Sources.base_step hp1 hs with hb | ⟨now, read, hh⟩
    · refine ⟨hp2, hb ▸ hb1, fun hr => ?_⟩
      by_cases hold : (c1.heap p).requestedCount = true
      · obtain ⟨now, hnow, hsome⟩ := hm1 hold
        exact ⟨now, hnow, hsome.append [st]⟩
      · -- the flag was set by this step
        have hex : ∃ now, c1.sources.Marks (st.input S.handler) p now := by
          by_contra hn
          exact hold (Sources.unmarked_step (not_exists.mp hn) hs hr)
        obtain ⟨now, hmark⟩ := hex
        refine ⟨now, ?_, (sometime_concat hx).mpr (Or.inr ⟨sweep_of_input hmark.1, hmark, ?_⟩)⟩
        · exact le_trans (add_le_add_left hb1 15) (Sources.base_of_wantsCount hmark.2.2)
        · simpa using hold
    · have hread := reading_of_counts hh
      have ht0 : t0 ≤ now := hlate now (by simp [hread])
      refine ⟨hp2, ?_, fun hr' => ?_⟩
      · rw [Sources.base_of_counts (lt_of_lt_of_le h0 ht0) hh hs]
        exact ht0
      · exact absurd ((Sources.counts_step hh hs).2.symm.trans hr') Bool.false_ne_true

/-- the time between two steps, of which the first leaves an object that is not marked and whose
time is its own reading, and the second finds the object marked -/
theorem marked_between {pre : List Step} {st st' : Step} {c1 c2 c3 c4 : Client}
    {e e' : List Effect} {t t' : Time} (hclock : Clocked steps) (h : S.Takes steps pre st c1 c2 e)
    (h' : S.Takes steps (pre ++ st :: mid) st' c3 c4 e') (ht : st.reading = some t)
    (ht' : st'.reading = some t') (hp : p < c2.next) (hbase : c2.sources.base p = t)
    (hq : (c2.heap p).requestedCount = false) (hr : (c3.heap p).requestedCount = true) :
    t + 15 ≤ t' ∧ ∃ now, Sometime S.step c2 mid fun _ => S.NewlyMarks p now := by
  obtain ⟨⟨o, hmid⟩, post, rfl⟩ := h.between h'
  obtain ⟨h0, hlate, hup⟩ := hclock.between ht
  obtain ⟨now, hnow, hsome⟩ := rate_run h0 hp (le_of_eq hbase.symm) hq hlate hmid hr
  refine ⟨le_trans hnow ((hup t' ht').2 now ?_), now, hsome⟩
  obtain ⟨m1, i, m2, s1, o1, rfl, -, hmark, -⟩ := hsome
  simp [hmark, Step.reading]

/-- **Statistics updates of an object come one in a step, 15 seconds apart, with a sweep between
them that marks it, and the first one comes 15 seconds after its SRC_ADDED.** -/
theorem stats_rate {pre : List Step} {st st' : Step} {c1 c2 c3 c4 : Client} {e e' : List Effect}
    {stream' : NTStatStream} (hclock : Clocked steps) (h : S.Takes steps pre st c1 c2 e)
    (h' : S.Takes steps (pre ++ st :: mid) st' c3 c4 e')
    (hs' : (p, .onStreamStatsUpdate, stream') ∈ callbacks e') :
    callbacks e' = [(p, .onStreamStatsUpdate, stream')] ∧
    (∀ stream, (p, .onStreamStatsUpdate, stream) ∈ callbacks e → ∃ t t', st.reading = some t ∧
      st'.reading = some t' ∧ t + 15 ≤ t' ∧
      ∃ now, Sometime S.step c2 mid fun _ => S.NewlyMarks p now) ∧
    (∀ t r, c1.sources.Creates (st.input S.handler) p t r →
      ∃ t', st'.reading = some t' ∧ t + 15 ≤ t') := by
  obtain ⟨_, ⟨t', read', hh', -⟩, _, hr', -⟩ := (Sources.shown_stats (step_sources h'.step)).mp hs'
  have ht' := reading_of_counts hh'
  have honly : callbacks e' = [(p, .onStreamStatsUpdate, stream')] := by
    rcases Sources.shown_cases (step_sources h'.step) with he | ⟨q, cb, stream, he⟩
    · rw [he] at hs'
      cases hs'
    · rw [he] at hs' ⊢
      rw [List.mem_singleton.mp hs']
  refine ⟨honly, ?_, ?_⟩
  · intro stream hs
    obtain ⟨_, ⟨t, read, hh, -⟩, -⟩ := (Sources.shown_stats (step_sources h.step)).mp hs
    obtain ⟨e1, h1⟩ := h.reached
    have hp : p < c1.next := by
      obtain ⟨r, -, hm⟩ := hh
      exact (session_life h1).1.lt_next hm
    have hst := step_sources h.step
    have ht := reading_of_counts hh
    have h0 : 0 < t := by
      obtain ⟨post, rfl⟩ := h.split
      exact hclock.positive t (by simp [ht])
    obtain ⟨h15, hmark⟩ := marked_between hclock h h' ht ht'
      (lt_of_lt_of_le hp (Sources.next_step hst)) (Sources.base_of_counts h0 hh hst)
      (Sources.counts_step hh hst).2 hr'
    exact ⟨t, t', ht, ht', h15, hmark⟩
  · intro t r hc
    obtain ⟨hp, prov, hfresh⟩ := Sources.creates_step hc (step_sources h.step)
    obtain ⟨_, hi, -⟩ := hc
    have hbase : c2.sources.base p = t := by
      unfold Sources.base
      rw [hfresh]
      rfl
    have hq : (c2.sources.heap p).requestedCount = false := by
      rw [hfresh]
      rfl
    exact ⟨t', ht', (marked_between hclock h h' (reading_of_added hi) ht' hp hbase hq hr').1⟩

/-- a UDP source that is counted twice -/
def countedTwice : List Step :=
  [.readNextMessage 1 1 (structs3789.addedMsg 7 4) 28,
   .readNextMessage 2 2 (structs3789.udpDescMsg 7 4 80 81) 248,
   .updateWaitForCountsQueue 20,
   .readNextMessage 21 21 (structs3789.countsMsg 7 5) 144,
   .updateWaitForCountsQueue 40,
   .readNextMessage 41 41 (structs3789.countsMsg 7 6) 144]

theorem stats_rate_countedTwice : ∃ c1 c2 c3 c4 e e' stream stream',
    session3789.Takes countedTwice (countedTwice.take 3)
      (.readNextMessage 21 21 (structs3789.countsMsg 7 5) 144) c1 c2 e ∧
    session3789.Takes countedTwice (countedTwice.take 5)
      (.readNextMessage 41 41 (structs3789.countsMsg 7 6) 144) c3 c4 e' ∧
    callbacks e = [(0, .onStreamStatsUpdate, stream)] ∧
    callbacks e' = [(0, .onStreamStatsUpdate, stream')] ∧
    ∃ t t', (Step.readNextMessage 21 21 (structs3789.countsMsg 7 5) 144).reading = some t ∧
      (Step.readNextMessage 41 41 (structs3789.countsMsg 7 6) 144).reading = some t' ∧
      t + 15 ≤ t' ∧ ∃ now, Sometime session3789.step c2 [.updateWaitForCountsQueue 40] fun _ =>
        session3789.NewlyMarks 0 now := by
  have hrun : ((session3789.run (countedTwice.take 3)).bind fun x =>
      (session3789.step x.1 (.readNextMessage 21 21 (structs3789.countsMsg 7 5) 144)).bind fun y =>
        (exec session3789.step y.1 [.updateWaitForCountsQueue 40]).bind fun z =>
          (session3789.step z.1 (.readNextMessage 41 41 (structs3789.countsMsg 7 6) 144)).map
            fun w => ((callbacks y.2).map fun u => (u.1, u.2.1),
              (callbacks w.2).map fun u => (u.1, u.2.1))) =
        some ([(0, .onStreamStatsUpdate)], [(0, .onStreamStatsUpdate)]) := by decide
  obtain ⟨⟨c1, e1⟩, h1, hrun⟩ := Option.bind_eq_some_iff.mp hrun
  obtain ⟨⟨c2, e⟩, h2, hrun⟩ := Option.bind_eq_some_iff.mp hrun
  obtain ⟨⟨c3, e3⟩, h3, hrun⟩ := Option.bind_eq_some_iff.mp hrun
  obtain ⟨⟨c4, e'⟩, h4, hrun⟩ := Option.map_eq_some_iff.mp hrun
  obtain ⟨hs, hs'⟩ := Prod.mk.inj hrun
  obtain ⟨stream, he⟩ := shown_singleton hs
  obtain ⟨stream', he'⟩ := shown_singleton hs'
  have hclock : Clocked countedTwice := ⟨by unfold Positive; decide, by decide⟩
  have ht : session3789.Takes countedTwice (countedTwice.take 3) _ c1 c2 e :=
    ⟨⟨_, rfl⟩, ⟨e1, h1⟩, h2⟩
  have ht' : session3789.Takes countedTwice (countedTwice.take 5) _ c3 c4 e' :=
    ⟨⟨[], rfl⟩, ⟨_, exec_append.mpr ⟨c1, e1, _, h1, exec_cons.mpr ⟨c2, e, e3, h2, h3, rfl⟩, rfl⟩⟩,
      h4⟩
  have hm' : (0, Callback.onStreamStatsUpdate, stream') ∈ callbacks e' := by simp [he']
  exact ⟨c1, c2, c3, c4, e, e', stream, stream', ht, ht', he, he',
    (stats_rate hclock ht ht' hm').2.1 stream (by simp [he])⟩

end Session

end Ntstat
