import Ntstat.Sources.Lifecycle
import Ntstat.Sources.Refine

/-!
# Live sessions

A `Session` is a kernel, what the application configured, and an open control socket.  Its runs
are the runs of the loop of `run` by a newly constructed client, with any messages, clock readings
and results of system calls.

* `message_of_input` and its companions   which steps are decoded to what;
* `Positive`, `Clocked`         what is assumed of the readings of the clock;
* `Session.run`, `Session.At`   the run of some steps, and a step of it;
* `callbacks`                   what the listener is told;
* `run_sources`, `ever_iff`     the same run and the same history of the source tracker;
* `session_life`                what a run tells of every source object.
-/

namespace Ntstat
open Memory Machine

/-! ## what a message is decoded to -/

theorem removes_iff {H : NTStatKernelStructHandler} {c : Client} {now : Time} {timestamp : UInt32}
    {buf : Mem} {n : Int} {p : Ptr} :
    c.sources.Removes ((Step.readNextMessage now timestamp buf n).input H) p ↔
      0 < n ∧ hdrType buf = .srcRemoved ∧
        c.map[(H.getSrcRef buf n.toNat (0, 0)).1]? = some p := by
  unfold Sources.Removes Sources.Handles Step.input
  dsimp only
  split
  · next hn => simp [show ¬ 0 < n by omega]
  · next hn =>
    unfold messageInput
    dsimp only
    have hpos : 0 < n := by omega
    cases hdrType buf <;> simp [hpos, Client.map_sources]

/-- the steps that are decoded to a message about a source -/
theorem message_of_input {H : NTStatKernelStructHandler} {st : Step} {r : UInt64} {e : SrcEvent}
    (h : st.input H = .message r e) : ∃ now timestamp buf n,
      st = .readNextMessage now timestamp buf n ∧ 0 < n ∧
      r = (H.getSrcRef buf n.toNat (0, 0)).1 ∧
      (hdrType buf = .srcRemoved ∧ e = .removed now ∨
        hdrType buf = .srcDesc ∧ e = .desc (H.readSrcDesc buf n.toNat) ∨
        hdrType buf = .srcCounts ∧ e = .counts now (H.readCounts buf n.toNat)) := by
  cases st with
  | readNextMessage now timestamp buf n =>
    unfold Step.input at h
    dsimp only at h
    split at h
    · cases h
    · next hn =>
      refine ⟨now, timestamp, buf, n, rfl, by omega, ?_⟩
      unfold messageInput at h
      dsimp only at h
      cases ht : hdrType buf <;> rw [ht] at h <;> cases h <;> simp
  | _ => cases h

theorem added_of_input {H : NTStatKernelStructHandler} {st : Step} {now : Time} {r : UInt64}
    {prov : UInt32} (h : st.input H = .added now r prov) : ∃ timestamp buf n,
      st = .readNextMessage now timestamp buf n ∧ 0 < n ∧ hdrType buf = .srcAdded ∧
      H.getSrcRef buf n.toNat (0, 0) = (r, prov) := by
  cases st with
  | readNextMessage now' timestamp buf n =>
    unfold Step.input at h
    dsimp only at h
    split at h
    · cases h
    · next hn =>
      unfold messageInput at h
      dsimp only at h
      cases ht : hdrType buf <;> rw [ht] at h <;> cases h
      exact ⟨timestamp, buf, n, rfl, by omega, ht, rfl⟩
  | _ => cases h

theorem sweep_of_input {H : NTStatKernelStructHandler} {st : Step} {now : Time}
    (h : st.input H = .requestCounts now) : st = .updateWaitForCountsQueue now := by
  cases st with
  | readNextMessage now' timestamp buf n =>
    unfold Step.input at h
    dsimp only at h
    split at h
    · cases h
    · unfold messageInput at h
      dsimp only at h
      split at h <;> cases h
  | updateWaitForCountsQueue now' =>
    obtain rfl := Input.requestCounts.inj h
    rfl
  | _ => cases h

/-- a message that is handled for `p` names `p` by its reference -/
theorem handles_map {H : NTStatKernelStructHandler} {c : Client} {now : Time} {timestamp : UInt32}
    {buf : Mem} {n : Int} {p : Ptr} {e : SrcEvent}
    (h : c.sources.Handles ((Step.readNextMessage now timestamp buf n).input H) p e) :
    c.map[(H.getSrcRef buf n.toNat (0, 0)).1]? = some p := by
  obtain ⟨r, hi, hm⟩ := h
  obtain ⟨_, _, _, _, he, _, hr, _⟩ := message_of_input hi
  obtain ⟨rfl, rfl, rfl, rfl⟩ := Step.readNextMessage.inj he
  exact hr ▸ hm

/-! ## the clock -/

/-- the reading that a step takes the time of a source from or compares it with; the eviction reads
the clock for itself -/
def Step.reading : Step → Option Time
  | readNextMessage now _ _ n => if n ≤ 0 then none else some now
  | updateWaitForCountsQueue now => some now
  | _ => none

/-- the readings are positive -/
def Positive (steps : List Step) : Prop := ∀ t ∈ steps.filterMap Step.reading, 0 < t

theorem positive_iff {steps : List Step} :
    Positive steps ↔ ∀ st ∈ steps, ∀ t, st.reading = some t → 0 < t := by
  unfold Positive
  simp only [List.mem_filterMap, forall_exists_index, and_imp]
  exact ⟨fun h st hst t ht => h t st hst ht, fun h t st hst ht => h st hst t ht⟩

/-- the readings are positive and do not decrease -/
structure Clocked (steps : List Step) : Prop where
  positive : Positive steps
  sorted : (steps.filterMap Step.reading).Pairwise (· ≤ ·)

/-- the readings of the steps between two others -/
theorem Clocked.between {pre mid post : List Step} {st st' : Step} {t : Time}
    (h : Clocked (pre ++ st :: mid ++ st' :: post)) (ht : st.reading = some t) :
    0 < t ∧ (∀ x ∈ mid.filterMap Step.reading, t ≤ x) ∧ ∀ t', st'.reading = some t' →
      t ≤ t' ∧ ∀ x ∈ mid.filterMap Step.reading, x ≤ t' := by
  obtain ⟨hpos, hsort⟩ := h
  unfold Positive at hpos
  simp only [List.filterMap_append, List.filterMap_cons, ht] at hpos hsort
  obtain ⟨h1, h2, h3⟩ := List.pairwise_append.mp hsort
  obtain ⟨-, h4, -⟩ := List.pairwise_append.mp h1
  refine ⟨hpos t (by simp), (List.pairwise_cons.mp h4).1, fun t' ht' => ?_⟩
  rw [ht'] at h3
  exact ⟨h3 t (by simp) t' (by simp), fun x hx => h3 x (by simp [hx]) t' (by simp)⟩

theorem reading_of_counts {H : NTStatKernelStructHandler} {c : Client} {st : Step} {p : Ptr}
    {now : Time} {read : NTStatCounters → NTStatCounters}
    (h : c.sources.Handles (st.input H) p (.counts now read)) : st.reading = some now := by
  obtain ⟨r, hi, _⟩ := h
  obtain ⟨now', _, _, n, rfl, hn, _, hcases⟩ := message_of_input hi
  rcases hcases with ⟨_, he⟩ | ⟨_, he⟩ | ⟨_, he⟩
  · cases he
  · cases he
  · obtain ⟨rfl, -⟩ := SrcEvent.counts.inj he
    exact if_neg (by omega)

theorem reading_of_removed {H : NTStatKernelStructHandler} {c : Client} {st : Step} {p : Ptr}
    {now : Time} (h : c.sources.Handles (st.input H) p (.removed now)) : st.reading = some now := by
  obtain ⟨r, hi, _⟩ := h
  obtain ⟨now', _, _, n, rfl, hn, _, hcases⟩ := message_of_input hi
  rcases hcases with ⟨_, he⟩ | ⟨_, he⟩ | ⟨_, he⟩
  · obtain rfl := SrcEvent.removed.inj he
    exact if_neg (by omega)
  · cases he
  · cases he

theorem reading_of_added {H : NTStatKernelStructHandler} {st : Step} {now : Time} {r : UInt64}
    {prov : UInt32} (h : st.input H = .added now r prov) : st.reading = some now := by
  obtain ⟨_, _, n, rfl, hn, _⟩ := added_of_input h
  exact if_neg (by omega)

/-! ## sessions -/

structure Session where
  version : KernelVersion
  cfg : Config := {}
  fd : Int := 3
  connected : 0 < fd := by decide

/-- the calls of the listener, in order -/
def callbacks (effs : List Effect) : List Shown := effs.filterMap Effect.shown

@[simp] theorem callbacks_append (e e' : List Effect) :
    callbacks (e ++ e') = callbacks e ++ callbacks e' := List.filterMap_append

/-- one call, read off without its stream -/
theorem shown_singleton {l : List Shown} {p : Ptr} {cb : Callback}
    (h : l.map (fun x => (x.1, x.2.1)) = [(p, cb)]) : ∃ stream, l = [(p, cb, stream)] := by
  obtain ⟨⟨q, cb', stream⟩, rfl, hx⟩ := List.map_eq_singleton_iff.mp h
  obtain ⟨rfl, rfl⟩ := Prod.mk.inj hx
  exact ⟨stream, rfl⟩

namespace Session
variable (S : Session)

abbrev handler : NTStatKernelStructHandler := S.version.handler

/-- the client at the loop of `run` -/
def start : Client := (Client.live S.handler S.cfg S.fd).1

/-- what `run` sent before its loop -/
def prologue : List Effect := (Client.live S.handler S.cfg S.fd).2

/-- the step function of its loop -/
abbrev step : Client → Step → Option (Client × List Effect) := Ntstat.step S.handler

def run (steps : List Step) : Option (Client × List Effect) := exec S.step S.start steps

/-- `st` is a step of the run of `steps`, taken in client `c` after the steps `pre` with the effects
`effs` so far -/
structure At (steps pre : List Step) (st : Step) (post : List Step) (c : Client)
    (effs : List Effect) : Prop where
  split : steps = pre ++ st :: post
  reached : S.run pre = some (c, effs)

/-- after the steps `pre`, the run takes the step `st` from `c` to `c'` -/
structure Takes (steps pre : List Step) (st : Step) (c c' : Client) (effs : List Effect) :
    Prop where
  split : ∃ post, steps = pre ++ st :: post
  reached : ∃ e, S.run pre = some (c, e)
  step : S.step c st = some (c', effs)

/-- at some step of the run, `Q` holds of the sources before it and of its decoded input -/
def Ever (steps : List Step) (Q : Sources → Input → Prop) : Prop :=
  Sometime S.step S.start steps fun _ c st => Q c.sources (st.input S.handler)

variable {S} {steps : List Step} {c c' : Client} {effs : List Effect}

theorem start_sources : S.start.sources = {} := live_sources _ _ _

theorem ever_iff {Q : Sources → Input → Prop} :
    S.Ever steps Q ↔ Sources.Ever (steps.map (Step.input S.handler)) Q := by
  unfold Sources.Ever
  rw [← start_sources (S := S)]
  exact sometime_map (Q := fun _ s i => Q s i) step_refines

theorem run_sources (h : S.run steps = some (c, effs)) :
    exec Sources.step {} (steps.map (Step.input S.handler)) = some (c.sources, callbacks effs) := by
  rw [← start_sources (S := S)]
  exact sources_of_run h

theorem step_sources {st : Step} (h : S.step c st = some (c', effs)) :
    c.sources.step (st.input S.handler) = some (c'.sources, callbacks effs) :=
  sources_of_step h

theorem session_lawful (S : Session) (steps : List Step) :
    ∀ i ∈ steps.map (Step.input S.handler), i.Lawful := by
  intro i hi
  obtain ⟨st, _, rfl⟩ := List.mem_map.mp hi
  exact input_lawful S.version.lawful st

/-- **The life of every source object in a session.** -/
theorem session_life (h : S.run steps = some (c, effs)) : c.sources.Coherent ∧
    ∀ p, Sources.Life (steps.map (Step.input S.handler)) c.sources (callbacks effs) p :=
  Sources.run_life (session_lawful S steps) (run_sources h)

theorem run_concat {st : Step} {e e' : List Effect} (h : S.run steps = some (c, e))
    (h' : S.step c st = some (c', e')) : S.run (steps ++ [st]) = some (c', e ++ e') :=
  exec_concat.mpr ⟨c, e, e', h, h', rfl⟩

/-- a defined run has its prefixes, and a step at every place -/
theorem run_split {pre post : List Step} (h : S.run (pre ++ post) = some (c, effs)) :
    ∃ c1 e1 e2, S.run pre = some (c1, e1) ∧ exec S.step c1 post = some (c, e2) ∧
      effs = e1 ++ e2 := exec_append.mp h

/-- with positive readings, every time of removal is one -/
theorem tsRemoved_nonneg (h : S.run steps = some (c, effs)) (hpos : Positive steps) (p : Ptr) :
    0 ≤ (c.heap p).tsRemoved := by
  refine exec_inv (P := fun steps c _ => Positive steps → 0 ≤ (c.heap p).tsRemoved) ?_ ?_ h hpos
  · intro _
    rw [show S.start.heap p = .blank from congrArg (fun s => s.heap p) (start_sources (S := S))]
    exact le_refl _
  · intro steps c1 e1 st c2 e2 hx hP hst hpos
    unfold Positive at hP hpos
    rw [List.filterMap_append] at hpos
    have h1 := hP fun t ht => hpos t (List.mem_append_left _ ht)
    have hs := step_sources hst
    by_cases hr : c1.sources.Removes (st.input S.handler) p
    · obtain ⟨now, hh⟩ := hr
      have hread := reading_of_removed hh
      have ha := Sources.step_act hs p
      rw [Sources.act_event.mpr hh] at ha
      rw [show c2.heap p = _ from (Prod.mk.inj (Option.some.inj ha)).1.symm]
      exact le_of_lt (hpos now (by simp [hread]))
    · exact le_of_le_of_eq h1 (Sources.tsRemoved_step (session_life hx).1 hs p hr).symm

/-- what happens between two steps of a run -/
theorem Takes.between {pre mid : List Step} {st st' : Step} {c1 c2 c3 c4 : Client}
    {e e' : List Effect} (h : S.Takes steps pre st c1 c2 e)
    (h' : S.Takes steps (pre ++ st :: mid) st' c3 c4 e') :
    (∃ o, exec S.step c2 mid = some (c3, o)) ∧ ∃ post, steps = pre ++ st :: mid ++ st' :: post := by
  obtain ⟨e1, h1⟩ := h.reached
  obtain ⟨e3, h3⟩ := h'.reached
  obtain ⟨c1', o1, o2, h1', h4, -⟩ := exec_append.mp h3
  obtain ⟨rfl, -⟩ := Prod.mk.inj (Option.some.inj (h1.symm.trans h1'))
  obtain ⟨c2', o3, o4, h2', h5, -⟩ := exec_cons.mp h4
  obtain ⟨rfl, -⟩ := Prod.mk.inj (Option.some.inj (h.step.symm.trans h2'))
  exact ⟨⟨o4, h5⟩, h'.split⟩

end Session

end Ntstat
