import Ntstat.Kernel.Extent
import Ntstat.Laws.Received
import Ntstat.Sources.Cell

/-!
# What the sweeps show

A session is compared with itself without its two sweeps.  A source that is marked reports its
counts, which it never does without the sweep that marks it; a source that is evicted reports
nothing more, while without the sweep it may be reported again.

* `Unswept`, `unswept_step`   the source of a reference with and without the sweeps, and what a
                              message shows of it;
* `sweeps_show`               the listener is told the same exactly if neither happens.
-/

namespace Ntstat
open Memory Machine

/-- not one of the sweeps -/
def Step.unswept : Step → Bool
  | updateWaitForCountsQueue _ => false
  | removeOldSources _ => false
  | _ => true

/-- a message is complete and has a length that a record file may have, and the clock is set -/
def Step.Complete (v : KernelVersion) : Step → Prop
  | readNextMessage now _ buf n =>
    n ≤ 0 ∨ 0 < now ∧ 16 ≤ n ∧ n ≤ 2048 ∧ v.Received n.toNat buf
  | _ => True

/-- what the listener is told -/
def calls (effs : List Effect) : List Call := (callbacks effs).map Prod.snd

@[simp] theorem calls_append (e e' : List Effect) : calls (e ++ e') = calls e ++ calls e' := by
  simp [calls]

def Call.isStats (x : Call) : Bool := x.1 == .onStreamStatsUpdate

/-! ## one message to one source -/

/-- removals have a time, and descriptions can be read -/
def SrcEvent.Sound : SrcEvent → Prop
  | removed now => 0 < now
  | desc read => ∀ obj, (read obj).isSome
  | counts _ _ => True

theorem SrcEvent.apply_sound {e : SrcEvent} (h : e.Sound) (t : NetstatSource) :
    ∃ t' shown, e.apply t = some (t', shown) := by
  cases e with
  | removed now => exact ⟨_, _, rfl⟩
  | counts now read => exact ⟨_, _, rfl⟩
  | desc read =>
    obtain ⟨⟨b, obj⟩, hb⟩ := Option.isSome_iff_exists.mp (h t.obj)
    exact ⟨_, _, by rw [apply, hb, Option.map_some]⟩

def NetstatSource.unmarked (s : NetstatSource) : NetstatSource := { s with requestedCount := false }

/-- a source that is not marked: a message to it shows the same as to the marked one, except for
statistics -/
theorem apply_unmarked {e : SrcEvent} {t t' : NetstatSource} {shown : List Call}
    (h : e.apply t = some (t', shown)) :
    e.apply t.unmarked = some (t'.unmarked, shown.filter fun x => !x.isStats) := by
  cases e with
  | removed now =>
    obtain ⟨rfl, rfl⟩ := Prod.mk.inj (Option.some.inj h)
    unfold SrcEvent.apply NetstatSource.removed NetstatSource.unmarked
    dsimp only
    split <;> rfl
  | counts now read =>
    obtain ⟨rfl, rfl⟩ := Prod.mk.inj (Option.some.inj h)
    unfold SrcEvent.apply NetstatSource.counted NetstatSource.unmarked
    simp only [Bool.false_and, Bool.and_false, Bool.false_eq_true, if_false]
    split <;> rfl
  | desc read =>
    obtain ⟨⟨b, obj⟩, hb, hx⟩ := Option.map_eq_some_iff.mp h
    rw [SrcEvent.apply, show t.unmarked.obj = t.obj from rfl, hb]
    cases b with
    | true =>
      obtain ⟨rfl, rfl⟩ := Prod.mk.inj hx
      unfold NetstatSource.described NetstatSource.unmarked
      dsimp only [Option.map_some]
      split <;> rfl
    | false =>
      obtain ⟨rfl, rfl⟩ := Prod.mk.inj hx
      rfl

/-- removed, and not marked: what the sweeps would have evicted -/
structure NetstatSource.Stale (u : NetstatSource) : Prop where
  removed : 0 < u.tsRemoved
  unmarked : u.requestedCount = false

/-- a message leaves it so, and shows no statistics -/
theorem apply_stale {e : SrcEvent} (he : e.Sound) {u u' : NetstatSource} {shown : List Call}
    (hu : u.Stale) (h : e.apply u = some (u', shown)) :
    u'.Stale ∧ ∀ x ∈ shown, x.isStats = false := by
  cases e with
  | removed now =>
    obtain ⟨rfl, rfl⟩ := Prod.mk.inj (Option.some.inj h)
    refine ⟨⟨he, hu.unmarked⟩, fun x hx => ?_⟩
    split at hx <;> simp_all [Call.isStats]
  | counts now read =>
    obtain ⟨rfl, rfl⟩ := Prod.mk.inj (Option.some.inj h)
    refine ⟨⟨hu.removed, rfl⟩, fun x hx => ?_⟩
    rw [hu.unmarked] at hx
    simp at hx
  | desc read =>
    obtain ⟨⟨b, obj⟩, hb, hx⟩ := Option.map_eq_some_iff.mp h
    cases b with
    | true =>
      obtain ⟨rfl, rfl⟩ := Prod.mk.inj hx
      refine ⟨⟨hu.removed, hu.unmarked⟩, fun x hx => ?_⟩
      split at hx <;> simp_all [Call.isStats]
    | false =>
      obtain ⟨rfl, rfl⟩ := Prod.mk.inj hx
      exact ⟨⟨hu.removed, hu.unmarked⟩, fun x hx => absurd hx List.not_mem_nil⟩

/-! ## one step of one cell -/

/-- the source of a reference, and what it is without the sweeps -/
def Unswept : Option NetstatSource → Option NetstatSource → Prop
  | some t, u => u = some t.unmarked
  | none, some u => u.Stale
  | none, none => True

/-- a reference that is free with the sweeps is free without them -/
theorem Unswept.vacant {t u : Option NetstatSource} (h : Unswept t u)
    (hf : ∀ x, t = some x → x.tsRemoved > 0) : ∀ y, u = some y → y.tsRemoved > 0 := by
  intro y hy
  subst hy
  cases t with
  | none => exact h.removed
  | some t =>
    obtain rfl := Option.some.inj h
    exact hf t rfl

/-- a sweep -/
theorem unswept_sweep {r : UInt64} {i : Input} {t t' u : Option NetstatSource} {shown : List Call}
    (hi : (∃ now, i = .requestCounts now) ∨ ∃ now, i = .evict now) (h : Unswept t u)
    (ht : cellStep r t i = some (t', shown)) : Unswept t' u := by
  rcases hi with ⟨now, rfl⟩ | ⟨now, rfl⟩
  · obtain ⟨rfl, -⟩ := Prod.mk.inj (Option.some.inj ht)
    cases t with
    | none => exact h
    | some t =>
      obtain rfl := h
      show some t.unmarked = some (if t.wantsCount now = true then t.marked else t).unmarked
      split <;> rfl
  · obtain ⟨rfl, -⟩ := Prod.mk.inj (Option.some.inj ht)
    cases t with
    | none => exact h
    | some t =>
      obtain rfl := h
      by_cases he : t.expired now = true
      · rw [Option.filter, he]
        simp only [NetstatSource.expired, Bool.and_eq_true, decide_eq_true_eq] at he
        exact ⟨he.1, rfl⟩
      · rw [Option.filter]
        simp only [he]
        rfl

/-- the messages among the inputs are sound -/
def Input.Sound : Input → Prop
  | message _ e => e.Sound
  | _ => True

def Input.isSweep : Input → Bool
  | requestCounts _ => true
  | evict _ => true
  | _ => false

/-- **A step that is not a sweep.**  What is shown of a source that is there is the same but for the
statistics. -/
theorem unswept_step {r : UInt64} {i : Input} {t t' u : Option NetstatSource} {shown : List Call}
    (hi : i.Sound) (hs : i.isSweep = false) (h : Unswept t u)
    (ht : cellStep r t i = some (t', shown)) :
    ∃ u' shown', cellStep r u i = some (u', shown') ∧ Unswept t' u' ∧
      (∀ x ∈ shown', x.isStats = false) ∧
      (t.isSome = true → shown' = shown.filter fun x => !x.isStats) := by
  have hnil : ∀ x ∈ ([] : List Call), x.isStats = false := fun _ h => absurd h List.not_mem_nil
  cases cellMoves_of_step ht with
  | fresh hf => exact ⟨_, _, cellStep_added_fresh (h.vacant hf), rfl, hnil, fun _ => rfl⟩
  | kept hx =>
    obtain rfl := h
    exact ⟨_, _, cellStep_added_kept hx, rfl, hnil, fun _ => rfl⟩
  | addedOther hr => exact ⟨_, _, cellStep_added_ne hr, h, hnil, fun _ => rfl⟩
  | unknown =>
    cases u with
    | none => exact ⟨_, _, cellStep_message_none, trivial, hnil, fun _ => rfl⟩
    | some u =>
      obtain ⟨u', shown', hu⟩ := SrcEvent.apply_sound hi u
      obtain ⟨h1, h2⟩ := apply_stale hi h hu
      refine ⟨some u', shown', ?_, h1, h2, fun hn => absurd hn Bool.false_ne_true⟩
      rw [cellStep_message_some, hu, Option.map_some]
  | @found t e x hx =>
    obtain rfl := h
    refine ⟨some x.1.unmarked, _, ?_, rfl, fun y hy => ?_, fun _ => rfl⟩
    · rw [cellStep_message_some, apply_unmarked hx, Option.map_some]
    · simpa using (List.mem_filter.mp hy).2
  | messageOther hr => exact ⟨_, _, cellStep_message_ne hr, h, hnil, fun _ => rfl⟩
  | requestCounts => cases hs
  | evict => cases hs
  | other => exact ⟨_, _, rfl, h, hnil, fun _ => rfl⟩

/-! ## one step of the tracker -/

namespace Sources
variable {s s' w : Sources} {i : Input} {shown : List Shown}

/-- the message is about a source that is not in the map -/
def Misses (s : Sources) (i : Input) : Prop := ∃ r e, i = .message r e ∧ s.map r = none

/-- only a message calls the listener, and about its source -/
theorem calls_message (hc : s.Coherent) (hi : i.Lawful) (h : s.step i = some (s', shown)) :
    shown = [] ∨ ∃ r e, i = .message r e ∧ (s.map r).isSome = true ∧
      shown.map Prod.snd = callsFor r shown := by
  cases moves_of_step h with
  | @found r e p t calls hm ha =>
    have hid := (e.apply_keeps hi ha).2.2
    rw [hc.id hm] at hid
    refine Or.inr ⟨r, e, rfl, by rw [hm]; rfl, ?_⟩
    rw [callsFor_map hid, if_pos rfl, List.map_map]
    exact List.map_id' _
  | _ => exact Or.inl rfl

/-- so every call is about `r` if the message is -/
theorem calls_about (hc : s.Coherent) (hi : i.Lawful) (h : s.step i = some (s', shown)) {r : UInt64}
    (hr : ∀ r' e, i = .message r' e → r' = r) : shown.map Prod.snd = callsFor r shown := by
  rcases calls_message hc hi h with rfl | ⟨r', e, he, -, hcalls⟩
  · rfl
  · rw [hcalls, hr r' e he]

/-- the same sources with and without the sweeps -/
structure Apart (s w : Sources) : Prop where
  coherent : s.Coherent
  coherent' : w.Coherent
  cells : ∀ r, Unswept (s.cell r) (w.cell r)

/-- a sound input has a result -/
theorem sound_step (s : Sources) (hi : i.Sound) : ∃ s' shown, s.step i = some (s', shown) := by
  cases i with
  | message r e =>
    cases hm : s.map r with
    | none => exact ⟨_, _, step_message_none s e hm⟩
    | some p =>
      obtain ⟨t', calls, ha⟩ := SrcEvent.apply_sound hi (s.heap p)
      exact ⟨_, _, by rw [step_message_some s e hm, ha, Option.map_some]⟩
  | _ => exact ⟨_, _, rfl⟩

theorem apart_init : Apart {} {} := ⟨coherent_init, coherent_init, fun _ => trivial⟩

theorem Apart.sweep (h : Apart s w) (hi : i.isSweep = true) (hs : s.step i = some (s', shown)) :
    Apart s' w ∧ shown = [] := by
  have hcase : (∃ now, i = .requestCounts now) ∨ ∃ now, i = .evict now := by
    cases i with
    | requestCounts now => exact Or.inl ⟨now, rfl⟩
    | evict now => exact Or.inr ⟨now, rfl⟩
    | _ => cases hi
  have hl : i.Lawful := by
    rcases hcase with ⟨now, rfl⟩ | ⟨now, rfl⟩ <;> trivial
  refine ⟨⟨step_coherent h.coherent hl hs, h.coherent', fun r => ?_⟩, ?_⟩
  · exact unswept_sweep hcase (h.cells r) (step_cell h.coherent hl hs r)
  · rcases hcase with ⟨now, rfl⟩ | ⟨now, rfl⟩
    · exact (Prod.mk.inj (Option.some.inj hs)).2.symm
    · exact (Prod.mk.inj (Option.some.inj hs)).2.symm

/-- **A step that is not a sweep**, of both -/
theorem Apart.step (h : Apart s w) (hl : i.Lawful) (hi : i.Sound) (hsw : i.isSweep = false)
    (hs : s.step i = some (s', shown)) :
    ∃ w' shown', w.step i = some (w', shown') ∧ Apart s' w' ∧
      (∀ x ∈ shown'.map Prod.snd, Call.isStats x = false) ∧
      (¬ s.Misses i →
        shown'.map Prod.snd = (shown.map Prod.snd).filter fun x => !Call.isStats x) := by
  have hcell := fun r => unswept_step hi hsw (h.cells r) (step_cell h.coherent hl hs r)
  obtain ⟨w', shown', hw⟩ := step_of_cell (s := w) (i := i) fun r e _ => by
    obtain ⟨u', sh, hu, -⟩ := hcell r
    rw [hu]
    rfl
  have hpair : ∀ r, Unswept (s'.cell r) (w'.cell r) ∧
      (∀ x ∈ callsFor r shown', x.isStats = false) ∧
      ((s.cell r).isSome = true →
        callsFor r shown' = (callsFor r shown).filter fun x => !x.isStats) := by
    intro r
    obtain ⟨u', sh, hu, hrest⟩ := hcell r
    rw [step_cell h.coherent' hl hw r] at hu
    obtain ⟨rfl, rfl⟩ := Prod.mk.inj (Option.some.inj hu)
    exact hrest
  refine ⟨w', shown', hw, ⟨step_coherent h.coherent hl hs, step_coherent h.coherent' hl hw,
    fun r => (hpair r).1⟩, fun x hx => ?_, fun hm => ?_⟩
  · rcases calls_message h.coherent' hl hw with rfl | ⟨r, e, -, -, he⟩
    · exact absurd hx List.not_mem_nil
    · exact (hpair r).2.1 x (he ▸ hx)
  · cases i with
    | message r e =>
      cases hr : s.map r with
      | none => exact absurd ⟨r, e, rfl, hr⟩ hm
      | some p =>
        have hall := (hpair r).2.2 (by rw [cell_some hr]; rfl)
        have habout : ∀ r' e', Input.message r e = .message r' e' → r' = r :=
          fun r' e' he => (Input.message.inj he).1.symm
        rw [calls_about h.coherent hl hs habout, calls_about h.coherent' hl hw habout, hall]
    | _ =>
      have h1 : shown = [] := (calls_message h.coherent hl hs).resolve_right (by simp)
      have h2 : shown' = [] := (calls_message h.coherent' hl hw).resolve_right (by simp)
      rw [h1, h2]
      rfl

end Sources

/-! ## runs -/

theorem input_sound {v : KernelVersion} {st : Step} (h : st.Complete v) :
    (st.input v.handler).Sound := by
  cases st with
  | readNextMessage now timestamp buf n =>
    unfold Step.input
    dsimp only
    split
    · trivial
    · next hn =>
      obtain ⟨hnow, -, -, hr⟩ := h.resolve_left hn
      unfold messageInput
      dsimp only
      split
      · trivial
      · exact hnow
      · next ht =>
        have hcont := (hr.2 _ (by rw [ht]; decide) (mayBe_hdrType (by rw [ht]; decide))).2
        rw [ht] at hcont
        exact fun obj => (readSrcDesc_agree (fun _ _ => rfl) hcont.2 obj).2
      · trivial
      · trivial
  | _ => trivial

theorem input_isSweep (H : NTStatKernelStructHandler) (st : Step) :
    (st.input H).isSweep = !st.unswept := by
  cases st with
  | readNextMessage now timestamp buf n =>
    unfold Step.input
    dsimp only
    split
    · rfl
    · unfold messageInput
      dsimp only
      split <;> rfl
  | _ => rfl

namespace Session
variable {S : Session} {steps : List Step} {c : Client} {effs : List Effect}

/-- a marked source reports its counts -/
def ReportsCounts (S : Session) (steps : List Step) : Prop :=
  S.Ever steps fun s i => ∃ p, s.CountsWanted i p

/-- a SRC_REMOVED or SRC_DESC is about a source that was evicted, and that would be reported if the
sweeps had been left out -/
def StaleAt (S : Session) (pre : List Step) (c : Client) (st : Step) : Prop :=
  c.sources.Misses (st.input S.handler) ∧
    ∃ w e, S.run (pre.filter Step.unswept) = some (w, e) ∧ ∃ p,
      w.sources.Announces (st.input S.handler) p ∨ w.sources.RemovesWithPorts (st.input S.handler) p

def MissesStale (S : Session) (steps : List Step) : Prop :=
  Sometime S.step S.start steps (S.StaleAt)

theorem reportsCounts_iff (h : S.run steps = some (c, effs)) :
    S.ReportsCounts steps ↔ ∃ x ∈ calls effs, x.isStats = true := by
  unfold ReportsCounts
  rw [ever_iff]
  have hr := run_sources h
  constructor
  · intro hex
    obtain ⟨pre, i, post, s1, o1, he, h1, p, hp⟩ := hex
    rw [he] at hr
    obtain ⟨s2, o2, o3, h2, h3, h4⟩ := exec_append.mp hr
    rw [h1] at h2
    obtain ⟨rfl, rfl⟩ := Prod.mk.inj (Option.some.inj h2)
    obtain ⟨s3, o4, o5, h5, -, rfl⟩ := exec_cons.mp h3
    obtain ⟨stream, hm⟩ := (Sources.countsWanted_iff h5).mp hp
    refine ⟨(.onStreamStatsUpdate, stream), ?_, rfl⟩
    rw [calls, h4]
    exact List.mem_map.mpr ⟨_, List.mem_append_right _ (List.mem_append_left _ hm), rfl⟩
  · intro hex
    obtain ⟨x, hx, hs⟩ := hex
    obtain ⟨⟨p, cb, stream⟩, hm, rfl⟩ := List.mem_map.mp hx
    obtain rfl : cb = .onStreamStatsUpdate := by simpa [Call.isStats] using hs
    refine Sometime.imp ?_ ((mem_outputs hr).mp hm)
    rintro _ s i ⟨s', o, h1, h2⟩
    exact ⟨p, (Sources.countsWanted_iff h1).mpr ⟨stream, h2⟩⟩

/-- what the run without the sweeps shows, given what the run shows -/
structure WithoutSweeps (S : Session) (steps : List Step) (c : Client) (effs : List Effect)
    (w : Client) (e : List Effect) : Prop where
  run : S.run (steps.filter Step.unswept) = some (w, e)
  apart : Sources.Apart c.sources w.sources
  quiet : ∀ x ∈ calls e, x.isStats = false
  same : ¬ S.MissesStale steps → calls e = (calls effs).filter fun x => !x.isStats
  more : S.MissesStale steps → ((calls effs).filter fun x => !x.isStats).length < (calls e).length

variable {c1 c2 w w2 : Client} {st : Step} {e e1 e2 o : List Effect}

/-- a step more, with the calls `e2`, and `o` without the sweeps -/
theorem WithoutSweeps.snoc (hw : S.WithoutSweeps steps c1 e1 w e)
    (hx : S.run steps = some (c1, e1))
    (hrun : S.run ((steps ++ [st]).filter Step.unswept) = some (w2, e ++ o))
    (hap : Sources.Apart c2.sources w2.sources) (hq : ∀ x ∈ calls o, x.isStats = false)
    (hsame : ¬ S.StaleAt steps c1 st → calls o = (calls e2).filter fun x => !x.isStats)
    (hmore : S.StaleAt steps c1 st →
      ((calls e2).filter fun x => !x.isStats).length < (calls o).length) :
    S.WithoutSweeps (steps ++ [st]) c2 (e1 ++ e2) w2 (e ++ o) := by
  have hstale : S.MissesStale (steps ++ [st]) ↔ S.MissesStale steps ∨ S.StaleAt steps c1 st :=
    sometime_concat hx
  refine ⟨hrun, hap, fun x hx => ?_, fun hn => ?_, fun hm => ?_⟩
  · rw [calls_append] at hx
    rcases List.mem_append.mp hx with hx | hx
    · exact hw.quiet x hx
    · exact hq x hx
  · rw [hstale, not_or] at hn
    rw [calls_append, calls_append, List.filter_append, hw.same hn.1, hsame hn.2]
  · rw [calls_append, calls_append, List.filter_append, List.length_append, List.length_append]
    have h1 : ((calls e1).filter fun x => !x.isStats).length ≤ (calls e).length := by
      by_cases hs : S.MissesStale steps
      · exact (hw.more hs).le
      · rw [hw.same hs]
    have h2 : ((calls e2).filter fun x => !x.isStats).length ≤ (calls o).length := by
      by_cases hs : S.StaleAt steps c1 st
      · exact (hmore hs).le
      · rw [hsame hs]
    rcases hstale.mp hm with hs | hs
    · have := hw.more hs
      omega
    · have := hmore hs
      omega

theorem not_misses_of_sweep {s : Sources} {i : Input} (hi : i.isSweep = true) : ¬ s.Misses i := by
  intro hex
  obtain ⟨r, e, rfl, -⟩ := hex
  cases hi

/-- a message about a source that is not there shows nothing -/
theorem calls_of_misses {s s' : Sources} {i : Input} {shown : List Shown} (hc : s.Coherent)
    (hi : i.Lawful) (h : s.step i = some (s', shown)) (hm : s.Misses i) : shown = [] := by
  rcases Sources.calls_message hc hi h with he | ⟨r, e, rfl, hr, -⟩
  · exact he
  · obtain ⟨r', e', he, hr'⟩ := hm
    obtain ⟨rfl, -⟩ := Input.message.inj he
    rw [hr'] at hr
    cases hr

/-- it is about a stale one if the run without the sweeps shows something -/
theorem staleAt_iff (hr : S.run (steps.filter Step.unswept) = some (w, e))
    (hst : S.step w st = some (w2, o)) (hq : ∀ x ∈ calls o, x.isStats = false) :
    S.StaleAt steps c st ↔ c.sources.Misses (st.input S.handler) ∧ calls o ≠ [] := by
  have hs := step_sources hst
  refine and_congr_right fun _ => ⟨?_, fun hne => ⟨w, e, hr, ?_⟩⟩
  · rintro ⟨w', e', hr', p, hp⟩ hnil
    obtain ⟨rfl, -⟩ := Prod.mk.inj (Option.some.inj (hr.symm.trans hr'))
    have hnil' : callbacks o = [] := List.map_eq_nil_iff.mp hnil
    rcases hp with hp | hp
    · obtain ⟨stream, hm⟩ := (Sources.announces_iff hs).mp hp
      rw [hnil'] at hm
      exact absurd hm List.not_mem_nil
    · obtain ⟨stream, hm⟩ := (Sources.removesWithPorts_iff hs).mp hp
      rw [hnil'] at hm
      exact absurd hm List.not_mem_nil
  · rcases Sources.shown_cases hs with h0 | ⟨p, cb, stream, h1⟩
    · exact absurd (by rw [calls, h0]; rfl) hne
    · refine ⟨p, ?_⟩
      have hmem : (p, cb, stream) ∈ callbacks o := by simp [h1]
      cases cb with
      | onStreamAdded => exact Or.inl ((Sources.announces_iff hs).mpr ⟨stream, hmem⟩)
      | onStreamRemoved => exact Or.inr ((Sources.removesWithPorts_iff hs).mpr ⟨stream, hmem⟩)
      | onStreamStatsUpdate =>
        have := hq _ (List.mem_map.mpr ⟨_, hmem, rfl⟩)
        cases this

/-- **Every session has its run without the sweeps.** -/
theorem exists_withoutSweeps (hc : ∀ st ∈ steps, st.Complete S.version)
    (h : S.run steps = some (c, effs)) : ∃ w e, S.WithoutSweeps steps c effs w e := by
  refine exec_inv (P := fun steps c effs => (∀ st ∈ steps, st.Complete S.version) →
    ∃ w e, S.WithoutSweeps steps c effs w e) ?_ ?_ h hc
  · intro _
    have hno : ¬ S.MissesStale [] := sometime_nil _
    refine ⟨S.start, [], rfl, ?_, fun x hx => absurd hx List.not_mem_nil, fun _ => rfl,
      fun hm => absurd hm hno⟩
    rw [start_sources]
    exact Sources.apart_init
  · intro steps c1 e1 st c2 e2 hx ih hst hc
    obtain ⟨w, e, hw⟩ := ih fun x hx => hc x (List.mem_append_left _ hx)
    have hl := input_lawful S.version.lawful st
    have hstep := step_sources hst
    cases hsw : st.unswept with
    | true =>
      obtain ⟨w', shown', hw', hap, hq, hsame⟩ := hw.apart.step hl
        (input_sound (hc st (by simp))) (by rw [input_isSweep, hsw]; rfl) hstep
      obtain ⟨w2, o, hwst, rfl, rfl⟩ := step_of_sources hw'
      have hs := staleAt_iff (c := c1) hw.run hwst hq
      have hrun : S.run ((steps ++ [st]).filter Step.unswept) = some (w2, e ++ o) := by
        rw [List.filter_append, List.filter_cons_of_pos hsw, List.filter_nil]
        exact run_concat hw.run hwst
      refine ⟨w2, e ++ o, hw.snoc hx hrun hap hq (fun hn => ?_) fun hm => ?_⟩
      · by_cases hm : c1.sources.Misses (st.input S.handler)
        · have h1 : calls o = [] := by
            by_contra hne
            exact hn (hs.mpr ⟨hm, hne⟩)
          rw [h1, calls, calls_of_misses hw.apart.coherent hl hstep hm]
          rfl
        · exact hsame hm
      · obtain ⟨hm, hne⟩ := hs.mp hm
        rw [calls, calls_of_misses hw.apart.coherent hl hstep hm]
        exact List.length_pos_iff.mpr hne
    | false =>
      have hi : (st.input S.handler).isSweep = true := by rw [input_isSweep, hsw]; rfl
      obtain ⟨hap, h0⟩ := hw.apart.sweep hi hstep
      have hrun : S.run ((steps ++ [st]).filter Step.unswept) = some (w, e ++ []) := by
        rw [List.filter_append, List.filter_cons_of_neg (by simp [hsw]), List.filter_nil,
          List.append_nil, List.append_nil]
        exact hw.run
      refine ⟨w, e ++ [], hw.snoc hx hrun hap (fun x hx => absurd hx List.not_mem_nil)
        (fun _ => ?_) fun hm => absurd hm.1 (not_misses_of_sweep hi)⟩
      rw [calls, calls, h0]
      rfl

/-- **The sweeps do not show exactly if no marked source reports its counts and no message is about
a stale one.** -/
theorem sweeps_show (h : S.run steps = some (c, effs)) (hw : S.WithoutSweeps steps c effs w e) :
    calls e = calls effs ↔ ¬ S.ReportsCounts steps ∧ ¬ S.MissesStale steps := by
  have hfilter : (∀ x ∈ calls effs, x.isStats = false) →
      ((calls effs).filter fun x => !x.isStats) = calls effs := fun hn =>
    List.filter_eq_self.mpr fun x hx => by rw [hn x hx]; rfl
  constructor
  · intro he
    have hn : ∀ x ∈ calls effs, x.isStats = false := fun x hx => hw.quiet x (he ▸ hx)
    refine ⟨fun hr => ?_, fun hm => ?_⟩
    · obtain ⟨x, hx, hs⟩ := (reportsCounts_iff h).mp hr
      rw [hn x hx] at hs
      cases hs
    · have := hw.more hm
      rw [hfilter hn, he] at this
      exact absurd this (Nat.lt_irrefl _)
  · intro hex
    obtain ⟨hr, hm⟩ := hex
    have hn : ∀ x ∈ calls effs, x.isStats = false := fun x hx => by
      by_contra hs
      exact hr ((reportsCounts_iff h).mpr ⟨x, hx, by simpa using hs⟩)
    rw [hw.same hm, hfilter hn]

end Session

end Ntstat
