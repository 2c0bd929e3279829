import Ntstat.Sources.Lifecycle

/-!
# What happened to a source object

The events of the life of an object that are not messages to it, and what they leave.

* `Creates`, `Marks`           the step makes the object, or marks it because it wants counts;
* `creates_step`               the object that the step makes, and `creates_of_next`,
                               `unmarked_step` that nothing else makes or marks one;
* `base`, `base_step`          the time that `_updateWaitForCountsQueue` counts from;
* `accepted`                   the stream that an accepted description leaves;
* `id_step`, `shown_id`        an object keeps its id, and all calls show it.
-/

namespace Ntstat
open Memory Machine

namespace Sources

section
variable (s : Sources) (i : Input) (p : Ptr)

/-- a SRC_ADDED for `r`, read at `now`, makes `p` -/
def Creates (now : Time) (r : UInt64) : Prop :=
  ∃ prov, i = .added now r prov ∧ s.Vacant r ∧ p = s.next

/-- `_updateWaitForCountsQueue` at `now` finds that `p` wants counts -/
def Marks (now : Time) : Prop :=
  i = .requestCounts now ∧ s.InMap p ∧ (s.heap p).wantsCount now = true

end

variable {s s' : Sources} {i : Input} {p : Ptr} {shown : List Shown} {now : Time} {r : UInt64}

theorem act_alloc_iff {prov : UInt32} : s.act p i = .alloc now r prov ↔
    i = .added now r prov ∧ s.Vacant r ∧ p = s.next := by
  constructor
  · intro h
    cases i with
    | added now' r' prov' =>
      unfold act at h
      dsimp only at h
      split at h
      · next hv =>
        obtain ⟨rfl, rfl, rfl⟩ := Act.alloc.inj h
        exact ⟨rfl, hv.2, hv.1⟩
      · cases h
    | message r' e =>
      unfold act at h
      dsimp only at h
      split at h <;> cases h
    | requestCounts now' =>
      unfold act at h
      dsimp only at h
      split at h <;> cases h
    | evict now' => cases h
    | other => cases h
  · intro hex
    obtain ⟨rfl, hv, hp⟩ := hex
    exact if_pos ⟨hp, hv⟩

theorem act_mark : s.act p i = .mark ↔ ∃ now, s.Marks i p now := by
  constructor
  · intro h
    cases i with
    | requestCounts now =>
      unfold act at h
      dsimp only at h
      split at h
      · next hm => exact ⟨now, rfl, hm.1, hm.2⟩
      · cases h
    | added now r prov =>
      unfold act at h
      dsimp only at h
      split at h <;> cases h
    | message r e =>
      unfold act at h
      dsimp only at h
      split at h <;> cases h
    | evict now => cases h
    | other => cases h
  · intro hex
    obtain ⟨now, rfl, hm, hw⟩ := hex
    exact if_pos ⟨hm, hw⟩

theorem creates_step (hc : s.Creates i p now r) (h : s.step i = some (s', shown)) :
    p < s'.next ∧ ∃ prov, s'.heap p = .fresh now r prov := by
  obtain ⟨prov, rfl, hv, rfl⟩ := hc
  rw [step_added_vacant s hv] at h
  obtain ⟨rfl, -⟩ := Prod.mk.inj (Option.some.inj h)
  exact ⟨Nat.lt_succ_self _, prov, Function.update_self ..⟩

/-- nothing else makes an object -/
theorem creates_of_next (h : s.step i = some (s', shown)) (hp : p < s'.next) :
    p < s.next ∨ ∃ now r, s.Creates i p now r := by
  cases moves_of_step h with
  | @alloc now r prov hv =>
    rcases Nat.lt_succ_iff_lt_or_eq.mp hp with hp | hp
    · exact Or.inl hp
    · exact Or.inr ⟨now, r, prov, rfl, hv, hp⟩
  | _ => exact Or.inl hp

/-- nothing else marks an object -/
theorem unmarked_step (hn : ∀ now, ¬ s.Marks i p now) (h : s.step i = some (s', shown))
    (hr : (s'.heap p).requestedCount = true) : (s.heap p).requestedCount = true := by
  have ha := step_act h p
  generalize s'.heap p = t at ha hr
  cases hact : s.act p i with
  | keep =>
    rw [hact] at ha
    obtain ⟨rfl, -⟩ := Prod.mk.inj (Option.some.inj ha)
    exact hr
  | alloc now r prov =>
    rw [hact] at ha
    obtain ⟨rfl, -⟩ := Prod.mk.inj (Option.some.inj ha)
    cases hr
  | mark => exact absurd (act_mark.mp hact) (not_exists.mpr hn)
  | event e =>
    rw [hact] at ha
    cases e with
    | removed now =>
      obtain ⟨rfl, -⟩ := Prod.mk.inj (Option.some.inj ha)
      exact hr
    | counts now read =>
      obtain ⟨rfl, -⟩ := Prod.mk.inj (Option.some.inj ha)
      cases hr
    | desc read =>
      obtain ⟨⟨b, obj⟩, _, hb⟩ := Option.map_eq_some_iff.mp ha
      cases b <;> obtain ⟨rfl, -⟩ := Prod.mk.inj hb <;> exact hr

/-! ## the time that counts are wanted from -/

/-- the last counts, or the addition if there were none -/
def base (s : Sources) (p : Ptr) : Time :=
  if (s.heap p).tsLastUpdate == 0 then (s.heap p).tsAdded else (s.heap p).tsLastUpdate

theorem base_of_wantsCount (h : (s.heap p).wantsCount now = true) : s.base p + 15 ≤ now := by
  unfold NetstatSource.wantsCount at h
  simp only [Bool.and_eq_true, decide_eq_true_eq] at h
  have h15 : 15 ≤ now - s.base p := h.2
  rw [add_comm]
  exact le_sub_iff_add_le.mp h15

/-- counts set it, and answer the mark -/
theorem counts_step {read : NTStatCounters → NTStatCounters}
    (hh : s.Handles i p (.counts now read)) (h : s.step i = some (s', shown)) :
    (s'.heap p).tsLastUpdate = now ∧ (s'.heap p).requestedCount = false := by
  have ha := step_act h p
  rw [act_event.mpr hh] at ha
  rw [← (Prod.mk.inj (Option.some.inj ha)).1]
  exact ⟨rfl, rfl⟩

theorem base_of_counts {read : NTStatCounters → NTStatCounters} (h0 : 0 < now)
    (hh : s.Handles i p (.counts now read)) (h : s.step i = some (s', shown)) :
    s'.base p = now := by
  unfold base
  rw [(counts_step hh h).1, if_neg (by simpa using ne_of_gt h0)]

/-- nothing else does, once the object is there -/
theorem base_step (hp : p < s.next) (h : s.step i = some (s', shown)) :
    s'.base p = s.base p ∨ ∃ now read, s.Handles i p (.counts now read) := by
  have ht := touch_of_step h p
  unfold base
  generalize s'.heap p = t at ht ⊢
  generalize callsOf p shown = calls at ht
  cases ht with
  | alloc hn he => exact absurd (he ▸ hp) (lt_irrefl _)
  | @counted now read he => exact Or.inr ⟨now, read, he⟩
  | _ => exact Or.inl rfl

/-! ## identity -/

/-- the stream that the step leaves, if it is an accepted SRC_DESC for `p` -/
def accepted (p : Ptr) (s : Sources) : Input → Option NTStatStream
  | .message r (.desc read) =>
    if s.map r = some p then
      match read (s.heap p).obj with
      | some (true, obj) => some (NetstatSource.fixName obj)
      | _ => none
    else none
  | _ => none

theorem accepted_iff {obj : NTStatStream} : accepted p s i = some obj ↔ s.Accepts i p obj := by
  constructor
  · intro h
    unfold accepted at h
    split at h
    · next r read =>
      split at h
      · next hm =>
        split at h
        · next obj0 hr =>
          obtain rfl := Option.some.inj h
          exact ⟨read, obj0, ⟨r, rfl, hm⟩, hr, rfl⟩
        · cases h
      · cases h
    · cases h
  · intro hex
    obtain ⟨read, obj0, ⟨r, rfl, hm⟩, hr, rfl⟩ := hex
    unfold accepted
    dsimp only
    rw [if_pos hm, hr]

theorem id_step (hi : i.Lawful) (hp : p < s.next) (h : s.step i = some (s', shown)) :
    (s'.heap p).obj.id = (s.heap p).obj.id := by
  cases moves_of_step h with
  | alloc hv =>
    have hne : p ≠ s.next := Nat.ne_of_lt hp
    simp [hne]
  | @found r e q t calls hm ha =>
    by_cases hq : p = q
    · subst hq
      simp [(e.apply_keeps hi ha).2.1]
    · simp [hq]
  | @requestCounts now =>
    unfold markAll
    dsimp only
    split <;> rfl
  | _ => rfl

theorem shown_id (hc : s.Coherent) (hi : i.Lawful) (h : s.step i = some (s', shown))
    {cb : Callback} {stream : NTStatStream} (hm : (p, cb, stream) ∈ shown) :
    p < s.next ∧ stream.id = (s.heap p).obj.id := by
  cases moves_of_step h with
  | @found r e q t calls hr ha =>
    obtain ⟨x, hx, he⟩ := List.mem_map.mp hm
    obtain ⟨rfl, rfl⟩ := Prod.mk.inj he
    exact ⟨hc.lt_next hr, (e.apply_keeps hi ha).2.2 _ hx⟩
  | _ => cases hm

end Sources

end Ntstat
