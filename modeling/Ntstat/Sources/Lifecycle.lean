import Ntstat.Sources.Tracker

/-!
# The life of a source object

What one step can do to one object, read off `Sources.act`, and what follows for whole runs.

* `Handles`, `Removes`, `Accepts`, `Counts`   the message that a step handles for an object;
* `Touch`, `touch_of_step`   the ways in which a step touches an object;
* `shown_added`, `shown_removed`, `shown_stats`   when the listener is called, and with what;
* `flags_step`, `identity_step`, `tsRemoved_step`   the object after a step;
* `Life`, `run_life`         how flags, callbacks and the descriptions so far belong together.
-/

namespace Ntstat
open Memory Machine

namespace Sources

section
variable (s : Sources) (i : Input) (p : Ptr)

/-! ## messages that find an object -/

/-- the step handles message `e`, and finds object `p` -/
def Handles (e : SrcEvent) : Prop := ∃ r, i = .message r e ∧ s.map r = some p

/-- a SRC_REMOVED is handled for `p` -/
def Removes : Prop := ∃ now, s.Handles i p (.removed now)

/-- a SRC_DESC for `p` is accepted and leaves the stream `obj` -/
def Accepts (obj : NTStatStream) : Prop :=
  ∃ read obj0, s.Handles i p (.desc read) ∧ read (s.heap p).obj = some (true, obj0) ∧
    NetstatSource.fixName obj0 = obj

/-- a SRC_COUNTS for `p` is handled and leaves the counters `stats` -/
def Counts (stats : NTStatCounters) : Prop :=
  ∃ now read, s.Handles i p (.counts now read) ∧ read (s.heap p).obj.stats = stats

/-- the accepted description is the first one and has ports: the source is announced -/
def Announces : Prop :=
  ∃ obj, s.Accepts i p obj ∧ (s.heap p).haveNotifiedAdded = false ∧ obj.key.noPorts = false

/-- the accepted description is the first one and has both ports 0: the source stays unannounced -/
def Hides : Prop :=
  ∃ obj, s.Accepts i p obj ∧ (s.heap p).haveNotifiedAdded = false ∧ obj.key.noPorts = true

/-- a SRC_REMOVED is handled for `p` while its key has ports -/
def RemovesWithPorts : Prop := s.Removes i p ∧ (s.heap p).obj.key.noPorts = false

/-- a SRC_COUNTS with packets is handled for `p` while it is described and marked -/
def CountsWanted : Prop :=
  ∃ stats, s.Counts i p stats ∧ (s.heap p).haveDesc = true ∧ (s.heap p).requestedCount = true ∧
    (0 < stats.rxpackets ∨ 0 < stats.txpackets)

/-- the ways in which a step touches object `p`: its new value, and the calls through it -/
inductive Touch : NetstatSource → List (Callback × NTStatStream) → Prop
  | keep (hn : ∀ e, ¬ s.Handles i p e) : Touch (s.heap p) []
  | alloc {now r prov} (hn : ∀ e, ¬ s.Handles i p e) (hp : p = s.next) :
    Touch (.fresh now r prov) []
  | mark (hn : ∀ e, ¬ s.Handles i p e) : Touch (s.heap p).marked []
  | removed {now} (h : s.Handles i p (.removed now)) :
    Touch ((s.heap p).removed now).1 ((s.heap p).removed now).2
  | accepted {read obj} (h : s.Handles i p (.desc read))
    (hr : read (s.heap p).obj = some (true, obj)) :
    Touch ((s.heap p).described obj).1 ((s.heap p).described obj).2
  | rejected {read obj} (h : s.Handles i p (.desc read))
    (hr : read (s.heap p).obj = some (false, obj)) : Touch { s.heap p with obj } []
  | counted {now read} (h : s.Handles i p (.counts now read)) :
    Touch ((s.heap p).counted now (read (s.heap p).obj.stats)).1
      ((s.heap p).counted now (read (s.heap p).obj.stats)).2

end

variable {s s' : Sources} {i : Input} {p : Ptr} {shown : List Shown}

theorem Handles.unique {e e' : SrcEvent} (h : s.Handles i p e) (h' : s.Handles i p e') :
    e = e' := by
  obtain ⟨r, rfl, _⟩ := h
  obtain ⟨r', h1, _⟩ := h'
  exact (Input.message.inj h1).2

theorem act_event {e : SrcEvent} : s.act p i = .event e ↔ s.Handles i p e := by
  constructor
  · intro h
    cases i with
    | message r e' =>
      unfold act at h
      dsimp only at h
      split at h
      · next hm =>
        obtain rfl := Act.event.inj h
        exact ⟨r, rfl, hm⟩
      · cases h
    | added now r prov =>
      unfold act at h
      dsimp only at h
      split at h <;> cases h
    | requestCounts now =>
      unfold act at h
      dsimp only at h
      split at h <;> cases h
    | evict now => cases h
    | other => cases h
  · intro hex
    obtain ⟨r, rfl, hm⟩ := hex
    exact if_pos hm

theorem act_alloc {now : Time} {r : UInt64} {prov : UInt32} (h : s.act p i = .alloc now r prov) :
    p = s.next := by
  cases i with
  | added now' r' prov' =>
    unfold act at h
    dsimp only at h
    split at h
    · next hp => exact hp.1
    · cases h
  | message r e =>
    unfold act at h
    dsimp only at h
    split at h <;> cases h
  | requestCounts now =>
    unfold act at h
    dsimp only at h
    split at h <;> cases h
  | evict now => cases h
  | other => cases h

/-- **What a step does to an object.** -/
theorem touch_of_step (h : s.step i = some (s', shown)) (p : Ptr) :
    s.Touch i p (s'.heap p) (callsOf p shown) := by
  have ha := step_act h p
  have hn : (∀ e, s.act p i ≠ .event e) → ∀ e, ¬ s.Handles i p e :=
    fun h e he => h e (act_event.mpr he)
  cases hact : s.act p i with
  | keep =>
    rw [hact] at ha
    obtain ⟨h1, h2⟩ := Prod.mk.inj (Option.some.inj ha)
    rw [← h1, ← h2]
    exact .keep (hn (by simp [hact]))
  | alloc now r prov =>
    rw [hact] at ha
    obtain ⟨h1, h2⟩ := Prod.mk.inj (Option.some.inj ha)
    rw [← h1, ← h2]
    exact .alloc (hn (by simp [hact])) (act_alloc hact)
  | mark =>
    rw [hact] at ha
    obtain ⟨h1, h2⟩ := Prod.mk.inj (Option.some.inj ha)
    rw [← h1, ← h2]
    exact .mark (hn (by simp [hact]))
  | event e =>
    rw [hact] at ha
    have he : s.Handles i p e := act_event.mp hact
    cases e with
    | removed now =>
      obtain ⟨h1, h2⟩ := Prod.mk.inj (Option.some.inj ha)
      rw [← h1, ← h2]
      exact .removed he
    | counts now read =>
      obtain ⟨h1, h2⟩ := Prod.mk.inj (Option.some.inj ha)
      rw [← h1, ← h2]
      exact .counted he
    | desc read =>
      obtain ⟨⟨b, obj⟩, hr, hb⟩ := Option.map_eq_some_iff.mp ha
      cases b with
      | true =>
        obtain ⟨h1, h2⟩ := Prod.mk.inj hb
        rw [← h1, ← h2]
        exact .accepted he hr
      | false =>
        obtain ⟨h1, h2⟩ := Prod.mk.inj hb
        rw [← h1, ← h2]
        exact .rejected he hr

/-! ## when the listener is called -/

theorem Handles.event_of_removes {e : SrcEvent} (h : s.Handles i p e) :
    s.Removes i p ↔ ∃ now, e = .removed now :=
  ⟨fun ⟨now, h'⟩ => ⟨now, h.unique h'⟩, fun ⟨now, hn⟩ => ⟨now, hn ▸ h⟩⟩

theorem Handles.event_of_accepts {e : SrcEvent} (h : s.Handles i p e) {obj : NTStatStream} :
    s.Accepts i p obj ↔ ∃ read obj0, e = .desc read ∧
      read (s.heap p).obj = some (true, obj0) ∧ NetstatSource.fixName obj0 = obj :=
  ⟨fun ⟨read, obj0, h', hr⟩ => ⟨read, obj0, h.unique h', hr⟩,
    fun ⟨read, obj0, he, hr⟩ => ⟨read, obj0, he ▸ h, hr⟩⟩

theorem Handles.event_of_counts {e : SrcEvent} (h : s.Handles i p e) {stats : NTStatCounters} :
    s.Counts i p stats ↔ ∃ now read, e = .counts now read ∧ read (s.heap p).obj.stats = stats :=
  ⟨fun ⟨now, read, h', hr⟩ => ⟨now, read, h.unique h', hr⟩,
    fun ⟨now, read, he, hr⟩ => ⟨now, read, he ▸ h, hr⟩⟩

theorem not_accepts (hn : ∀ e, ¬ s.Handles i p e) (obj : NTStatStream) : ¬ s.Accepts i p obj :=
  fun ⟨_, _, h, _⟩ => hn _ h

theorem not_removes (hn : ∀ e, ¬ s.Handles i p e) : ¬ s.Removes i p := fun ⟨_, h⟩ => hn _ h

theorem not_counts (hn : ∀ e, ¬ s.Handles i p e) (stats : NTStatCounters) :
    ¬ s.Counts i p stats := fun ⟨_, _, h, _⟩ => hn _ h

/-- **`onStreamAdded`**: for a first description that has ports, with the stream it leaves -/
theorem shown_added (h : s.step i = some (s', shown)) {stream : NTStatStream} :
    (p, .onStreamAdded, stream) ∈ shown ↔
      s.Accepts i p stream ∧ (s.heap p).haveNotifiedAdded = false ∧
        stream.key.noPorts = false := by
  have ht := touch_of_step h p
  rw [← mem_callsOf]
  generalize s'.heap p = t at ht
  generalize callsOf p shown = calls at ht ⊢
  cases ht with
  | keep hn => simp [not_accepts hn]
  | alloc hn _ => simp [not_accepts hn]
  | mark hn => simp [not_accepts hn]
  | removed he => simp [he.event_of_accepts, NetstatSource.removed]
  | counted he => simp [he.event_of_accepts, NetstatSource.counted]
  | rejected he hr => simp [he.event_of_accepts, hr]
  | @accepted read obj he hr =>
    simp only [he.event_of_accepts, NetstatSource.described]
    by_cases hp : (!(s.heap p).haveNotifiedAdded &&
        !(NetstatSource.fixName obj).key.noPorts) = true
    · rw [if_pos hp]
      simp only [Bool.and_eq_true, Bool.not_eq_true'] at hp
      constructor
      · intro hm
        obtain rfl := (Prod.mk.inj (List.mem_singleton.mp hm)).2
        exact ⟨⟨read, obj, rfl, hr, rfl⟩, hp⟩
      · intro hex
        obtain ⟨⟨read', obj', hrr, hr', rfl⟩, _⟩ := hex
        obtain rfl := SrcEvent.desc.inj hrr
        rw [hr] at hr'
        obtain rfl := (Prod.mk.inj (Option.some.inj hr')).2
        exact List.mem_singleton.mpr rfl
    · rw [if_neg hp]
      simp only [Bool.and_eq_true, Bool.not_eq_true'] at hp
      constructor
      · intro hm
        cases hm
      · intro hex
        obtain ⟨⟨read', obj', hrr, hr', rfl⟩, hx⟩ := hex
        obtain rfl := SrcEvent.desc.inj hrr
        rw [hr] at hr'
        obtain rfl := (Prod.mk.inj (Option.some.inj hr')).2
        exact absurd hx hp

/-- **`onStreamRemoved`**: for a SRC_REMOVED if the source has ports, with its stream -/
theorem shown_removed (h : s.step i = some (s', shown)) {stream : NTStatStream} :
    (p, .onStreamRemoved, stream) ∈ shown ↔ s.RemovesWithPorts i p ∧ stream = (s.heap p).obj := by
  have ht := touch_of_step h p
  rw [← mem_callsOf]
  unfold RemovesWithPorts
  generalize s'.heap p = t at ht
  generalize callsOf p shown = calls at ht ⊢
  cases ht with
  | keep hn => simp [not_removes hn]
  | alloc hn _ => simp [not_removes hn]
  | mark hn => simp [not_removes hn]
  | removed he =>
    cases hp : (s.heap p).obj.key.noPorts <;>
      simp [he.event_of_removes, NetstatSource.removed, hp]
  | counted he => simp [he.event_of_removes, NetstatSource.counted]
  | rejected he hr => simp [he.event_of_removes]
  | accepted he hr => simp [he.event_of_removes, NetstatSource.described]

/-- **`onStreamStatsUpdate`**: for a SRC_COUNTS with packets, if the source is described and
marked, with the new counters in its stream -/
theorem shown_stats (h : s.step i = some (s', shown)) {stream : NTStatStream} :
    (p, .onStreamStatsUpdate, stream) ∈ shown ↔
      ∃ stats, s.Counts i p stats ∧ (s.heap p).haveDesc = true ∧
        (s.heap p).requestedCount = true ∧ (0 < stats.rxpackets ∨ 0 < stats.txpackets) ∧
        stream = { (s.heap p).obj with stats } := by
  have ht := touch_of_step h p
  rw [← mem_callsOf]
  generalize s'.heap p = t at ht
  generalize callsOf p shown = calls at ht ⊢
  cases ht with
  | keep hn => simp [not_counts hn]
  | alloc hn _ => simp [not_counts hn]
  | mark hn => simp [not_counts hn]
  | removed he => simp [he.event_of_counts, NetstatSource.removed]
  | rejected he hr => simp [he.event_of_counts]
  | accepted he hr => simp [he.event_of_counts, NetstatSource.described]
  | @counted now read he =>
    simp only [he.event_of_counts, NetstatSource.counted]
    split
    · next hg =>
      simp only [Bool.and_eq_true, Bool.or_eq_true, decide_eq_true_eq] at hg
      constructor
      · intro hm
        obtain rfl := (Prod.mk.inj (List.mem_singleton.mp hm)).2
        exact ⟨_, ⟨now, read, rfl, rfl⟩, hg.1, hg.2.1, hg.2.2, rfl⟩
      · intro hex
        obtain ⟨stats, ⟨now', read', hrr, rfl⟩, _, _, _, rfl⟩ := hex
        obtain ⟨-, rfl⟩ := SrcEvent.counts.inj hrr
        exact List.mem_singleton.mpr rfl
    · next hg =>
      simp only [Bool.and_eq_true, Bool.or_eq_true, decide_eq_true_eq] at hg
      constructor
      · intro hm
        cases hm
      · intro hex
        obtain ⟨stats, ⟨now', read', hrr, rfl⟩, h1, h2, h3, rfl⟩ := hex
        obtain ⟨-, rfl⟩ := SrcEvent.counts.inj hrr
        exact absurd ⟨h1, h2, h3⟩ hg

theorem removesWithPorts_iff (h : s.step i = some (s', shown)) :
    s.RemovesWithPorts i p ↔ ∃ stream, (p, .onStreamRemoved, stream) ∈ shown := by
  simp [shown_removed h]

theorem countsWanted_iff (h : s.step i = some (s', shown)) :
    s.CountsWanted i p ↔ ∃ stream, (p, .onStreamStatsUpdate, stream) ∈ shown := by
  simp only [shown_stats h]
  constructor
  · intro hex
    obtain ⟨stats, h1, h2, h3, h4⟩ := hex
    exact ⟨_, stats, h1, h2, h3, h4, rfl⟩
  · intro hex
    obtain ⟨_, stats, h1, h2, h3, h4, _⟩ := hex
    exact ⟨stats, h1, h2, h3, h4⟩

theorem announces_iff (h : s.step i = some (s', shown)) :
    s.Announces i p ↔ ∃ stream, (p, .onStreamAdded, stream) ∈ shown := by
  simp only [shown_added h]
  rfl

/-- a step calls the listener at most once -/
theorem shown_cases (h : s.step i = some (s', shown)) :
    shown = [] ∨ ∃ p cb stream, shown = [(p, cb, stream)] := by
  cases moves_of_step h with
  | @found r e p t calls hm ha =>
    have key : calls = [] ∨ ∃ x, calls = [x] := by
      cases e with
      | removed now =>
        obtain ⟨-, rfl⟩ := Prod.mk.inj (Option.some.inj ha)
        split <;> simp
      | counts now read =>
        obtain ⟨-, rfl⟩ := Prod.mk.inj (Option.some.inj ha)
        split <;> simp
      | desc read =>
        obtain ⟨⟨b, obj⟩, _, hb⟩ := Option.map_eq_some_iff.mp ha
        cases b with
        | false => exact Or.inl (Prod.mk.inj hb).2.symm
        | true =>
          obtain ⟨-, rfl⟩ := Prod.mk.inj hb
          split <;> simp
    rcases key with rfl | ⟨x, rfl⟩
    · exact Or.inl rfl
    · exact Or.inr ⟨p, x.1, x.2, rfl⟩
  | _ => exact Or.inl rfl

/-! ## the flags after a step -/

/-- both flags are set by the first accepted description -/
theorem flags_step (hc : s.Coherent) (h : s.step i = some (s', shown)) (p : Ptr) :
    ((s'.heap p).haveNotifiedAdded = true ↔
      (s.heap p).haveNotifiedAdded = true ∨ ∃ obj, s.Accepts i p obj) ∧
    ((s'.heap p).haveDesc = true ↔ (s.heap p).haveDesc = true ∨ ∃ obj, s.Accepts i p obj) := by
  have ht := touch_of_step h p
  generalize s'.heap p = t at ht ⊢
  generalize callsOf p shown = calls at ht
  cases ht with
  | keep hn => simp [not_accepts hn]
  | alloc hn hp =>
    rw [hc.blank (le_of_eq hp.symm)]
    simp [not_accepts hn, NetstatSource.fresh, NetstatSource.blank]
  | mark hn => simp [not_accepts hn, NetstatSource.marked]
  | removed he => simp [he.event_of_accepts, NetstatSource.removed]
  | counted he => simp [he.event_of_accepts, NetstatSource.counted]
  | rejected he hr => simp [he.event_of_accepts, hr]
  | @accepted read obj he hr =>
    have hx : ∃ obj, s.Accepts i p obj := ⟨_, read, obj, he, hr, rfl⟩
    simp [NetstatSource.described, hx]

/-- only an accepted description changes key and process -/
theorem identity_step (hc : s.Coherent) (hi : i.Lawful) (h : s.step i = some (s', shown))
    (p : Ptr) : (∀ obj, s.Accepts i p obj → (s'.heap p).obj = obj) ∧
    ((∀ obj, ¬ s.Accepts i p obj) → (s'.heap p).obj.key = (s.heap p).obj.key ∧
      (s'.heap p).obj.process = (s.heap p).obj.process) := by
  have ht := touch_of_step h p
  generalize s'.heap p = t at ht ⊢
  generalize callsOf p shown = calls at ht
  cases ht with
  | keep hn => simp [not_accepts hn]
  | alloc hn hp =>
    rw [hc.blank (le_of_eq hp.symm)]
    simp [not_accepts hn, NetstatSource.fresh, NetstatSource.blank]
  | mark hn => simp [not_accepts hn, NetstatSource.marked]
  | removed he => simp [he.event_of_accepts, NetstatSource.removed]
  | counted he => simp [he.event_of_accepts, NetstatSource.counted]
  | @rejected read obj he hr =>
    obtain ⟨r, rfl, hm⟩ := he
    have ho : obj = (s.heap p).obj := (hi (s.heap p).obj false obj hr).2 rfl
    have he : s.Handles (.message r (.desc read)) p (.desc read) := ⟨r, rfl, hm⟩
    simp [he.event_of_accepts, hr, ho]
  | @accepted read obj he hr =>
    constructor
    · rintro _ ⟨read', obj', he', hr', rfl⟩
      obtain rfl := SrcEvent.desc.inj (he.unique he')
      rw [hr] at hr'
      obtain rfl := (Prod.mk.inj (Option.some.inj hr')).2
      rfl
    · intro hn
      exact absurd ⟨read, obj, he, hr, rfl⟩ (hn _)

/-- only SRC_REMOVED changes the time of removal -/
theorem tsRemoved_step (hc : s.Coherent) (h : s.step i = some (s', shown)) (p : Ptr)
    (hn : ¬ s.Removes i p) : (s'.heap p).tsRemoved = (s.heap p).tsRemoved := by
  have ht := touch_of_step h p
  generalize s'.heap p = t at ht ⊢
  generalize callsOf p shown = calls at ht
  cases ht with
  | alloc hn hp =>
    rw [hc.blank (le_of_eq hp.symm)]
    rfl
  | removed he => exact absurd ⟨_, he⟩ hn
  | _ => rfl

/-! ## whole runs -/

/-- at some step of the run of `is` from the start -/
def Ever (is : List Input) (Q : Sources → Input → Prop) : Prop :=
  Sometime step {} is fun _ s i => Q s i

theorem ever_nil (Q : Sources → Input → Prop) : ¬ Ever [] Q := sometime_nil _

theorem ever_concat {is : List Input} (h : exec step {} is = some (s, shown))
    {Q : Sources → Input → Prop} : Ever (is ++ [i]) Q ↔ Ever is Q ∨ Q s i := sometime_concat h

/-- the calls that announce -/
def isAdded (x : Callback × NTStatStream) : Bool := x.1 == .onStreamAdded

/-- what is known of an object after a run of the inputs `is` that called the listener with
`shown` -/
structure Life (is : List Input) (s : Sources) (shown : List Shown) (p : Ptr) : Prop where
  described : (s.heap p).haveDesc = (s.heap p).haveNotifiedAdded
  accepted : (s.heap p).haveNotifiedAdded = true ↔ Ever is fun s i => ∃ obj, s.Accepts i p obj
  first : (s.heap p).haveNotifiedAdded = true ↔
    (Ever is fun s i => s.Announces i p) ∨ Ever is fun s i => s.Hides i p
  not_both : (Ever is fun s i => s.Announces i p) → ¬ Ever is fun s i => s.Hides i p
  announced : (∃ stream, (p, .onStreamAdded, stream) ∈ shown) ↔
    Ever is fun s i => s.Announces i p
  once : (callsOf p shown).countP isAdded ≤ 1
  noPorts : (s.heap p).haveNotifiedAdded = false → (s.heap p).obj.key.noPorts = true

theorem life_init (p : Ptr) : Life [] {} [] p where
  described := rfl
  accepted := by simp [ever_nil, NetstatSource.blank]
  first := by simp [ever_nil, NetstatSource.blank]
  not_both := fun h => absurd h (ever_nil _)
  announced := by simp [ever_nil]
  once := by simp
  noPorts := fun _ => rfl

theorem announces_or_hides (s : Sources) (i : Input) (p : Ptr) :
    s.Announces i p ∨ s.Hides i p ↔
      (s.heap p).haveNotifiedAdded = false ∧ ∃ obj, s.Accepts i p obj := by
  constructor
  · rintro (⟨obj, h1, h2, _⟩ | ⟨obj, h1, h2, _⟩) <;> exact ⟨h2, obj, h1⟩
  · intro hex
    obtain ⟨h2, obj, h1⟩ := hex
    cases hp : obj.key.noPorts with
    | false => exact Or.inl ⟨obj, h1, h2, hp⟩
    | true => exact Or.inr ⟨obj, h1, h2, hp⟩

theorem Accepts.unique {obj obj' : NTStatStream} (h : s.Accepts i p obj) (h' : s.Accepts i p obj') :
    obj = obj' := by
  obtain ⟨read, o, h1, h2, rfl⟩ := h
  obtain ⟨read', o', h1', h2', rfl⟩ := h'
  obtain rfl := SrcEvent.desc.inj (h1.unique h1')
  rw [h2] at h2'
  rw [(Prod.mk.inj (Option.some.inj h2')).2]

theorem not_announces_and_hides (h : s.Announces i p) : ¬ s.Hides i p := by
  obtain ⟨obj, h1, _, h2⟩ := h
  intro hex
  obtain ⟨obj', h1', _, h2'⟩ := hex
  rw [h1.unique h1', h2'] at h2
  cases h2

/-- a step announces at most once, and only an object that was not announced -/
theorem added_calls (h : s.step i = some (s', shown)) (p : Ptr) :
    (callsOf p shown).countP isAdded ≤ if (s.heap p).haveNotifiedAdded then 0 else 1 := by
  have ht := touch_of_step h p
  generalize s'.heap p = t at ht
  generalize callsOf p shown = calls at ht ⊢
  cases ht with
  | removed he => unfold NetstatSource.removed; dsimp only; split <;> simp [isAdded]
  | counted he => unfold NetstatSource.counted; dsimp only; split <;> simp [isAdded]
  | accepted he hr =>
    unfold NetstatSource.described
    dsimp only
    cases (s.heap p).haveNotifiedAdded
    · split <;> simp [isAdded]
    · simp
  | _ => simp

/-- only sources with an accepted description are reported as removed or counted -/
theorem Life.spoken {is : List Input} (hl : Life is s shown p)
    (h : s.RemovesWithPorts i p ∨ s.CountsWanted i p) : (s.heap p).haveNotifiedAdded = true := by
  rcases h with ⟨_, hp⟩ | ⟨_, _, hd, _⟩
  · by_contra hne
    rw [hl.noPorts (by simpa using hne)] at hp
    cases hp
  · rw [← hl.described]
    exact hd

/-- such a source was announced unless it is hidden -/
theorem Life.announced_iff {is : List Input} (hl : Life is s shown p)
    (h : (s.heap p).haveNotifiedAdded = true) :
    (∃ stream, (p, .onStreamAdded, stream) ∈ shown) ↔ ¬ Ever is fun s i => s.Hides i p := by
  rw [hl.announced]
  exact ⟨hl.not_both, fun hn => (hl.first.mp h).resolve_right hn⟩

theorem life_step {is : List Input} {o : List Shown} (hx : exec step {} is = some (s, o))
    (hc : s.Coherent) (hi : i.Lawful) (h : s.step i = some (s', shown)) {p : Ptr}
    (hl : Life is s o p) : Life (is ++ [i]) s' (o ++ shown) p := by
  obtain ⟨hflag, hdesc⟩ := flags_step hc h p
  have hah := announces_or_hides s i p
  have hadd : (∃ stream, (p, .onStreamAdded, stream) ∈ shown) ↔ s.Announces i p :=
    (announces_iff h).symm
  constructor
  · rw [Bool.eq_iff_iff, hdesc, hflag, hl.described]
  · rw [hflag, ever_concat hx, hl.accepted]
  · rw [hflag, ever_concat hx, ever_concat hx, or_or_or_comm, ← hl.first, hah]
    cases (s.heap p).haveNotifiedAdded <;> simp
  · rw [ever_concat hx, ever_concat hx]
    rintro (ha | ha) (hh | hh)
    · exact hl.not_both ha hh
    · have := hl.first.mpr (Or.inl ha)
      simp [hh.choose_spec.2.1] at this
    · have := hl.first.mpr (Or.inr hh)
      simp [ha.choose_spec.2.1] at this
    · exact not_announces_and_hides ha hh
  · rw [ever_concat hx, ← hl.announced, ← hadd]
    simp only [List.mem_append, exists_or]
  · rw [callsOf_append, List.countP_append]
    have h1 := added_calls h p
    cases hf : (s.heap p).haveNotifiedAdded with
    | true =>
      rw [hf, if_pos rfl] at h1
      have := hl.once
      omega
    | false =>
      have h0 : (callsOf p o).countP isAdded = 0 := by
        rw [List.countP_eq_zero]
        rintro ⟨cb, stream⟩ hm hb
        obtain rfl : cb = .onStreamAdded := by simpa [isAdded] using hb
        have := hl.first.mpr (Or.inl (hl.announced.mp ⟨stream, mem_callsOf.mp hm⟩))
        simp [hf] at this
      rw [hf] at h1
      simp only [Bool.false_eq_true, if_false] at h1
      omega
  · intro hf
    have hf0 : (s.heap p).haveNotifiedAdded = false := by
      by_contra hne
      simp only [Bool.not_eq_false] at hne
      simp [hflag.mpr (Or.inl hne)] at hf
    have hn : ∀ obj, ¬ s.Accepts i p obj := fun obj ha => by
      simp [hflag.mpr (Or.inr ⟨obj, ha⟩)] at hf
    rw [((identity_step hc hi h p).2 hn).1]
    exact hl.noPorts hf0

/-- **Every run keeps the invariant and tells the life of every object.** -/
theorem run_life {is : List Input} (hi : ∀ i ∈ is, i.Lawful)
    (h : exec step {} is = some (s, shown)) : s.Coherent ∧ ∀ p, Life is s shown p := by
  refine exec_inv
    (P := fun is s shown => (∀ i ∈ is, i.Lawful) → s.Coherent ∧ ∀ p, Life is s shown p)
    (fun _ => ⟨coherent_init, life_init⟩) ?_ h hi
  intro is s1 o1 i s2 o2 hx hP h2 hl
  obtain ⟨hc, hp⟩ := hP fun j hj => hl j (List.mem_append_left _ hj)
  have hi' : i.Lawful := hl i (by simp)
  exact ⟨step_coherent hc hi' h2, fun p => life_step hx hc hi' h2 (hp p)⟩

end Sources

end Ntstat
