import Ntstat.Kernel.Events
import Ntstat.Laws.Announce

/-!
# The kernel version does not show

An `Event` is a step of a session without the version: a kernel event, a sweep, or a turn to send.
`Writes` relates it to the steps in which a version carries it out.  Every version is compared with
the tracker on the events themselves.

* `Sources.Alike`, `like_step`   the two trackers differ in the provider numbers only;
* `run_events`                   the calls of the listener are those of the tracker on the events;
* `version_independent`          so they are the same for every two versions.
-/

namespace Ntstat
open Memory Machine

/-! ## events -/

/-- no wired counter is set -/
def NTStatCounters.NoWired (c : NTStatCounters) : Prop := c.wiredRxbytes = 0 ∧ c.wiredTxbytes = 0

/-- what the event means to the sources; the number of its provider is not known yet -/
def KernelEvent.input (now : Time) : KernelEvent → Input
  | added srcRef _ => .added now srcRef.toUInt64 0
  | removed srcRef => .message srcRef.toUInt64 (.removed now)
  | desc srcRef proto d =>
    .message srcRef.toUInt64 (.desc fun dest => some (true, d.fill proto dest))
  | counts srcRef c => .message srcRef.toUInt64 (.counts now fun _ => c)

def KernelEvent.NoWired : KernelEvent → Prop
  | counts _ c => c.NoWired
  | _ => True

inductive Event where
  | kernel (now : Time) (e : KernelEvent)
  | updateWaitForCountsQueue (now : Time)
  | removeOldSources (now : Time)
  | sendNextMsg

def Event.input : Event → Input
  | kernel now e => e.input now
  | updateWaitForCountsQueue now => .requestCounts now
  | removeOldSources now => .evict now
  | sendNextMsg => .other

def Event.NoWired : Event → Prop
  | kernel _ e => e.NoWired
  | _ => True

/-- the version carries out the event: a message is any encoding of it, of any length, and what the
record file and the socket do is left open -/
inductive KernelVersion.Writes (v : KernelVersion) : Event → Step → Prop
  | kernel {now timestamp e buf n} (he : v.Encodes e buf) (hn : 0 < n) :
    Writes v (.kernel now e) (.readNextMessage now timestamp buf n)
  | updateWaitForCountsQueue {now} :
    Writes v (.updateWaitForCountsQueue now) (.updateWaitForCountsQueue now)
  | removeOldSources {now} : Writes v (.removeOldSources now) (.removeOldSources now)
  | sendNextMsg {timestamp rc} : Writes v .sendNextMsg (.sendNextMsg timestamp rc)

/-- the event carried out with the messages of `encode` -/
def Event.written (v : KernelVersion) : Event → Step
  | kernel now e => .readNextMessage now 0 (v.encode e) 2048
  | updateWaitForCountsQueue now => .updateWaitForCountsQueue now
  | removeOldSources now => .removeOldSources now
  | sendNextMsg => .sendNextMsg 0 0

theorem writes_written (v : KernelVersion) (e : Event) : v.Writes e (e.written v) := by
  cases e with
  | kernel now e => exact .kernel (encodes_encode v e) (by decide)
  | updateWaitForCountsQueue now => exact .updateWaitForCountsQueue
  | removeOldSources now => exact .removeOldSources
  | sendNextMsg => exact .sendNextMsg

/-! ## the same tracker under other provider numbers

`wired` says that the wired counters are read; where they are not, they have to be 0. -/

def NetstatSource.withProvider (s : NetstatSource) (providerId : UInt32) : NetstatSource :=
  { s with providerId }

section
variable (s : NetstatSource) (providerId : UInt32) (now : Time)

@[simp] theorem NetstatSource.withProvider_obj : (s.withProvider providerId).obj = s.obj := rfl
@[simp] theorem NetstatSource.withProvider_tsRemoved :
    (s.withProvider providerId).tsRemoved = s.tsRemoved := rfl
@[simp] theorem NetstatSource.withProvider_wantsCount :
    (s.withProvider providerId).wantsCount now = s.wantsCount now := rfl
@[simp] theorem NetstatSource.withProvider_expired :
    (s.withProvider providerId).expired now = s.expired now := rfl

end

/-- both messages change a source in the same way -/
def SrcEvent.Like (wired : Bool) (e e' : SrcEvent) : Prop :=
  ∀ (t : NetstatSource) (prov : UInt32), wired = true ∨ t.obj.stats.NoWired → ∀ r,
    e.apply t = some r → e'.apply (t.withProvider prov) = some (r.1.withProvider prov, r.2) ∧
      (wired = true ∨ r.1.obj.stats.NoWired)

/-- both inputs mean the same, but for the provider number -/
inductive Input.Like (wired : Bool) : Input → Input → Prop
  | added {now r prov prov'} : Like wired (.added now r prov) (.added now r prov')
  | message {r e e'} (he : e.Like wired e') : Like wired (.message r e) (.message r e')
  | requestCounts {now} : Like wired (.requestCounts now) (.requestCounts now)
  | evict {now} : Like wired (.evict now) (.evict now)
  | other : Like wired .other .other

/-- both have the same sources, but for the provider numbers -/
structure Sources.Alike (wired : Bool) (s s' : Sources) : Prop where
  next : s'.next = s.next
  map : s'.map = s.map
  heap : ∀ p, ∃ prov, s'.heap p = (s.heap p).withProvider prov
  noWired : ∀ p, wired = true ∨ (s.heap p).obj.stats.NoWired

namespace Sources
variable {wired : Bool} {s s' t : Sources} {i i' : Input} {shown : List Shown}

theorem Alike.vacant (h : Alike wired s s') (r : UInt64) : s'.Vacant r ↔ s.Vacant r := by
  unfold Vacant
  rw [h.map]
  refine forall₂_congr fun p _ => ?_
  obtain ⟨prov, hp⟩ := h.heap p
  rw [hp, NetstatSource.withProvider_tsRemoved]

theorem Alike.inMap (h : Alike wired s s') (p : Ptr) : s'.InMap p ↔ s.InMap p := by
  unfold InMap
  rw [h.map]

/-- one object changes, on both sides in the same way -/
theorem Alike.update (h : Alike wired s s') {p : Ptr} {x : NetstatSource} (prov : UInt32)
    (hx : wired = true ∨ x.obj.stats.NoWired) :
    Alike wired { s with heap := Function.update s.heap p x }
      { s' with heap := Function.update s'.heap p (x.withProvider prov) } := by
  refine ⟨h.next, h.map, fun q => ?_, fun q => ?_⟩
  · by_cases hq : q = p
    · subst hq
      exact ⟨prov, by simp⟩
    · simpa [hq] using h.heap q
  · by_cases hq : q = p
    · subst hq
      simpa using hx
    · simpa [hq] using h.noWired q

/-- **A step on the same input.** -/
theorem like_step (hi : Input.Like wired i i') (h : Alike wired s s')
    (hs : s.step i = some (t, shown)) :
    ∃ t', s'.step i' = some (t', shown) ∧ Alike wired t t' := by
  cases hi with
  | @added now r prov prov' =>
    by_cases hv : s.Vacant r
    · rw [step_added_vacant s hv] at hs
      obtain ⟨rfl, rfl⟩ := Prod.mk.inj (Option.some.inj hs)
      refine ⟨_, step_added_vacant s' ((h.vacant r).mpr hv), ?_⟩
      have hu := h.update (p := s.next) (x := .fresh now r prov) prov' (Or.inr ⟨rfl, rfl⟩)
      rw [h.next, h.map]
      exact ⟨rfl, rfl, hu.heap, hu.noWired⟩
    · rw [step_added_known s hv] at hs
      obtain ⟨rfl, rfl⟩ := Prod.mk.inj (Option.some.inj hs)
      exact ⟨s', step_added_known s' (mt (h.vacant r).mp hv), h⟩
  | @message r e e' he =>
    cases hm : s.map r with
    | none =>
      rw [step_message_none s e hm] at hs
      obtain ⟨rfl, rfl⟩ := Prod.mk.inj (Option.some.inj hs)
      exact ⟨s', step_message_none s' e' (by rw [h.map, hm]), h⟩
    | some p =>
      rw [step_message_some s e hm] at hs
      obtain ⟨x, hx, hb⟩ := Option.map_eq_some_iff.mp hs
      obtain ⟨rfl, rfl⟩ := Prod.mk.inj hb
      obtain ⟨prov, hp⟩ := h.heap p
      obtain ⟨hx', hw⟩ := he _ prov (h.noWired p) _ hx
      refine ⟨_, ?_, h.update (p := p) prov hw⟩
      rw [step_message_some s' e' (by rw [h.map, hm]), hp, hx']
      rfl
  | @requestCounts now =>
    obtain ⟨rfl, rfl⟩ := Prod.mk.inj (Option.some.inj hs)
    refine ⟨s'.markAll now, rfl, h.next, h.map, fun p => ?_, fun p => ?_⟩
    · obtain ⟨prov, hp⟩ := h.heap p
      refine ⟨prov, ?_⟩
      unfold markAll
      dsimp only
      rw [hp, NetstatSource.withProvider_wantsCount, h.inMap]
      split <;> rfl
    · unfold markAll
      dsimp only
      split <;> exact h.noWired p
  | @evict now =>
    obtain ⟨rfl, rfl⟩ := Prod.mk.inj (Option.some.inj hs)
    refine ⟨s'.dropExpired now, rfl, h.next, ?_, h.heap, h.noWired⟩
    unfold dropExpired
    dsimp only
    rw [h.map]
    funext r
    congr 1
    funext p
    obtain ⟨prov, hp⟩ := h.heap p
    rw [hp, NetstatSource.withProvider_expired]
  | other =>
    obtain ⟨rfl, rfl⟩ := Prod.mk.inj (Option.some.inj hs)
    exact ⟨s', rfl, h⟩

end Sources

/-! ## every version decodes the event -/

theorem removed_like (wired : Bool) (now : Time) :
    SrcEvent.Like wired (.removed now) (.removed now) := by
  intro t prov hw r hr
  obtain rfl := Option.some.inj hr
  exact ⟨rfl, hw⟩

theorem desc_like (wired : Bool) (d : KernelDesc) (proto : Proto)
    {read : NTStatStream → Option (Bool × NTStatStream)}
    (hread : ∀ dest, read dest = some (true, d.fill proto dest)) :
    SrcEvent.Like wired (.desc fun dest => some (true, d.fill proto dest)) (.desc read) := by
  intro t prov hw r hr
  obtain rfl := Option.some.inj hr
  refine ⟨?_, ?_⟩
  · rw [SrcEvent.apply, NetstatSource.withProvider_obj, hread]
    rfl
  · unfold NetstatSource.described
    rw [NetstatSource.fixName_stats]
    exact hw

theorem counts_like {wired : Bool} {counts : NTStatCounters} (now : Time)
    {read : NTStatCounters → NTStatCounters}
    (hread : ∀ dest, wired = true ∨ dest.NoWired → read dest = counts)
    (hc : wired = true ∨ counts.NoWired) :
    SrcEvent.Like wired (.counts now fun _ => counts) (.counts now read) := by
  intro t prov hw r hr
  obtain rfl := Option.some.inj hr
  refine ⟨?_, hc⟩
  rw [SrcEvent.apply, NetstatSource.withProvider_obj, hread _ hw]
  rfl

variable {v : KernelVersion}

/-- **A message of the version means what the event means.** -/
theorem messageInput_like {e : KernelEvent} {buf : Mem} (h : v.Encodes e buf)
    (hw : v.readsWired = true ∨ e.NoWired) (now : Time) (n : Nat) :
    Input.Like v.readsWired (e.input now) (messageInput v.handler now buf n) := by
  unfold messageInput
  cases e with
  | added srcRef proto =>
    obtain ⟨ht, hr, -⟩ := h
    have ht' := hdrType_of_hasType ht
    rw [v.getSrcRef_added n _ ht', ht', readSrcref_encoded hr]
    exact .added
  | removed srcRef =>
    obtain ⟨ht, hr⟩ := h
    have ht' := hdrType_of_hasType ht
    rw [v.getSrcRef_removed n _ ht', ht', readSrcref_encoded hr]
    exact .message (removed_like _ now)
  | desc srcRef proto d =>
    obtain ⟨ht, hr, hp, hd, hs⟩ := h
    have ht' := hdrType_of_hasType ht
    rw [v.getSrcRef_desc n _ ht', ht', readSrcref_encoded hr]
    exact .message (desc_like _ d proto fun dest => readSrcDesc_encoded hp hd hs n dest)
  | counts srcRef counts =>
    obtain ⟨ht, hr, hc⟩ := h
    have ht' := hdrType_of_hasType ht
    rw [v.getSrcRef_counts n _ ht', ht', readSrcref_encoded hr]
    refine .message (counts_like now (fun dest hd => ?_) hw)
    rw [readCounts_encoded hc]
    cases hv : v.readsWired with
    | true => rfl
    | false =>
      -- neither side has wired counters
      obtain ⟨h1, h2⟩ := hw.resolve_left (by simp [hv])
      obtain ⟨h3, h4⟩ := hd.resolve_left (by simp [hv])
      rw [if_neg (by decide), h3.trans h1.symm, h4.trans h2.symm]

theorem input_like {e : Event} {st : Step} (h : v.Writes e st)
    (hw : v.readsWired = true ∨ e.NoWired) :
    Input.Like v.readsWired e.input (st.input v.handler) := by
  cases h with
  | @kernel now timestamp e buf n he hn =>
    rw [Step.input, if_neg (by omega)]
    exact messageInput_like he hw now n.toNat
  | updateWaitForCountsQueue => exact .requestCounts
  | removeOldSources => exact .evict
  | sendNextMsg => exact .other

/-- the tracker takes every event -/
theorem event_step (s : Sources) (e : Event) : ∃ s' shown, s.step e.input = some (s', shown) := by
  cases e with
  | kernel now e =>
    cases e with
    | added srcRef proto => exact ⟨_, _, rfl⟩
    | _ srcRef =>
      cases hm : s.map srcRef.toUInt64 with
      | none => exact ⟨_, _, Sources.step_message_none s _ hm⟩
      | some p => exact ⟨_, _, Sources.step_message_some s _ hm⟩
  | _ => exact ⟨_, _, rfl⟩

/-- the tracker has a run on the events -/
theorem exec_events (events : List Event) :
    ∃ s shown, exec Sources.step {} (events.map Event.input) = some (s, shown) := by
  have htotal : ∀ (s : Sources) (i : Input), True → (∃ e : Event, i = e.input) →
      ∃ s' shown, s.step i = some (s', shown) ∧ True := by
    intro s i _ ⟨e, he⟩
    obtain ⟨s', shown, h⟩ := event_step s e
    exact ⟨s', shown, he ▸ h, trivial⟩
  have hevents : ∀ i ∈ events.map Event.input, ∃ e : Event, i = e.input := by
    intro i hi
    obtain ⟨e, -, rfl⟩ := List.mem_map.mp hi
    exact ⟨e, rfl⟩
  obtain ⟨s, shown, h, -⟩ := exec_total htotal (s := ({} : Sources)) trivial hevents
  exact ⟨s, shown, h⟩

namespace Session
variable {S S' : Session} {events : List Event} {steps steps' : List Step}

/-- **The calls of the listener are those of the tracker on the events.** -/
theorem run_events (h : List.Forall₂ S.version.Writes events steps)
    (hw : S.version.readsWired = true ∨ ∀ e ∈ events, e.NoWired) :
    ∃ s shown, exec Sources.step {} (events.map Event.input) = some (s, shown) ∧
      ∃ c effs, S.run steps = some (c, effs) ∧ callbacks effs = shown := by
  have hlike : List.Forall₂ (Input.Like S.version.readsWired) (events.map Event.input)
      (steps.map (Step.input S.handler)) := by
    rw [List.forall₂_map_left_iff, List.forall₂_map_right_iff]
    induction h with
    | nil => exact .nil
    | cons he _ ih =>
      refine .cons (input_like he (hw.imp_right fun h => h _ List.mem_cons_self)) ?_
      exact ih (hw.imp_right fun h e he => h e (List.mem_cons_of_mem _ he))
  obtain ⟨s, shown, hs⟩ := exec_events events
  have h0 : Sources.Alike S.version.readsWired {} {} :=
    ⟨rfl, rfl, fun _ => ⟨0, rfl⟩, fun _ => Or.inr ⟨rfl, rfl⟩⟩
  have hsim : ∀ (s t : Sources) (i k : Input) s' o, Sources.Alike S.version.readsWired s t →
      Input.Like S.version.readsWired i k → Sources.step s i = some (s', o) →
      ∃ t', Sources.step t k = some (t', o) ∧ Sources.Alike S.version.readsWired s' t' :=
    fun _ _ _ _ _ _ ha hi ho => Sources.like_step hi ha ho
  obtain ⟨s', hs', -⟩ := exec_sim hsim hlike h0 hs
  rw [← start_sources (S := S), ← run_refines] at hs'
  obtain ⟨⟨c, effs⟩, hr, hx⟩ := Option.map_eq_some_iff.mp hs'
  exact ⟨s, shown, hs, c, effs, hr, congrArg Prod.snd hx⟩

theorem readsWired_or {v : KernelVersion} {P : Prop} (h : v = .xnu2422 → P) :
    v.readsWired = true ∨ P := by
  cases v with
  | xnu2422 => exact Or.inr (h rfl)
  | _ => exact Or.inl rfl

/-- **Whatever kernel wrote the events down, the listener is told the same.** -/
theorem version_independent (h : List.Forall₂ S.version.Writes events steps)
    (h' : List.Forall₂ S'.version.Writes events steps')
    (hw : S.version = .xnu2422 ∨ S'.version = .xnu2422 → ∀ e ∈ events, e.NoWired) :
    ∃ c effs c' effs', S.run steps = some (c, effs) ∧ S'.run steps' = some (c', effs') ∧
      callbacks effs = callbacks effs' := by
  obtain ⟨s, shown, hs, c, effs, hr, he⟩ := run_events h (readsWired_or fun hv => hw (Or.inl hv))
  obtain ⟨s', shown', hs', c', effs', hr', he'⟩ :=
    run_events h' (readsWired_or fun hv => hw (Or.inr hv))
  rw [hs] at hs'
  obtain ⟨-, rfl⟩ := Prod.mk.inj (Option.some.inj hs')
  exact ⟨c, effs, c', effs', hr, hr', he.trans he'.symm⟩

/-- a description of an IPv4 socket with ports 80 and 81 and no process -/
def desc80 : KernelDesc where
  localAddr := Vector.ofFn fun i => if i.1 = 2 then 80 else 0
  remoteAddr := Vector.ofFn fun i => if i.1 = 2 then 81 else 0
  ifindex := 1
  states := {}
  pid := 0
  pname := Vector.replicate 64 0
  terminated := ⟨0, by decide, by decide⟩

/-- one UDP source from its arrival to its removal -/
def oneSource : List Event :=
  [.kernel 1 (.added 7 .udp), .sendNextMsg, .kernel 2 (.desc 7 .udp desc80),
   .updateWaitForCountsQueue 20, .kernel 21 (.counts 7 { rxpackets := 3 }),
   .kernel 30 (.removed 7), .removeOldSources 70]

theorem version_independent_oneSource : ∃ c effs c' effs',
    ({ version := .xnu2422 } : Session).run (oneSource.map (Event.written .xnu2422)) =
      some (c, effs) ∧
    ({ version := .xnu4570 } : Session).run (oneSource.map (Event.written .xnu4570)) =
      some (c', effs') ∧
    callbacks effs = callbacks effs' := by
  have hwrites : ∀ v : KernelVersion,
      List.Forall₂ v.Writes oneSource (oneSource.map (Event.written v)) := fun v => by
    rw [List.forall₂_map_right_iff, List.forall₂_same]
    exact fun e _ => writes_written v e
  have hwired : ∀ e ∈ oneSource, e.NoWired := by
    unfold oneSource
    simp only [List.forall_mem_cons, List.not_mem_nil, false_implies, implies_true, and_true]
    exact ⟨trivial, trivial, trivial, trivial, ⟨rfl, rfl⟩, trivial, trivial⟩
  let S : Session := { version := .xnu2422 }
  let S' : Session := { version := .xnu4570 }
  have h : List.Forall₂ S.version.Writes oneSource (oneSource.map (Event.written .xnu2422)) :=
    hwrites _
  have h' : List.Forall₂ S'.version.Writes oneSource (oneSource.map (Event.written .xnu4570)) :=
    hwrites _
  exact version_independent h h' fun _ => hwired

end Session

end Ntstat
