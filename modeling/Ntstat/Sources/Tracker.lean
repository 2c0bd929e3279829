import Ntstat.Machine.Exec
import Ntstat.Client.State

/-!
# The source tracker: what the client is for

The client turns the messages about kernel sources into calls of the listener.  `Sources` is what
it needs for that: the source objects and the map that finds them by reference.  Requests, queues,
the subscription state, recording and the error counters are left out, and messages are decoded.

* `SrcEvent.apply`     what a message does to the source that it finds;
* `Sources.step`       a message, or one of the two sweeps;
* `Sources.act`, `Act.apply`   the same seen from one object, and `Sources.step_act`: a step of the
                       tracker is one act on every object;
* `Sources.Coherent`   the map holds allocated objects only, each under its own reference;
* `Sources.cell`, `cellStep`   the same seen from one reference, and `Sources.step_cell`.
-/

namespace Ntstat
open Memory

/-- what the listener is told, and through which object -/
abbrev Shown := Ptr × Callback × NTStatStream

/-! ## messages about a source that exists -/

inductive SrcEvent where
  | removed (now : Time)
  /-- `read` is `readSrcDesc` on the message -/
  | desc (read : NTStatStream → Option (Bool × NTStatStream))
  /-- `read` is `readCounts` on the message -/
  | counts (now : Time) (read : NTStatCounters → NTStatCounters)

/-- the source afterwards, and the calls of the listener -/
def SrcEvent.apply : SrcEvent → NetstatSource →
    Option (NetstatSource × List (Callback × NTStatStream))
  | removed now, s => some (s.removed now)
  | desc read, s => (read s.obj).map fun
    | (true, obj) => s.described obj
    | (false, obj) => ({ s with obj }, [])
  | counts now read, s => some (s.counted now (read s.obj.stats))

/-- reading a description keeps the id, and changes nothing if it is not accepted -/
def SrcEvent.Lawful : SrcEvent → Prop
  | desc read => ∀ obj b obj', read obj = some (b, obj') →
      obj'.id = obj.id ∧ (b = false → obj' = obj)
  | _ => True

/-- the source keeps its reference, its id and is the one that the calls are about -/
theorem SrcEvent.apply_keeps {e : SrcEvent} {t t' : NetstatSource}
    {calls : List (Callback × NTStatStream)} (he : e.Lawful) (h : e.apply t = some (t', calls)) :
    t'.srcRef = t.srcRef ∧ t'.obj.id = t.obj.id ∧ ∀ x ∈ calls, x.2.id = t.obj.id := by
  cases e with
  | removed now =>
    obtain ⟨rfl, rfl⟩ := Prod.mk.inj (Option.some.inj h)
    refine ⟨rfl, rfl, fun x hx => ?_⟩
    split at hx <;> simp_all
  | counts now read =>
    obtain ⟨rfl, rfl⟩ := Prod.mk.inj (Option.some.inj h)
    refine ⟨rfl, rfl, fun x hx => ?_⟩
    split at hx <;> simp_all
  | desc read =>
    obtain ⟨⟨b, obj⟩, hr, hb⟩ := Option.map_eq_some_iff.mp h
    have hid : obj.id = t.obj.id := (he t.obj b obj hr).1
    cases b with
    | false =>
      obtain ⟨rfl, rfl⟩ := Prod.mk.inj hb
      exact ⟨rfl, hid, by simp⟩
    | true =>
      obtain ⟨rfl, rfl⟩ := Prod.mk.inj hb
      refine ⟨rfl, by rw [NetstatSource.fixName_id]; exact hid, fun x hx => ?_⟩
      split at hx <;> simp_all

/-! ## the tracker -/

/-- one step: a message, one of the two sweeps, or anything else -/
inductive Input where
  | added (now : Time) (srcRef : UInt64) (providerId : UInt32)
  | message (srcRef : UInt64) (e : SrcEvent)
  | requestCounts (now : Time)
  | evict (now : Time)
  | other

def Input.Lawful : Input → Prop
  | message _ e => e.Lawful
  | _ => True

/-- memory that no `new` has given yet -/
def NetstatSource.blank : NetstatSource := { srcRef := 0, providerId := 0 }

/-- the object that `_resetSource` makes -/
def NetstatSource.fresh (now : Time) (srcRef : UInt64) (providerId : UInt32) : NetstatSource :=
  { srcRef, providerId, obj := { id := srcRef }, tsAdded := now }

/-- counts are wanted -/
def NetstatSource.marked (s : NetstatSource) : NetstatSource := { s with requestedCount := true }

@[simp] theorem NetstatSource.marked_marked (s : NetstatSource) : s.marked.marked = s.marked := rfl

structure Sources where
  heap : Ptr → NetstatSource := fun _ => .blank
  next : Ptr := 0
  map : UInt64 → Option Ptr := fun _ => none

namespace Sources
variable (s : Sources)

/-- `srcRef` gets a new object: it has none, or one that was removed -/
def Vacant (srcRef : UInt64) : Prop := ∀ p, s.map srcRef = some p → (s.heap p).tsRemoved > 0

/-- the object is in the map -/
def InMap (p : Ptr) : Prop := ∃ srcRef, s.map srcRef = some p

open Classical in
/-- `_updateWaitForCountsQueue` -/
noncomputable def markAll (now : Time) : Sources where
  heap p := if s.InMap p ∧ (s.heap p).wantsCount now then (s.heap p).marked else s.heap p
  next := s.next
  map := s.map

/-- `_removeOldSources` -/
def dropExpired (now : Time) : Sources where
  heap := s.heap
  next := s.next
  map r := (s.map r).filter fun p => !(s.heap p).expired now

open Classical in
/-- **One step of the tracker.** -/
noncomputable def step : Input → Option (Sources × List Shown)
  | .added now srcRef providerId =>
    some (if s.Vacant srcRef then
      { heap := Function.update s.heap s.next (.fresh now srcRef providerId)
        next := s.next + 1
        map := Function.update s.map srcRef (some s.next) } else s, [])
  | .message srcRef e =>
    match s.map srcRef with
    | none => some (s, [])
    | some p => (e.apply (s.heap p)).map fun r =>
      ({ s with heap := Function.update s.heap p r.1 }, r.2.map fun x => (p, x))
  | .requestCounts now => some (s.markAll now, [])
  | .evict now => some (s.dropExpired now, [])
  | .other => some (s, [])

theorem step_added_vacant {now : Time} {r : UInt64} {prov : UInt32} (hv : s.Vacant r) :
    s.step (.added now r prov) = some
      ({ heap := Function.update s.heap s.next (.fresh now r prov)
         next := s.next + 1
         map := Function.update s.map r (some s.next) }, []) := by
  simp only [step, if_pos hv]

theorem step_added_known {now : Time} {r : UInt64} {prov : UInt32} (hv : ¬ s.Vacant r) :
    s.step (.added now r prov) = some (s, []) := by
  simp only [step, if_neg hv]

theorem step_message_none {r : UInt64} (e : SrcEvent) (hm : s.map r = none) :
    s.step (.message r e) = some (s, []) := by
  simp only [step, hm]

theorem step_message_some {r : UInt64} {p : Ptr} (e : SrcEvent) (hm : s.map r = some p) :
    s.step (.message r e) = (e.apply (s.heap p)).map fun r =>
      ({ s with heap := Function.update s.heap p r.1 }, r.2.map fun x => (p, x)) := by
  simp only [step, hm]

/-- the steps of the tracker, one by one -/
inductive Moves : Input → Sources → List Shown → Prop
  | alloc {now r prov} (hv : s.Vacant r) :
    Moves (.added now r prov)
      { heap := Function.update s.heap s.next (.fresh now r prov)
        next := s.next + 1
        map := Function.update s.map r (some s.next) } []
  | known {now r prov p} (hm : s.map r = some p) (hp : ¬ (s.heap p).tsRemoved > 0) :
    Moves (.added now r prov) s []
  | unknown {r e} (hm : s.map r = none) : Moves (.message r e) s []
  | found {r e p t calls} (hm : s.map r = some p)
    (ha : SrcEvent.apply e (s.heap p) = some (t, calls)) :
    Moves (.message r e) { s with heap := Function.update s.heap p t } (calls.map fun x => (p, x))
  | requestCounts {now} : Moves (.requestCounts now) (s.markAll now) []
  | evict {now} : Moves (.evict now) (s.dropExpired now) []
  | other : Moves .other s []

variable {s} {s' : Sources} {i : Input} {shown : List Shown}

theorem not_vacant {r : UInt64} (h : ¬ s.Vacant r) :
    ∃ p, s.map r = some p ∧ ¬ (s.heap p).tsRemoved > 0 := by
  unfold Vacant at h
  push Not at h
  obtain ⟨p, hp, ht⟩ := h
  exact ⟨p, hp, not_lt.mpr ht⟩

theorem moves_of_step (h : s.step i = some (s', shown)) : s.Moves i s' shown := by
  cases i with
  | added now r prov =>
    by_cases hv : s.Vacant r
    · rw [step_added_vacant s hv] at h
      obtain ⟨rfl, rfl⟩ := Prod.mk.inj (Option.some.inj h)
      exact .alloc hv
    · rw [step_added_known s hv] at h
      obtain ⟨rfl, rfl⟩ := Prod.mk.inj (Option.some.inj h)
      obtain ⟨p, hp, ht⟩ := not_vacant hv
      exact .known hp ht
  | message r e =>
    cases hm : s.map r with
    | none =>
      rw [step_message_none s e hm] at h
      obtain ⟨rfl, rfl⟩ := Prod.mk.inj (Option.some.inj h)
      exact .unknown hm
    | some p =>
      rw [step_message_some s e hm] at h
      obtain ⟨⟨t, calls⟩, ha, hb⟩ := Option.map_eq_some_iff.mp h
      obtain ⟨rfl, rfl⟩ := Prod.mk.inj hb
      exact .found hm ha
  | requestCounts now =>
    obtain ⟨rfl, rfl⟩ := Prod.mk.inj (Option.some.inj h)
    exact .requestCounts
  | evict now =>
    obtain ⟨rfl, rfl⟩ := Prod.mk.inj (Option.some.inj h)
    exact .evict
  | other =>
    obtain ⟨rfl, rfl⟩ := Prod.mk.inj (Option.some.inj h)
    exact .other

/-- the map holds allocated objects, each under its own reference, which is the id of its stream;
the rest is blank -/
structure Coherent (s : Sources) : Prop where
  lt_next : ∀ {r p}, s.map r = some p → p < s.next
  srcRef : ∀ {r p}, s.map r = some p → (s.heap p).srcRef = r
  id : ∀ {r p}, s.map r = some p → (s.heap p).obj.id = r
  blank : ∀ {p}, s.next ≤ p → s.heap p = .blank

theorem coherent_init : Coherent {} where
  lt_next := by simp
  srcRef := by simp
  id := by simp
  blank := by simp

end Sources

/-! ## seen from one object -/

/-- what a step does to one object -/
inductive Act where
  | keep
  | alloc (now : Time) (srcRef : UInt64) (providerId : UInt32)
  | event (e : SrcEvent)
  | mark

def Act.apply : Act → NetstatSource → Option (NetstatSource × List (Callback × NTStatStream))
  | keep, s => some (s, [])
  | alloc now srcRef providerId, _ => some (.fresh now srcRef providerId, [])
  | event e, s => e.apply s
  | mark, s => some (s.marked, [])

/-- the calls through object `p` -/
def callsOf (p : Ptr) (shown : List Shown) : List (Callback × NTStatStream) :=
  shown.filterMap fun x => if x.1 = p then some x.2 else none

@[simp] theorem callsOf_nil (p : Ptr) : callsOf p [] = [] := rfl

@[simp] theorem callsOf_append (p : Ptr) (l l' : List Shown) :
    callsOf p (l ++ l') = callsOf p l ++ callsOf p l' := List.filterMap_append

theorem callsOf_map (p q : Ptr) (l : List (Callback × NTStatStream)) :
    callsOf p (l.map fun x => (q, x)) = if q = p then l else [] := by
  by_cases h : q = p <;> simp [callsOf, List.filterMap_map, h]

theorem mem_callsOf {p : Ptr} {l : List Shown} {x : Callback × NTStatStream} :
    x ∈ callsOf p l ↔ (p, x) ∈ l := by
  constructor
  · intro h
    obtain ⟨⟨q, y⟩, hm, e⟩ := List.mem_filterMap.mp h
    by_cases hq : q = p
    · obtain rfl : y = x := by simpa [hq] using e
      exact hq ▸ hm
    · simp [hq] at e
  · intro h
    exact List.mem_filterMap.mpr ⟨(p, x), h, by simp⟩

namespace Sources
variable {s s' : Sources} {i : Input} {shown : List Shown}

open Classical in
/-- the act of a step on object `p` -/
noncomputable def act (s : Sources) (p : Ptr) : Input → Act
  | .added now srcRef providerId =>
    if p = s.next ∧ s.Vacant srcRef then .alloc now srcRef providerId else .keep
  | .message srcRef e => if s.map srcRef = some p then .event e else .keep
  | .requestCounts now => if s.InMap p ∧ (s.heap p).wantsCount now then .mark else .keep
  | .evict _ => .keep
  | .other => .keep

/-- **A step of the tracker is one act on every object.** -/
theorem step_act (h : s.step i = some (s', shown)) (p : Ptr) :
    (s.act p i).apply (s.heap p) = some (s'.heap p, callsOf p shown) := by
  cases moves_of_step h with
  | @alloc now r prov hv =>
    by_cases hp : p = s.next
    · subst hp
      simp [act, hv, Act.apply]
    · simp [act, hp, Act.apply]
  | known hm hp =>
    have hv : ¬ s.Vacant _ := fun hv => hp (hv _ hm)
    simp [act, hv, Act.apply]
  | unknown hm => simp [act, hm, Act.apply]
  | @found r e q t calls hm ha =>
    rw [callsOf_map]
    by_cases hq : q = p
    · subst hq
      simp [act, hm, Act.apply, ha]
    · have hq' : p ≠ q := fun e => hq e.symm
      simp [act, hm, hq, hq', Act.apply]
  | @requestCounts now =>
    by_cases hm : s.InMap p ∧ (s.heap p).wantsCount now = true
    · simp [act, markAll, hm, Act.apply]
    · simp [act, markAll, hm, Act.apply]
  | evict => rfl
  | other => rfl

end Sources

/-! ## the invariant -/

namespace Sources
variable {s s' : Sources} {i : Input} {shown : List Shown}

/-- what the map holds after a step was there before, or is the new object -/
theorem map_step (h : s.step i = some (s', shown)) {r : UInt64} {p : Ptr}
    (hr : s'.map r = some p) : s.map r = some p ∨
      p = s.next ∧ s'.next = s.next + 1 ∧ ∃ now prov, i = .added now r prov ∧ s.Vacant r := by
  cases moves_of_step h with
  | @alloc now r' prov hv =>
    by_cases he : r = r'
    · subst he
      exact Or.inr ⟨by simpa using hr.symm, rfl, now, prov, rfl, hv⟩
    · exact Or.inl (by simpa [he] using hr)
  | evict => exact Or.inl (Option.filter_eq_some_iff.mp hr).1
  | _ => exact Or.inl hr

theorem next_step (h : s.step i = some (s', shown)) : s.next ≤ s'.next := by
  cases moves_of_step h with
  | alloc hv => exact Nat.le_succ _
  | _ => exact le_rfl

/-- an object in the map before a step keeps its reference and its id -/
theorem heap_step (hc : s.Coherent) (hi : i.Lawful) (h : s.step i = some (s', shown)) {r : UInt64}
    {p : Ptr} (hr : s.map r = some p) : (s'.heap p).srcRef = r ∧ (s'.heap p).obj.id = r := by
  have h0 : (s.heap p).srcRef = r ∧ (s.heap p).obj.id = r := ⟨hc.srcRef hr, hc.id hr⟩
  cases moves_of_step h with
  | alloc hv =>
    have hne : p ≠ s.next := Nat.ne_of_lt (hc.lt_next hr)
    simpa [hne] using h0
  | @found r' e q t calls hm ha =>
    by_cases hp : p = q
    · subst hp
      obtain ⟨h1, h2, -⟩ := e.apply_keeps hi ha
      simpa [h1, h2] using h0
    · simpa [hp] using h0
  | @requestCounts now =>
    unfold markAll
    dsimp only
    split
    · exact h0
    · exact h0
  | _ => exact h0

/-- a blank object was not touched -/
theorem blank_step (hc : s.Coherent) (h : s.step i = some (s', shown)) {p : Ptr}
    (hp : s'.next ≤ p) : s'.heap p = .blank := by
  have h0 : s.heap p = .blank := hc.blank (le_trans (next_step h) hp)
  have hin : ∀ r, s.map r ≠ some p := fun r hr =>
    absurd (lt_of_lt_of_le (hc.lt_next hr) (next_step h)) (not_lt.mpr hp)
  cases moves_of_step h with
  | alloc hv =>
    have hne : p ≠ s.next := by rintro rfl; exact absurd hp (by simp)
    simpa [hne] using h0
  | @found r e q t calls hm ha =>
    have hne : p ≠ q := by rintro rfl; exact hin r hm
    simpa [hne] using h0
  | @requestCounts now =>
    have hn : ¬ (s.InMap p ∧ (s.heap p).wantsCount now = true) := fun ⟨⟨r, hr⟩, _⟩ => hin r hr
    simpa [markAll, hn] using h0
  | _ => exact h0

/-- **Every step keeps the invariant.** -/
theorem step_coherent (hc : s.Coherent) (hi : i.Lawful) (h : s.step i = some (s', shown)) :
    s'.Coherent := by
  have key : ∀ {r p}, s'.map r = some p →
      p < s'.next ∧ (s'.heap p).srcRef = r ∧ (s'.heap p).obj.id = r := by
    intro r p hr
    rcases map_step h hr with hr' | ⟨rfl, hn, now, prov, rfl, hv⟩
    · exact ⟨lt_of_lt_of_le (hc.lt_next hr') (next_step h), heap_step hc hi h hr'⟩
    · refine ⟨by rw [hn]; exact Nat.lt_succ_self _, ?_⟩
      have ha := step_act h s.next
      rw [show s.act s.next (.added now r prov) = .alloc now r prov by simp [act, hv]] at ha
      obtain ⟨ha, -⟩ := Prod.mk.inj (Option.some.inj ha)
      rw [← ha]
      exact ⟨rfl, rfl⟩
  exact ⟨fun hr => (key hr).1, fun hr => (key hr).2.1, fun hr => (key hr).2.2, blank_step hc h⟩

end Sources

end Ntstat
