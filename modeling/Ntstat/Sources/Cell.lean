import Ntstat.Sources.Tracker

/-!
# The tracker seen from one reference

`Sources.cell r` is the source that `r` names, if any.

* `cellStep`        the step of one cell on its own, `CellMoves` its cases;
* `step_cell`       a step of the tracker is a step of every cell, and what the listener is told
                    about the id `r` comes from the cell of `r`;
* `step_of_cell`    a step has a result if it has one for the cell that its message is about.
-/

namespace Ntstat
open Memory

/-- what the listener is told -/
abbrev Call := Callback × NTStatStream

/-- the calls about the stream with id `r` -/
def callsFor (r : UInt64) (shown : List Shown) : List Call :=
  shown.filterMap fun x => if x.2.2.id = r then some x.2 else none

@[simp] theorem callsFor_nil (r : UInt64) : callsFor r [] = [] := rfl

/-- calls through one object that are about the id `r0` -/
theorem callsFor_map {r r0 : UInt64} {p : Ptr} {l : List Call} (h : ∀ x ∈ l, x.2.id = r0) :
    callsFor r (l.map fun x => (p, x)) = if r0 = r then l else [] := by
  unfold callsFor
  rw [List.filterMap_map]
  induction l with
  | nil => simp
  | cons x l ih =>
    have hx : x.2.id = r0 := h x List.mem_cons_self
    have ih' := ih fun y hy => h y (List.mem_cons_of_mem _ hy)
    by_cases hr : r0 = r
    · rw [if_pos hr] at ih' ⊢
      rw [List.filterMap_cons, ih']
      simp [hx, hr]
    · rw [if_neg hr] at ih' ⊢
      rw [List.filterMap_cons, ih']
      simp [hx, hr]

/-- the step of the cell of `r` -/
def cellStep (r : UInt64) (c : Option NetstatSource) :
    Input → Option (Option NetstatSource × List Call)
  | .added now srcRef providerId =>
    if srcRef = r then
      match c with
      | some t =>
        if t.tsRemoved > 0 then some (some (.fresh now r providerId), []) else some (c, [])
      | none => some (some (.fresh now r providerId), [])
    else some (c, [])
  | .message srcRef e =>
    if srcRef = r then
      match c with
      | some t => (e.apply t).map fun x => (some x.1, x.2)
      | none => some (none, [])
    else some (c, [])
  | .requestCounts now => some (c.map fun t => if t.wantsCount now then t.marked else t, [])
  | .evict now => some (c.filter fun t => !t.expired now, [])
  | .other => some (c, [])

section
variable {r r' : UInt64} {c : Option NetstatSource} {t : NetstatSource} {now : Time} {prov : UInt32}
  {e : SrcEvent}

theorem cellStep_added_ne (hr : r' ≠ r) : cellStep r c (.added now r' prov) = some (c, []) :=
  if_neg hr

/-- a reference that names nothing, or a removed source, gets a new one -/
theorem cellStep_added_fresh (h : ∀ t, c = some t → t.tsRemoved > 0) :
    cellStep r c (.added now r prov) = some (some (.fresh now r prov), []) := by
  refine (if_pos rfl).trans ?_
  cases c with
  | none => rfl
  | some t => exact if_pos (h t rfl)

theorem cellStep_added_kept (h : ¬ t.tsRemoved > 0) :
    cellStep r (some t) (.added now r prov) = some (some t, []) := (if_pos rfl).trans (if_neg h)

theorem cellStep_message_ne (hr : r' ≠ r) : cellStep r c (.message r' e) = some (c, []) :=
  if_neg hr

theorem cellStep_message_some :
    cellStep r (some t) (.message r e) = (e.apply t).map fun x => (some x.1, x.2) := if_pos rfl

theorem cellStep_message_none : cellStep r none (.message r e) = some (none, []) := if_pos rfl

end

/-- the steps of a cell, one by one -/
inductive CellMoves (r : UInt64) :
    Option NetstatSource → Input → Option NetstatSource → List Call → Prop
  | fresh {c now prov} (hf : ∀ t, c = some t → t.tsRemoved > 0) :
    CellMoves r c (.added now r prov) (some (.fresh now r prov)) []
  | kept {t now prov} (ht : ¬ t.tsRemoved > 0) :
    CellMoves r (some t) (.added now r prov) (some t) []
  | addedOther {c now r' prov} (hr : r' ≠ r) : CellMoves r c (.added now r' prov) c []
  | unknown {e} : CellMoves r none (.message r e) none []
  | found {t e x} (hx : SrcEvent.apply e t = some x) :
    CellMoves r (some t) (.message r e) (some x.1) x.2
  | messageOther {c r' e} (hr : r' ≠ r) : CellMoves r c (.message r' e) c []
  | requestCounts {c now} :
    CellMoves r c (.requestCounts now) (c.map fun t => if t.wantsCount now then t.marked else t) []
  | evict {c now} : CellMoves r c (.evict now) (c.filter fun t => !t.expired now) []
  | other {c} : CellMoves r c .other c []

theorem cellMoves_of_step {r : UInt64} {i : Input} {c c' : Option NetstatSource}
    {shown : List Call} (h : cellStep r c i = some (c', shown)) : CellMoves r c i c' shown := by
  cases i with
  | added now r' prov =>
    by_cases hr : r' = r
    · subst hr
      by_cases hf : ∀ t, c = some t → t.tsRemoved > 0
      · rw [cellStep_added_fresh hf] at h
        obtain ⟨rfl, rfl⟩ := Prod.mk.inj (Option.some.inj h)
        exact .fresh hf
      · push Not at hf
        obtain ⟨t, rfl, ht⟩ := hf
        rw [cellStep_added_kept (Int.not_lt.mpr ht)] at h
        obtain ⟨rfl, rfl⟩ := Prod.mk.inj (Option.some.inj h)
        exact .kept (Int.not_lt.mpr ht)
    · rw [cellStep_added_ne hr] at h
      obtain ⟨rfl, rfl⟩ := Prod.mk.inj (Option.some.inj h)
      exact .addedOther hr
  | message r' e =>
    by_cases hr : r' = r
    · subst hr
      cases c with
      | none =>
        rw [cellStep_message_none] at h
        obtain ⟨rfl, rfl⟩ := Prod.mk.inj (Option.some.inj h)
        exact .unknown
      | some t =>
        rw [cellStep_message_some] at h
        obtain ⟨x, hx, he⟩ := Option.map_eq_some_iff.mp h
        obtain ⟨rfl, rfl⟩ := Prod.mk.inj he
        exact .found hx
    · rw [cellStep_message_ne hr] at h
      obtain ⟨rfl, rfl⟩ := Prod.mk.inj (Option.some.inj h)
      exact .messageOther hr
  | requestCounts now =>
    obtain ⟨rfl, rfl⟩ := Prod.mk.inj (Option.some.inj h)
    exact .requestCounts
  | evict now =>
    obtain ⟨rfl, rfl⟩ := Prod.mk.inj (Option.some.inj h)
    exact .evict
  | other =>
    obtain ⟨rfl, rfl⟩ := Prod.mk.inj (Option.some.inj h)
    exact .other

namespace Sources
variable {s s' : Sources} {i : Input} {shown : List Shown}

/-- the source that `r` names -/
def cell (s : Sources) (r : UInt64) : Option NetstatSource := (s.map r).map s.heap

theorem cell_some {r : UInt64} {p : Ptr} (h : s.map r = some p) : s.cell r = some (s.heap p) := by
  simp [cell, h]

theorem cell_none {r : UInt64} (h : s.map r = none) : s.cell r = none := by
  simp [cell, h]

theorem vacant_iff {r : UInt64} : s.Vacant r ↔ ∀ t, s.cell r = some t → t.tsRemoved > 0 := by
  simp [Vacant, cell]

/-- writing the object of another reference -/
theorem cell_update (hc : s.Coherent) {r r' : UInt64} {p : Ptr} (hm : s.map r' = some p)
    (hr : r' ≠ r) (t : NetstatSource) :
    ({ s with heap := Function.update s.heap p t } : Sources).cell r = s.cell r := by
  unfold cell
  dsimp only
  cases hq : s.map r with
  | none => rfl
  | some q =>
    have hne : q ≠ p := by
      rintro rfl
      exact hr ((hc.srcRef hm).symm.trans (hc.srcRef hq))
    simp [hne]

/-- a new object, under the reference that it is stored for -/
theorem cell_alloc (r : UInt64) (t : NetstatSource) :
    Sources.cell
      { heap := Function.update s.heap s.next t
        next := s.next + 1
        map := Function.update s.map r (some s.next) } r = some t := by
  simp [cell]

/-- the other references do not name it -/
theorem cell_alloc_ne (hc : s.Coherent) {r r' : UInt64} (hr : r' ≠ r) (t : NetstatSource) :
    Sources.cell
      { heap := Function.update s.heap s.next t
        next := s.next + 1
        map := Function.update s.map r' (some s.next) } r = s.cell r := by
  unfold cell
  dsimp only
  rw [Function.update_of_ne (Ne.symm hr)]
  cases hq : s.map r with
  | none => rfl
  | some q => simp [Nat.ne_of_lt (hc.lt_next hq)]

/-- **A step of the tracker is a step of every cell.** -/
theorem step_cell (hc : s.Coherent) (hi : i.Lawful) (h : s.step i = some (s', shown))
    (r : UInt64) : cellStep r (s.cell r) i = some (s'.cell r, callsFor r shown) := by
  cases moves_of_step h with
  | @alloc now r' prov hv =>
    by_cases hr : r' = r
    · subst hr
      rw [cell_alloc]
      exact cellStep_added_fresh (vacant_iff.mp hv)
    · rw [cell_alloc_ne hc hr]
      exact cellStep_added_ne hr
  | @known now r' prov p hm hp =>
    by_cases hr : r' = r
    · subst hr
      rw [cell_some hm]
      exact cellStep_added_kept hp
    · exact cellStep_added_ne hr
  | @unknown r' e hm =>
    by_cases hr : r' = r
    · subst hr
      rw [cell_none hm]
      exact cellStep_message_none
    · exact cellStep_message_ne hr
  | @found r' e p t calls hm ha =>
    obtain ⟨_, _, hid⟩ := e.apply_keeps hi ha
    rw [hc.id hm] at hid
    rw [callsFor_map hid]
    by_cases hr : r' = r
    · subst hr
      have hcell : ({ s with heap := Function.update s.heap p t } : Sources).cell r' = some t := by
        simp [cell, hm]
      rw [hcell, if_pos rfl, cell_some hm, cellStep_message_some, ha, Option.map_some]
    · rw [cell_update hc hm hr, if_neg hr]
      exact cellStep_message_ne hr
  | @requestCounts now =>
    unfold cellStep cell markAll
    dsimp only
    cases hq : s.map r with
    | none => rfl
    | some q => simp [show s.InMap q from ⟨r, hq⟩]
  | @evict now =>
    unfold cellStep cell dropExpired
    dsimp only
    cases hq : s.map r with
    | none => rfl
    | some q => by_cases he : (s.heap q).expired now = true <;> simp [Option.filter, he]
  | other => rfl

/-- a step has a result if the cell that it is about can take it -/
theorem step_of_cell (h : ∀ r e, i = .message r e → (cellStep r (s.cell r) i).isSome) :
    ∃ s' shown, s.step i = some (s', shown) := by
  cases i with
  | message r e =>
    cases hm : s.map r with
    | none => exact ⟨_, _, step_message_none s e hm⟩
    | some p =>
      have hr := h r e rfl
      rw [cell_some hm, cellStep_message_some, Option.isSome_map] at hr
      obtain ⟨x, hx⟩ := Option.isSome_iff_exists.mp hr
      exact ⟨_, _, by rw [step_message_some s e hm, hx, Option.map_some]⟩
  | _ => exact ⟨_, _, rfl⟩

end Sources

end Ntstat
