import Ntstat.Sources.History

/-!
# Sources that are found, and sources that wait

* `Kept`, `kept_step`     a source that was not removed is found under its reference;
* `waitsDesc`             who waits for a description after a step;
* `waits_step`            the sources that wait are found, not removed and not described;
* `undescribed_step`      a source stops waiting only if it is removed, or a description for it is
                          handled.
-/

namespace Ntstat
open Memory Machine

/-- whether handling the message takes its source off the wait for a description -/
def SrcEvent.endsWait : SrcEvent → Bool
  | removed _ => true
  | desc _ => true
  | counts _ _ => false

/-- the source that waits under `k` for its description after the step from `s` to `s'`, if `w` did
before -/
def Sources.waitsDesc (s s' : Sources) (i : Input) (k : UInt64) (w : Option Ptr) : Option Ptr :=
  match i with
  | .added _ r _ => if k = r then ((s'.map r).filter fun p => !(s'.heap p).haveDesc).or w else w
  | .message r e => if k = r ∧ (s.map r).isSome ∧ e.endsWait then none else w
  | _ => w

namespace Sources
variable {s s' : Sources} {i : Input} {p : Ptr} {shown : List Shown} {k : UInt64}

/-- a SRC_DESC for `p` is rejected -/
def Rejects (s : Sources) (i : Input) (p : Ptr) : Prop :=
  ∃ read obj, s.Handles i p (.desc read) ∧ read (s.heap p).obj = some (false, obj)

theorem accepts_or_rejects {read : NTStatStream → Option (Bool × NTStatStream)}
    (hh : s.Handles i p (.desc read)) (h : s.step i = some (s', shown)) :
    (∃ obj, s.Accepts i p obj) ∨ s.Rejects i p := by
  have ha := step_act h p
  rw [act_event.mpr hh] at ha
  obtain ⟨⟨b, obj⟩, hr, -⟩ := Option.map_eq_some_iff.mp ha
  cases b with
  | true => exact Or.inl ⟨_, read, obj, hh, hr, rfl⟩
  | false => exact Or.inr ⟨read, obj, hh, hr⟩

/-! ## sources that are found -/

/-- no time of removal is negative, and a source without one is found under its reference -/
structure Kept (s : Sources) : Prop where
  nonneg : ∀ p, 0 ≤ (s.heap p).tsRemoved
  found : ∀ p < s.next, (s.heap p).tsRemoved = 0 → s.map (s.heap p).srcRef = some p

theorem kept_init : Kept {} := ⟨fun _ => le_rfl, fun _ h => absurd h (Nat.not_lt_zero _)⟩

/-- an object keeps its reference -/
theorem srcRef_step (hp : p < s.next) (h : s.step i = some (s', shown)) :
    (s'.heap p).srcRef = (s.heap p).srcRef := by
  have ht := touch_of_step h p
  generalize s'.heap p = t at ht ⊢
  generalize callsOf p shown = calls at ht
  cases ht with
  | alloc hn he => exact absurd (he ▸ hp) (lt_irrefl _)
  | _ => rfl

/-- what is found and not removed stays -/
theorem map_keeps (h : s.step i = some (s', shown)) (hm : s.map k = some p)
    (h0 : (s.heap p).tsRemoved = 0) : s'.map k = some p := by
  cases moves_of_step h with
  | @alloc now r prov hv =>
    by_cases hr : k = r
    · subst hr
      exact absurd (hv p hm) (by simp [h0])
    · simpa [hr] using hm
  | @evict now =>
    unfold dropExpired NetstatSource.expired
    dsimp only
    rw [hm, Option.filter_some, h0]
    rfl
  | _ => exact hm

/-- a removal at a positive time shows -/
theorem not_removes_of_zero (hpos : ∀ p now, s.Handles i p (.removed now) → 0 < now)
    (h : s.step i = some (s', shown)) (h0 : (s'.heap p).tsRemoved = 0) : ¬ s.Removes i p := by
  intro hr
  obtain ⟨now, hh⟩ := hr
  have ha := step_act h p
  rw [act_event.mpr hh] at ha
  rw [← (Prod.mk.inj (Option.some.inj ha)).1] at h0
  exact absurd h0 (ne_of_gt (hpos p now hh))

/-- **Every step keeps the sources that are not removed.** -/
theorem kept_step (hc : s.Coherent) (hi : i.Lawful) (hk : s.Kept)
    (hpos : ∀ p now, s.Handles i p (.removed now) → 0 < now) (h : s.step i = some (s', shown)) :
    s'.Kept := by
  refine ⟨fun p => ?_, fun p hp h0 => ?_⟩
  · by_cases hr : s.Removes i p
    · obtain ⟨now, hh⟩ := hr
      have ha := step_act h p
      rw [act_event.mpr hh] at ha
      rw [← (Prod.mk.inj (Option.some.inj ha)).1]
      exact le_of_lt (hpos p now hh)
    · rw [tsRemoved_step hc h p hr]
      exact hk.nonneg p
  · rcases creates_of_next h hp with hp | ⟨now, r, hcr⟩
    · rw [tsRemoved_step hc h p (not_removes_of_zero hpos h h0)] at h0
      have hm := hk.found p hp h0
      rw [(heap_step hc hi h hm).1]
      exact map_keeps h hm h0
    · obtain ⟨prov, rfl, hv, rfl⟩ := hcr
      rw [step_added_vacant s hv] at h
      obtain ⟨rfl, -⟩ := Prod.mk.inj (Option.some.inj h)
      simp [NetstatSource.fresh]

/-! ## sources that wait for a description -/

/-- what waits is found, not removed and not described -/
def Waits (s : Sources) (w : UInt64 → Option Ptr) : Prop :=
  ∀ k p, w k = some p → s.map k = some p ∧ (s.heap p).tsRemoved = 0 ∧ (s.heap p).haveDesc = false

theorem Waits.mono {w w' : UInt64 → Option Ptr} (hw : s.Waits w)
    (h : ∀ k p, w' k = some p → w k = some p) : s.Waits w' := fun k p hp => hw k p (h k p hp)

/-- a source goes on waiting unless a message ends its wait -/
theorem waits_keep (hc : s.Coherent) (h : s.step i = some (s', shown)) (hm : s.map k = some p)
    (h0 : (s.heap p).tsRemoved = 0) (hd : (s.heap p).haveDesc = false)
    (hn : ∀ e, s.Handles i p e → e.endsWait = false) :
    s'.map k = some p ∧ (s'.heap p).tsRemoved = 0 ∧ (s'.heap p).haveDesc = false := by
  have hr : ¬ s.Removes i p := by
    intro hr
    obtain ⟨now, hh⟩ := hr
    exact absurd (hn _ hh) Bool.true_eq_false.mp
  have ha : ¬ ∃ obj, s.Accepts i p obj := by
    intro ha
    obtain ⟨obj, read, obj0, hh, -⟩ := ha
    exact absurd (hn _ hh) Bool.true_eq_false.mp
  refine ⟨map_keeps h hm h0, (tsRemoved_step hc h p hr).trans h0, ?_⟩
  refine Bool.eq_false_iff.mpr fun hd' => ?_
  rcases (flags_step hc h p).2.mp hd' with hd' | hd'
  · rw [hd] at hd'
    cases hd'
  · exact ha hd'

/-- what waits did so before or is found -/
theorem waitsDesc_some {w : Option Ptr} (h : s.waitsDesc s' i k w = some p) :
    w = some p ∨ s'.map k = some p := by
  unfold waitsDesc at h
  split at h
  · split at h
    · next hr =>
      subst hr
      rcases Option.or_eq_some_iff.mp h with h | ⟨-, h⟩
      · exact Or.inr (Option.filter_eq_some_iff.mp h).1
      · exact Or.inl h
    · exact Or.inl h
  · split at h
    · cases h
    · exact Or.inl h
  · exact Or.inl h

/-- **Every step keeps what waits found, not removed and not described.** -/
theorem waits_step (hc : s.Coherent) (hk : s.Kept) (h : s.step i = some (s', shown))
    {w : UInt64 → Option Ptr} (hw : s.Waits w) :
    s'.Waits fun k => s.waitsDesc s' i k (w k) := by
  intro k p hp
  have hkeep : (∀ e, s.Handles i p e → e.endsWait = false) → w k = some p →
      s'.map k = some p ∧ (s'.heap p).tsRemoved = 0 ∧ (s'.heap p).haveDesc = false := by
    intro hn hwk
    obtain ⟨h1, h2, h3⟩ := hw k p hwk
    exact waits_keep hc h h1 h2 h3 hn
  unfold waitsDesc at hp
  cases i with
  | added now r prov =>
    have hn : ∀ e, s.Handles (.added now r prov) p e → e.endsWait = false := fun e he => by
      obtain ⟨_, he, _⟩ := he
      cases he
    dsimp only at hp
    split at hp
    · next hr =>
      subst hr
      rcases Option.or_eq_some_iff.mp hp with hf | ⟨-, hwk⟩
      · -- a new source, or one that was found again
        obtain ⟨hm, hd⟩ := Option.filter_eq_some_iff.mp hf
        refine ⟨hm, ?_, by simpa using hd⟩
        cases moves_of_step h with
        | alloc hv =>
          obtain rfl : s.next = p := by simpa using hm
          simp [NetstatSource.fresh]
        | known hm' hp' =>
          rw [hm'] at hm
          obtain rfl := Option.some.inj hm
          exact le_antisymm (not_lt.mp hp') (hk.nonneg _)
      · exact hkeep hn hwk
    · exact hkeep hn hp
  | message r e =>
    dsimp only at hp
    split at hp
    · cases hp
    · next hne =>
      refine hkeep (fun e' he' => ?_) hp
      obtain ⟨r', he, hm⟩ := he'
      obtain ⟨rfl, rfl⟩ := Input.message.inj he
      have hkr : k = r := (hc.srcRef (hw k p hp).1).symm.trans (hc.srcRef hm)
      refine Bool.eq_false_iff.mpr fun hends => hne ⟨hkr, ?_, hends⟩
      rw [hm]
      rfl
  | _ =>
    refine hkeep (fun e he => ?_) hp
    obtain ⟨_, he, _⟩ := he
    cases he

/-- a source without a description waits after a step if it was just made, or if it did before and
no description for it was rejected -/
theorem undescribed_step (hc : s.Coherent)
    (hpos : ∀ p now, s.Handles i p (.removed now) → 0 < now) (h : s.step i = some (s', shown))
    (hm : s'.map k = some p) (h0 : (s'.heap p).tsRemoved = 0)
    (hd : (s'.heap p).haveDesc = false) (w : Option Ptr) :
    s.waitsDesc s' i k w = some p ∨
      (s.map k = some p ∧ (s.heap p).tsRemoved = 0 ∧ (s.heap p).haveDesc = false) ∧
        (w = some p → s.Rejects i p) := by
  have hfilter : ((s'.map k).filter fun p => !(s'.heap p).haveDesc) = some p := by
    rw [hm, Option.filter_some, hd]
    rfl
  rcases map_step h hm with hm0 | ⟨rfl, -, now, prov, rfl, -⟩
  · have hr := not_removes_of_zero hpos h h0
    have ha : ¬ ∃ obj, s.Accepts i p obj := by
      intro ha
      rw [(flags_step hc h p).2.mpr (Or.inr ha)] at hd
      cases hd
    have hd0 : (s.heap p).haveDesc = false := by
      refine Bool.eq_false_iff.mpr fun hd0 => ?_
      rw [(flags_step hc h p).2.mpr (Or.inl hd0)] at hd
      cases hd
    by_cases hh : ∃ read, s.Handles i p (.desc read)
    · obtain ⟨read, hh⟩ := hh
      have hrej := (accepts_or_rejects hh h).resolve_left ha
      exact Or.inr ⟨⟨hm0, (tsRemoved_step hc h p hr).symm.trans h0, hd0⟩, fun _ => hrej⟩
    · by_cases hw : w = some p
      · left
        unfold waitsDesc
        cases i with
        | added now r prov =>
          dsimp only
          split
          · next he =>
            subst he
            rw [hfilter, Option.some_or]
          · exact hw
        | message r e =>
          dsimp only
          split
          · next he =>
            obtain ⟨rfl, -, hends⟩ := he
            cases e with
            | removed now => exact absurd ⟨now, k, rfl, hm0⟩ hr
            | desc read => exact absurd ⟨read, k, rfl, hm0⟩ hh
            | counts now read => cases hends
          · exact hw
        | _ => exact hw
      · exact Or.inr ⟨⟨hm0, (tsRemoved_step hc h p hr).symm.trans h0, hd0⟩, fun h => absurd h hw⟩
  · left
    unfold waitsDesc
    dsimp only
    rw [if_pos rfl, hfilter, Option.some_or]

end Sources

end Ntstat
