import Ntstat.Sources.Tracker

/-!
# The sources since some time

`Sources.since n` leaves out the objects that were allocated before the pointer `n`.

* `Meets`        a step finds an older object;
* `run_apart`    it does not in a run about references that no older object has;
* `since_step`   a step that does not is a step of the younger objects on their own;
* `since_run`    and so is a run of such steps.
-/

namespace Ntstat
open Machine

/-- the reference that an input is about -/
def Input.about : Input → Option UInt64
  | message r _ => some r
  | added _ r _ => some r
  | _ => none

namespace Sources

/-- the objects from `n` on, at the pointers that they would have if there were no others -/
def since (s : Sources) (n : Ptr) : Sources where
  heap p := s.heap (p + n)
  next := s.next - n
  map r := (s.map r).bind fun p => if n ≤ p then some (p - n) else none

/-- the step finds an object older than `n`: a message is about it, or it is added and not new -/
def Meets (n : Ptr) (s : Sources) : Input → Prop
  | .message r _ => ∃ p < n, s.map r = some p
  | .added _ r _ => ∃ p < n, s.map r = some p ∧ ¬ (s.heap p).tsRemoved > 0
  | _ => False

variable {s s' : Sources} {n : Ptr} {i : Input} {r : UInt64} {p : Ptr}

theorem since_map_none (h : s.map r = none) : (s.since n).map r = none := by
  show (s.map r).bind _ = none
  rw [h, Option.bind_none]

theorem since_map_old (h : s.map r = some p) (hp : p < n) : (s.since n).map r = none := by
  show (s.map r).bind _ = none
  rw [h, Option.bind_some, if_neg (Nat.not_le.mpr hp)]

theorem since_map_new (h : s.map r = some p) (hp : n ≤ p) : (s.since n).map r = some (p - n) := by
  show (s.map r).bind _ = _
  rw [h, Option.bind_some, if_pos hp]

theorem since_heap (hp : n ≤ p) : (s.since n).heap (p - n) = s.heap p := by
  show s.heap (p - n + n) = _
  rw [Nat.sub_add_cancel hp]

theorem since_map_some {q : Ptr} (h : (s.since n).map r = some q) : s.map r = some (q + n) := by
  obtain ⟨p, hm, hp⟩ := Option.bind_eq_some_iff.mp h
  by_cases hn : n ≤ p
  · rw [if_pos hn] at hp
    obtain rfl := Option.some.inj hp
    rw [Nat.sub_add_cancel hn]
    exact hm
  · rw [if_neg hn] at hp
    cases hp

/-- nothing is left of the objects of a coherent tracker -/
theorem since_next (hc : s.Coherent) : s.since s.next = {} := by
  unfold since
  rw [Sources.mk.injEq]
  refine ⟨funext fun p => hc.blank (Nat.le_add_left _ _), Nat.sub_self _, funext fun r => ?_⟩
  cases hm : s.map r with
  | none => rfl
  | some p => exact if_neg (Nat.not_le.mpr (hc.lt_next hm))

/-- writing to a younger object -/
theorem since_write (hp : n ≤ p) (t : NetstatSource) :
    ({ s with heap := Function.update s.heap p t } : Sources).since n =
      { s.since n with heap := Function.update (s.since n).heap (p - n) t } := by
  unfold since
  rw [Sources.mk.injEq]
  refine ⟨funext fun q => ?_, rfl, rfl⟩
  dsimp only
  by_cases hq : q = p - n
  · subst hq
    rw [Nat.sub_add_cancel hp, Function.update_self, Function.update_self]
  · have hne : q + n ≠ p := fun he => hq (Nat.eq_sub_of_add_eq he)
    rw [Function.update_of_ne hq, Function.update_of_ne hne]

/-- a new object is a younger one -/
theorem since_alloc (hn : n ≤ s.next) (t : NetstatSource) :
    ({ heap := Function.update s.heap s.next t
       next := s.next + 1
       map := Function.update s.map r (some s.next) } : Sources).since n =
      { heap := Function.update (s.since n).heap (s.since n).next t
        next := (s.since n).next + 1
        map := Function.update (s.since n).map r (some (s.since n).next) } := by
  have hheap := congrArg Sources.heap (since_write (s := s) hn t)
  rw [Sources.mk.injEq]
  refine ⟨hheap, Nat.succ_sub hn, funext fun q => ?_⟩
  show (Function.update s.map r (some s.next) q).bind _ = _
  by_cases hq : q = r
  · subst hq
    rw [Function.update_self, Function.update_self, Option.bind_some, if_pos hn]
    rfl
  · rw [Function.update_of_ne hq, Function.update_of_ne hq]
    rfl

theorem since_markAll (now : Time) : (s.markAll now).since n = (s.since n).markAll now := by
  unfold markAll
  rw [Sources.mk.injEq]
  refine ⟨funext fun q => ?_, rfl, rfl⟩
  have hin : (s.since n).InMap q ↔ s.InMap (q + n) := by
    constructor
    · intro hex
      obtain ⟨r, hr⟩ := hex
      exact ⟨r, since_map_some hr⟩
    · intro hex
      obtain ⟨r, hr⟩ := hex
      refine ⟨r, (since_map_new hr (Nat.le_add_left _ _)).trans ?_⟩
      rw [Nat.add_sub_cancel]
  rw [hin]
  rfl

theorem since_dropExpired (now : Time) :
    (s.dropExpired now).since n = (s.since n).dropExpired now := by
  unfold dropExpired
  rw [Sources.mk.injEq]
  refine ⟨rfl, rfl, funext fun r => ?_⟩
  show ((s.map r).filter _).bind _ = ((s.since n).map r).filter _
  cases hm : s.map r with
  | none =>
    rw [since_map_none hm]
    rfl
  | some p =>
    by_cases hp : n ≤ p
    · rw [since_map_new hm hp]
      simp only [Option.filter_some, since_heap hp]
      split
      · exact if_pos hp
      · rfl
    · rw [since_map_old hm (Nat.not_le.mp hp)]
      rw [Option.filter_some]
      split
      · exact if_neg hp
      · rfl

/-- **A step that meets no older object is a step of the younger ones.** -/
theorem since_step (hn : n ≤ s.next) (h : ¬ s.Meets n i) : (s.since n).step i =
    (s.step i).map fun x => (x.1.since n, x.2.map fun y => (y.1 - n, y.2)) := by
  cases i with
  | added now r prov =>
    by_cases hv : s.Vacant r
    · have hv' : (s.since n).Vacant r := by
        intro q hq
        exact hv _ (since_map_some hq)
      rw [step_added_vacant s hv, step_added_vacant _ hv', Option.map_some, since_alloc hn]
      rfl
    · obtain ⟨p, hm, ht⟩ := not_vacant hv
      have hp : n ≤ p := Nat.not_lt.mp fun hp => h ⟨p, hp, hm, ht⟩
      have hv' : ¬ (s.since n).Vacant r := by
        intro hv'
        have hr := hv' _ (since_map_new hm hp)
        rw [since_heap hp] at hr
        exact ht hr
      rw [step_added_known s hv, step_added_known _ hv']
      rfl
  | message r e =>
    cases hm : s.map r with
    | none =>
      rw [step_message_none s e hm, step_message_none _ e (since_map_none hm)]
      rfl
    | some p =>
      have hp : n ≤ p := Nat.not_lt.mp fun hp => h ⟨p, hp, hm⟩
      rw [step_message_some s e hm, step_message_some _ e (since_map_new hm hp), since_heap hp,
        Option.map_map]
      refine congrArg (fun f => Option.map f (e.apply (s.heap p))) (funext fun x => ?_)
      refine Prod.ext (since_write hp x.1).symm ?_
      show _ = List.map _ (List.map _ x.2)
      rw [List.map_map]
      rfl
  | requestCounts now => exact congrArg (fun s => some (s, [])) (since_markAll now).symm
  | evict now => exact congrArg (fun s => some (s, [])) (since_dropExpired now).symm
  | other => rfl

theorem not_meets (h : ∀ r, i.about = some r → ∀ p, s.map r = some p → n ≤ p) :
    ¬ s.Meets n i := by
  intro hm
  cases i with
  | message r e =>
    obtain ⟨p, hp, hr⟩ := hm
    exact absurd hp (Nat.not_lt.mpr (h r rfl p hr))
  | added now r prov =>
    obtain ⟨p, hp, hr, -⟩ := hm
    exact absurd hp (Nat.not_lt.mpr (h r rfl p hr))
  | _ => exact hm

/-- a reference that no older object has stays one -/
theorem run_younger {is : List Input} {shown : List Shown} (hn : n ≤ s.next)
    (hm : ∀ p, s.map r = some p → n ≤ p) (h : exec step s is = some (s', shown)) :
    n ≤ s'.next ∧ ∀ p, s'.map r = some p → n ≤ p := by
  refine exec_inv (P := fun _ s _ => n ≤ s.next ∧ ∀ p, s.map r = some p → n ≤ p) ⟨hn, hm⟩ ?_ h
  intro _ s1 _ i s2 o2 _ hP hst
  obtain ⟨hn1, hm1⟩ := hP
  refine ⟨hn1.trans (next_step hst), fun p hr => ?_⟩
  rcases map_step hst hr with hr | ⟨rfl, -⟩
  · exact hm1 p hr
  · exact hn1

/-- a run about such references meets no older object -/
theorem run_apart {is : List Input} (hn : n ≤ s.next)
    (h : ∀ i ∈ is, ∀ r, i.about = some r → ∀ p, s.map r = some p → n ≤ p) :
    ¬ Sometime step s is fun _ s i => s.Meets n i := by
  intro hex
  obtain ⟨pre, i, post, s1, o1, rfl, hpre, hmeets⟩ := hex
  refine not_meets (fun r hr => ?_) hmeets
  exact (run_younger hn (h i (by simp) r hr) hpre).2

/-- **A run that meets no older object is a run of the younger ones.** -/
theorem since_run {is : List Input} (hn : n ≤ s.next)
    (h : ¬ Sometime step s is fun _ s i => s.Meets n i) : exec step (s.since n) is =
      (exec step s is).map fun x => (x.1.since n, x.2.map fun y => (y.1 - n, y.2)) := by
  induction is generalizing s with
  | nil => rfl
  | cons i is ih =>
    have hi : ¬ s.Meets n i := fun hi => h (sometime_head hi)
    simp only [exec, since_step hn hi]
    cases hs : s.step i with
    | none => rfl
    | some x =>
      have hx := ih (s := x.1) (hn.trans (next_step (show s.step i = some (x.1, x.2) from hs)))
        fun hm => h (sometime_tail hs hm)
      simp only [Option.map_some, Option.bind_some, hx, Option.map_map]
      refine congrArg (fun f => Option.map f (exec step x.1 is)) (funext fun y => ?_)
      simp

end Sources

end Ntstat
