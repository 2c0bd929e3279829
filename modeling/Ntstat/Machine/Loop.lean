import Mathlib.Data.Nat.Find
import Ntstat.Machine.Exec

/-!
# Loops that the environment ends

A loop tests a condition before each iteration; what the condition gives and the input of the
iteration come from outside, by the number of the iteration.  `loop` is cut off after `fuel`
iterations, and its flag tells whether the condition ended it.

* `loop_ended`           a loop that ended was the run of its inputs up to the first iteration
                         that was not to be made;
* `ends_iff`             so it ends exactly if there is such an iteration, and the run up to it;
* `ends_iff_fails`       what the steps do does not matter, as long as they have results.
-/

namespace Machine

variable {σ ι ω : Type*}

def loop (f : σ → ι → Option (σ × List ω)) (cond : Nat → Bool) (input : Nat → ι) :
    Nat → Nat → σ → Option ((Bool × σ) × List ω)
  | 0, _, s => some ((false, s), [])
  | fuel + 1, k, s =>
    if cond k then
      (f s (input k)).bind fun x =>
        (loop f cond input fuel (k + 1) x.1).map fun y => (y.1, x.2 ++ y.2)
    else some ((true, s), [])

/-- the inputs of `n` iterations from the `k`-th on -/
def inputs (input : Nat → ι) (k n : Nat) : List ι := (List.range' k n).map input

/-- from the `k`-th iteration on, `n` are made, and then the loop ends -/
structure Stops (cond : Nat → Bool) (k n : Nat) : Prop where
  stops : cond (k + n) = false
  goesOn : ∀ j < n, cond (k + j) = true

variable {f : σ → ι → Option (σ × List ω)} {cond : Nat → Bool} {input : Nat → ι}

theorem inputs_succ (k n : Nat) : inputs input k (n + 1) = input k :: inputs input (k + 1) n := rfl

theorem stops_zero {k : Nat} (h : cond k = false) : Stops cond k 0 :=
  ⟨h, fun j hj => absurd hj (Nat.not_lt_zero j)⟩

theorem stops_succ {k n : Nat} (h : cond k = true) :
    Stops cond k (n + 1) ↔ Stops cond (k + 1) n := by
  have hk : ∀ j, k + 1 + j = k + (j + 1) := fun j => by omega
  constructor
  · intro hs
    refine ⟨?_, fun j hj => ?_⟩
    · rw [hk]
      exact hs.stops
    · rw [hk]
      exact hs.goesOn (j + 1) (Nat.succ_lt_succ hj)
  · intro hs
    refine ⟨?_, fun j hj => ?_⟩
    · rw [← hk]
      exact hs.stops
    · cases j with
      | zero => exact h
      | succ j =>
        rw [← hk]
        exact hs.goesOn j (Nat.lt_of_succ_lt_succ hj)

/-- there is only one such number -/
theorem Stops.unique {k n m : Nat} (h : Stops cond k n) (h' : Stops cond k m) : n = m := by
  rcases Nat.lt_trichotomy n m with hlt | heq | hlt
  · exact absurd (h.stops.symm.trans (h'.goesOn n hlt)) Bool.false_ne_true
  · exact heq
  · exact absurd (h'.stops.symm.trans (h.goesOn m hlt)) Bool.false_ne_true

/-- **A loop that ended was the run of its inputs.** -/
theorem loop_ended {fuel k : Nat} {s s' : σ} {os : List ω} :
    loop f cond input fuel k s = some ((true, s'), os) ↔
      ∃ n < fuel, Stops cond k n ∧ exec f s (inputs input k n) = some (s', os) := by
  induction fuel generalizing k s os with
  | zero =>
    constructor
    · intro h
      cases h
    · intro hex
      obtain ⟨n, hn, -⟩ := hex
      exact absurd hn (Nat.not_lt_zero n)
  | succ fuel ih =>
    rw [loop]
    cases hk : cond k with
    | false =>
      rw [if_neg Bool.false_ne_true]
      constructor
      · intro h
        obtain ⟨hs, rfl⟩ := Prod.mk.inj (Option.some.inj h)
        obtain ⟨-, rfl⟩ := Prod.mk.inj hs
        exact ⟨0, Nat.succ_pos _, stops_zero hk, rfl⟩
      · intro hex
        obtain ⟨n, -, hs, hx⟩ := hex
        obtain rfl := hs.unique (stops_zero hk)
        obtain ⟨rfl, rfl⟩ := Prod.mk.inj (Option.some.inj hx)
        rfl
    | true =>
      rw [if_pos rfl]
      constructor
      · intro h
        obtain ⟨⟨s1, o1⟩, h1, h2⟩ := Option.bind_eq_some_iff.mp h
        obtain ⟨⟨_, o2⟩, h3, h4⟩ := Option.map_eq_some_iff.mp h2
        obtain ⟨rfl, rfl⟩ := Prod.mk.inj h4
        obtain ⟨n, hn, hs, hx⟩ := ih.mp h3
        refine ⟨n + 1, Nat.succ_lt_succ hn, (stops_succ hk).mpr hs, ?_⟩
        rw [inputs_succ]
        exact exec_cons.mpr ⟨s1, o1, o2, h1, hx, rfl⟩
      · intro hex
        obtain ⟨n, hn, hs, hx⟩ := hex
        cases n with
        | zero => exact absurd (hs.stops.symm.trans hk) Bool.false_ne_true
        | succ n =>
          rw [inputs_succ] at hx
          obtain ⟨s1, o1, o2, h1, h2, rfl⟩ := exec_cons.mp hx
          have h3 := ih.mpr ⟨n, Nat.lt_of_succ_lt_succ hn, (stops_succ hk).mp hs, h2⟩
          rw [h1, Option.bind_some, h3, Option.map_some]

/-- some number of iterations is enough -/
def Ends (f : σ → ι → Option (σ × List ω)) (cond : Nat → Bool) (input : Nat → ι) (s : σ) : Prop :=
  ∃ fuel s' os, loop f cond input fuel 0 s = some ((true, s'), os)

theorem ends_iff {s : σ} : Ends f cond input s ↔
    ∃ n s' os, Stops cond 0 n ∧ exec f s (inputs input 0 n) = some (s', os) := by
  constructor
  · intro hex
    obtain ⟨fuel, s', os, h⟩ := hex
    obtain ⟨n, -, hs, hx⟩ := loop_ended.mp h
    exact ⟨n, s', os, hs, hx⟩
  · intro hex
    obtain ⟨n, s', os, hs, hx⟩ := hex
    exact ⟨n + 1, s', os, loop_ended.mpr ⟨n, Nat.lt_succ_self n, hs, hx⟩⟩

theorem exists_stops : (∃ n, Stops cond 0 n) ↔ ∃ n, cond n = false := by
  constructor
  · intro hex
    obtain ⟨n, hs⟩ := hex
    exact ⟨0 + n, hs.stops⟩
  · intro hex
    refine ⟨Nat.find hex, ?_, fun j hj => ?_⟩
    · rw [Nat.zero_add]
      exact Nat.find_spec hex
    · rw [Nat.zero_add]
      exact Bool.not_eq_false _ ▸ Nat.find_min hex hj

/-- a loop that was cut off was to go on -/
theorem loop_cut {fuel k : Nat} {s s' : σ} {os : List ω}
    (h : loop f cond input fuel k s = some ((false, s'), os)) :
    ∀ j < fuel, cond (k + j) = true := by
  induction fuel generalizing k s os with
  | zero => exact fun j hj => absurd hj (Nat.not_lt_zero j)
  | succ fuel ih =>
    rw [loop] at h
    split at h
    · next hk =>
      obtain ⟨⟨s1, o1⟩, -, h2⟩ := Option.bind_eq_some_iff.mp h
      obtain ⟨⟨_, o2⟩, h3, h4⟩ := Option.map_eq_some_iff.mp h2
      obtain ⟨rfl, -⟩ := Prod.mk.inj h4
      intro j hj
      cases j with
      | zero => exact hk
      | succ j =>
        rw [show k + (j + 1) = k + 1 + j by omega]
        exact ih h3 j (Nat.lt_of_succ_lt_succ hj)
    · cases h

/-- a loop that ended has the same result with other fuel, if that is enough -/
theorem loop_fuel {fuel k : Nat} {s s' : σ} {os : List ω}
    (h : loop f cond input fuel k s = some ((true, s'), os)) (fuel' : Nat) :
    loop f cond input fuel' k s = some ((true, s'), os) ∨
      ∃ s1 o1, loop f cond input fuel' k s = some ((false, s1), o1) := by
  induction fuel generalizing k s os fuel' with
  | zero => cases h
  | succ fuel ih =>
    cases fuel' with
    | zero => exact Or.inr ⟨s, [], rfl⟩
    | succ fuel' =>
      rw [loop] at h ⊢
      split at h
      · next hk =>
        obtain ⟨⟨s1, o1⟩, h1, h2⟩ := Option.bind_eq_some_iff.mp h
        obtain ⟨⟨_, o2⟩, h3, h4⟩ := Option.map_eq_some_iff.mp h2
        obtain ⟨rfl, rfl⟩ := Prod.mk.inj h4
        rw [if_pos hk, h1, Option.bind_some]
        rcases ih h3 fuel' with he | ⟨s2, o3, he⟩
        · left
          rw [he]
          rfl
        · right
          rw [he]
          exact ⟨_, _, rfl⟩
      · next hk =>
        left
        rw [if_neg hk]
        exact h

/-- **A loop ends exactly if the condition fails some time, and no iteration lacks a result.** -/
theorem ends_iff_fails {s : σ} : Ends f cond input s ↔
    (∃ n, cond n = false) ∧ ∀ fuel, loop f cond input fuel 0 s ≠ none := by
  constructor
  · intro h
    obtain ⟨n, _, _, hs, -⟩ := ends_iff.mp h
    obtain ⟨fuel, s', os, h⟩ := h
    refine ⟨exists_stops.mp ⟨n, hs⟩, fun fuel' hnone => ?_⟩
    rcases loop_fuel h fuel' with he | ⟨s1, o1, he⟩
    · cases hnone.symm.trans he
    · cases hnone.symm.trans he
  · intro hand
    obtain ⟨hex, hdef⟩ := hand
    obtain ⟨n, hs⟩ := exists_stops.mpr hex
    obtain ⟨⟨⟨b, s'⟩, os⟩, hx⟩ := Option.ne_none_iff_exists'.mp (hdef (n + 1))
    cases b with
    | true => exact ⟨n + 1, s', os, hx⟩
    | false =>
      have htrue := loop_cut hx n (Nat.lt_succ_self n)
      exact absurd (hs.stops.symm.trans htrue) Bool.false_ne_true

/-- a loop whose steps all have results has one -/
theorem loop_defined (hd : ∀ s n, ∃ s' os, f s (input n) = some (s', os)) (fuel k : Nat) (s : σ) :
    ∃ x, loop f cond input fuel k s = some x := by
  induction fuel generalizing k s with
  | zero => exact ⟨_, rfl⟩
  | succ fuel ih =>
    rw [loop]
    split
    · obtain ⟨s1, o1, h1⟩ := hd s k
      obtain ⟨x, hx⟩ := ih (k + 1) s1
      rw [h1, Option.bind_some, hx]
      exact ⟨_, rfl⟩
    · exact ⟨_, rfl⟩

end Machine
