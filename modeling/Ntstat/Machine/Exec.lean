import Mathlib.Data.List.Forall2
import Mathlib.Data.List.Induction

/-!
# Partial machines with outputs: runs, invariants, simulations

A machine is a function `f : σ → ι → Option (σ × List ω)`: from a state and an input to the next
state and the outputs of the step, `none` where the step has no defined result.

* `exec f s is`       the run of the inputs `is` from `s`: last state and all outputs in order;
* `exec_concat`       the last step of a run;
* `exec_inv`          what holds at the start and is kept by every step of a run holds after it;
* `exec_total`        a run is defined if every step from a state of the invariant is;
* `Sometime`          at some step of a run; `sometime_concat` unfolds it at the last step, and
                      `mem_outputs` says which step an output comes from;
* `Since`             at some step of a run, and something else at every later one;
* `latest`            what was found at the last step of a run where anything was;
* `exec_map`          a machine that computes a projection of another one has the projected runs,
                      and `sometime_map` moves statements about its steps back;
* `exec_sim`          lockstep simulation of two machines on related input lists;
* `exec_filter_sim`   simulation when the second machine gets only the inputs that are kept; the
                      outputs are compared through observations `List.filterMap obs`;
* `exec_obs_sim`      the same for two machines that both take every input.
-/

namespace Machine

section
variable {σ ι ω : Type*}

/-- the run of a list of inputs -/
def exec (f : σ → ι → Option (σ × List ω)) : σ → List ι → Option (σ × List ω)
  | s, [] => some (s, [])
  | s, i :: is => (f s i).bind fun p => (exec f p.1 is).map fun q => (q.1, p.2 ++ q.2)

variable {f : σ → ι → Option (σ × List ω)}

@[simp] theorem exec_nil (s : σ) : exec f s [] = some (s, []) := rfl

theorem exec_cons {s s' : σ} {i : ι} {is : List ι} {os : List ω} :
    exec f s (i :: is) = some (s', os) ↔
      ∃ s1 o1 o2, f s i = some (s1, o1) ∧ exec f s1 is = some (s', o2) ∧ os = o1 ++ o2 := by
  constructor
  · intro h
    obtain ⟨⟨s1, o1⟩, h1, h2⟩ := Option.bind_eq_some_iff.mp h
    obtain ⟨⟨s2, o2⟩, h3, h4⟩ := Option.map_eq_some_iff.mp h2
    obtain ⟨rfl, rfl⟩ := Prod.mk.inj h4
    exact ⟨s1, o1, o2, h1, h3, rfl⟩
  · intro hex
    obtain ⟨s1, o1, o2, h1, h2, rfl⟩ := hex
    simp [exec, h1, h2]

theorem exec_append {s s' : σ} {is js : List ι} {os : List ω} :
    exec f s (is ++ js) = some (s', os) ↔
      ∃ s1 o1 o2, exec f s is = some (s1, o1) ∧ exec f s1 js = some (s', o2) ∧ os = o1 ++ o2 := by
  induction is generalizing s os with
  | nil => simp
  | cons i is ih =>
    rw [List.cons_append, exec_cons]
    constructor
    · intro hex
      obtain ⟨s1, o1, o2, h1, h2, rfl⟩ := hex
      obtain ⟨s2, o3, o4, h3, h4, rfl⟩ := ih.mp h2
      exact ⟨s2, o1 ++ o3, o4, exec_cons.mpr ⟨s1, o1, o3, h1, h3, rfl⟩, h4, by simp⟩
    · intro hex
      obtain ⟨s2, o1, o2, h1, h2, rfl⟩ := hex
      obtain ⟨s1, o3, o4, h3, h4, rfl⟩ := exec_cons.mp h1
      exact ⟨s1, o3, o4 ++ o2, h3, ih.mpr ⟨s2, o4, o2, h4, h2, rfl⟩, by simp⟩

/-- the same as an equation -/
theorem exec_append_bind (s : σ) (is js : List ι) : exec f s (is ++ js) =
    (exec f s is).bind fun p => (exec f p.1 js).map fun q => (q.1, p.2 ++ q.2) := by
  induction is generalizing s with
  | nil => simp
  | cons i is ih =>
    simp only [List.cons_append, exec, ih]
    cases f s i with
    | none => rfl
    | some p =>
      simp only [Option.bind_some]
      cases exec f p.1 is with
      | none => rfl
      | some q =>
        simp only [Option.map_some, Option.bind_some]
        cases exec f q.1 js <;> simp

theorem exec_single {s s' : σ} {i : ι} {os : List ω} :
    exec f s [i] = some (s', os) ↔ f s i = some (s', os) := by
  rw [exec_cons]
  constructor
  · intro hex
    obtain ⟨s1, o1, o2, h1, h2, rfl⟩ := hex
    obtain ⟨rfl, rfl⟩ := Prod.mk.inj (Option.some.inj h2)
    simpa using h1
  · intro h
    exact ⟨s', os, [], h, rfl, by simp⟩

/-- the last step of a run -/
theorem exec_concat {s s' : σ} {is : List ι} {i : ι} {os : List ω} :
    exec f s (is ++ [i]) = some (s', os) ↔
      ∃ s1 o1 o2, exec f s is = some (s1, o1) ∧ f s1 i = some (s', o2) ∧ os = o1 ++ o2 := by
  rw [exec_append]
  simp only [exec_single]

/-- **Invariant rule.**  What holds before the first step and is kept by every step that the run
can take holds after the run; it may speak of the inputs and the outputs so far. -/
theorem exec_inv {P : List ι → σ → List ω → Prop} {s : σ} (h0 : P [] s [])
    (hstep : ∀ is s1 o1 i s2 o2, exec f s is = some (s1, o1) → P is s1 o1 →
      f s1 i = some (s2, o2) → P (is ++ [i]) s2 (o1 ++ o2))
    {is : List ι} {s' : σ} {os : List ω} (h : exec f s is = some (s', os)) : P is s' os := by
  induction is using List.reverseRecOn generalizing s' os with
  | nil =>
    obtain ⟨rfl, rfl⟩ := Prod.mk.inj (Option.some.inj h)
    exact h0
  | append_singleton is i ih =>
    obtain ⟨s1, o1, o2, h1, h2, rfl⟩ := exec_concat.mp h
    exact hstep is s1 o1 i s' o2 h1 (ih h1) h2

/-- a run on inputs of `Q` is defined if every step on them from a state of `P` is -/
theorem exec_total {P : σ → Prop} {Q : ι → Prop}
    (hstep : ∀ s i, P s → Q i → ∃ s' o, f s i = some (s', o) ∧ P s') {is : List ι} {s : σ}
    (h0 : P s) (hQ : ∀ i ∈ is, Q i) : ∃ s' os, exec f s is = some (s', os) ∧ P s' := by
  induction is generalizing s with
  | nil => exact ⟨s, [], rfl, h0⟩
  | cons i is ih =>
    obtain ⟨s1, o1, h1, hP⟩ := hstep s i h0 (hQ i List.mem_cons_self)
    obtain ⟨s2, o2, h2, hP'⟩ := ih hP (fun j hj => hQ j (List.mem_cons_of_mem _ hj))
    exact ⟨s2, o1 ++ o2, exec_cons.mpr ⟨s1, o1, o2, h1, h2, rfl⟩, hP'⟩

/-- at some step of the run of `is` from `s`, `Q` holds of the inputs before the step, the state
it is taken in and its input -/
def Sometime (f : σ → ι → Option (σ × List ω)) (s : σ) (is : List ι)
    (Q : List ι → σ → ι → Prop) : Prop :=
  ∃ pre i post s1 o1, is = pre ++ i :: post ∧ exec f s pre = some (s1, o1) ∧ Q pre s1 i

variable {Q Q' : List ι → σ → ι → Prop}

@[simp] theorem sometime_nil (s : σ) : ¬ Sometime f s [] Q := by
  intro hex
  obtain ⟨pre, i, post, _, _, h, _⟩ := hex
  simp at h

theorem Sometime.imp {s : σ} {is : List ι} (h : ∀ pre s1 i, Q pre s1 i → Q' pre s1 i) :
    Sometime f s is Q → Sometime f s is Q' := by
  intro hex
  obtain ⟨pre, i, post, s1, o1, e, h1, hQ⟩ := hex
  exact ⟨pre, i, post, s1, o1, e, h1, h pre s1 i hQ⟩

theorem Sometime.append {s : σ} {is : List ι} (h : Sometime f s is Q) (js : List ι) :
    Sometime f s (is ++ js) Q := by
  obtain ⟨pre, i, post, s1, o1, rfl, h1, hQ⟩ := h
  exact ⟨pre, i, post ++ js, s1, o1, by simp, h1, hQ⟩

theorem sometime_head {s : σ} {i : ι} {is : List ι} (h : Q [] s i) : Sometime f s (i :: is) Q :=
  ⟨[], i, is, s, [], rfl, rfl, h⟩

theorem sometime_tail {s s1 : σ} {i : ι} {is : List ι} {o1 : List ω} (h : f s i = some (s1, o1))
    (h' : Sometime f s1 is fun pre => Q (i :: pre)) : Sometime f s (i :: is) Q := by
  obtain ⟨pre, j, post, s2, o2, rfl, h2, hQ⟩ := h'
  exact ⟨i :: pre, j, post, s2, o1 ++ o2, rfl, exec_cons.mpr ⟨s1, o1, o2, h, h2, rfl⟩, hQ⟩

theorem sometime_concat {s s1 : σ} {is : List ι} {i : ι} {o1 : List ω}
    (h : exec f s is = some (s1, o1)) :
    Sometime f s (is ++ [i]) Q ↔ Sometime f s is Q ∨ Q is s1 i := by
  constructor
  · intro hex
    obtain ⟨pre, j, post, s2, o2, e, h2, hQ⟩ := hex
    cases post using List.reverseRecOn with
    | nil =>
      obtain ⟨rfl, rfl⟩ := List.append_inj' e rfl |>.imp_right List.singleton_inj.mp
      rw [h] at h2
      obtain ⟨rfl, rfl⟩ := Prod.mk.inj (Option.some.inj h2)
      exact Or.inr hQ
    | append_singleton post k =>
      rw [← List.cons_append, ← List.append_assoc] at e
      obtain ⟨rfl, -⟩ := List.append_inj' e rfl
      exact Or.inl ⟨pre, j, post, s2, o2, rfl, h2, hQ⟩
  · rintro (h1 | hQ)
    · exact h1.append [i]
    · exact ⟨is, i, [], s1, o1, rfl, h, hQ⟩

/-- every output is the output of a step -/
theorem mem_outputs {s s' : σ} {is : List ι} {os : List ω} (h : exec f s is = some (s', os))
    {x : ω} : x ∈ os ↔ Sometime f s is fun _ s1 i => ∃ s2 o2, f s1 i = some (s2, o2) ∧ x ∈ o2 := by
  refine exec_inv (P := fun is _ os => x ∈ os ↔
    Sometime f s is fun _ s1 i => ∃ s2 o2, f s1 i = some (s2, o2) ∧ x ∈ o2) (by simp) ?_ h
  intro is s1 o1 i s2 o2 hx hP h2
  rw [sometime_concat hx, List.mem_append, hP]
  refine or_congr_right ⟨fun hm => ⟨s2, o2, h2, hm⟩, ?_⟩
  intro hex
  obtain ⟨s3, o3, h3, hm⟩ := hex
  rw [h2] at h3
  obtain ⟨-, rfl⟩ := Prod.mk.inj (Option.some.inj h3)
  exact hm

/-- `Q` at some step of the run, and `R` at every later step -/
def Since (f : σ → ι → Option (σ × List ω)) (s : σ) (is : List ι) (Q R : σ → ι → Prop) : Prop :=
  Sometime f s is fun pre s1 i => Q s1 i ∧ ∀ mid j post s2 o2, is = pre ++ i :: mid ++ j :: post →
    exec f s (pre ++ i :: mid) = some (s2, o2) → R s2 j

section
variable {A R : σ → ι → Prop}

@[simp] theorem since_nil (s : σ) : ¬ Since f s [] A R := sometime_nil s

theorem since_concat {s s1 : σ} {is : List ι} {i : ι} {o1 : List ω}
    (h : exec f s is = some (s1, o1)) :
    Since f s (is ++ [i]) A R ↔ A s1 i ∨ Since f s is A R ∧ R s1 i := by
  unfold Since
  rw [sometime_concat h]
  constructor
  · rintro (⟨pre, k, post, s2, o2, rfl, h2, hA, hR⟩ | ⟨hA, -⟩)
    · refine Or.inr ⟨⟨pre, k, post, s2, o2, rfl, h2, hA, ?_⟩, ?_⟩
      · intro mid j post' s3 o3 e h3
        exact hR mid j (post' ++ [i]) s3 o3 (by rw [e]; simp) h3
      · exact hR post i [] s1 o1 (by simp) h
    · exact Or.inl hA
  · rintro (hA | ⟨⟨pre, k, post, s2, o2, rfl, h2, hA, hR⟩, hi⟩)
    · refine Or.inr ⟨hA, fun mid j post s2 o2 e _ => ?_⟩
      have := congrArg List.length e
      simp only [List.length_append, List.length_cons, List.length_nil] at this
      omega
    · refine Or.inl ⟨pre, k, post, s2, o2, rfl, h2, hA, ?_⟩
      intro mid j post' s3 o3 e h3
      cases post' using List.reverseRecOn with
      | nil =>
        obtain ⟨e', e2⟩ := List.append_inj' e rfl
        obtain rfl := List.singleton_inj.mp e2
        rw [← e', h] at h3
        obtain ⟨rfl, rfl⟩ := Prod.mk.inj (Option.some.inj h3)
        exact hi
      | append_singleton post' l =>
        rw [← List.cons_append, ← List.append_assoc] at e
        obtain ⟨e', -⟩ := List.append_inj' e rfl
        exact hR mid j post' s3 o3 e' h3

end

/-- what `q` finds at the last step of the run where it finds anything -/
def latest {α : Type*} (f : σ → ι → Option (σ × List ω)) (q : σ → ι → Option α) :
    σ → List ι → Option α
  | _, [] => none
  | s, i :: is => ((f s i).bind fun p => latest f q p.1 is).or (q s i)

theorem latest_concat {α : Type*} {q : σ → ι → Option α} {s s1 : σ} {is : List ι} {i : ι}
    {o1 : List ω} (h : exec f s is = some (s1, o1)) :
    latest f q s (is ++ [i]) = (q s1 i).or (latest f q s is) := by
  induction is generalizing s o1 with
  | nil =>
    obtain ⟨rfl, rfl⟩ := Prod.mk.inj (Option.some.inj h)
    cases hs : f s i <;> simp [latest, hs]
  | cons j is ih =>
    obtain ⟨s2, o2, o3, h2, h3, rfl⟩ := exec_cons.mp h
    simp only [List.cons_append, latest, h2, Option.bind_some, ih h3, Option.or_assoc]

end

section
variable {σ τ ι κ ω ω' : Type*} {f : σ → ι → Option (σ × List ω)}
  {g : τ → κ → Option (τ × List ω')} {π : σ → τ} {φ : ι → κ} {obs : ω → Option ω'}

/-- **Projection.** -/
theorem exec_map
    (hf : ∀ s i, (f s i).map (fun x => (π x.1, x.2.filterMap obs)) = g (π s) (φ i))
    (s : σ) (is : List ι) :
    (exec f s is).map (fun x => (π x.1, x.2.filterMap obs)) = exec g (π s) (is.map φ) := by
  induction is generalizing s with
  | nil => rfl
  | cons i is ih =>
    rw [List.map_cons]
    simp only [exec]
    rw [← hf]
    cases f s i with
    | none => rfl
    | some p =>
      simp only [Option.bind_some, Option.map_some, ← ih]
      cases exec f p.1 is with
      | none => rfl
      | some q => simp

theorem sometime_map
    (hf : ∀ s i, (f s i).map (fun x => (π x.1, x.2.filterMap obs)) = g (π s) (φ i))
    {s : σ} {is : List ι} {Q : List κ → τ → κ → Prop} :
    Sometime f s is (fun pre s1 i => Q (pre.map φ) (π s1) (φ i)) ↔
      Sometime g (π s) (is.map φ) Q := by
  constructor
  · intro hex
    obtain ⟨pre, i, post, s1, o1, rfl, h1, hQ⟩ := hex
    refine ⟨pre.map φ, φ i, post.map φ, π s1, o1.filterMap obs, by simp, ?_, hQ⟩
    rw [← exec_map hf, h1, Option.map_some]
  · intro hex
    obtain ⟨pre', i', post', t1, p1, e, h1, hQ⟩ := hex
    obtain ⟨pre, rest, rfl, rfl, e'⟩ := List.map_eq_append_iff.mp e
    obtain ⟨i, post, rfl, rfl, rfl⟩ := List.map_eq_cons_iff.mp e'
    rw [← exec_map hf] at h1
    obtain ⟨⟨s1, o1⟩, h2, h3⟩ := Option.map_eq_some_iff.mp h1
    obtain ⟨rfl, rfl⟩ := Prod.mk.inj h3
    exact ⟨pre, i, post, s1, o1, rfl, h2, hQ⟩

end

section
variable {σ τ ι κ ω ω' ν : Type*} {f : σ → ι → Option (σ × List ω)} {R : σ → τ → Prop}

/-- **Lockstep simulation.** -/
theorem exec_sim {g : τ → κ → Option (τ × List ω)} {Q : ι → κ → Prop}
    (hsim : ∀ s t i k s' o, R s t → Q i k → f s i = some (s', o) →
      ∃ t', g t k = some (t', o) ∧ R s' t')
    {is : List ι} {ks : List κ} (hQ : List.Forall₂ Q is ks) {s s' : σ} {t : τ} {os : List ω}
    (hR : R s t) (h : exec f s is = some (s', os)) :
    ∃ t', exec g t ks = some (t', os) ∧ R s' t' := by
  induction hQ generalizing s t os with
  | nil =>
    obtain ⟨rfl, rfl⟩ := Prod.mk.inj (Option.some.inj h)
    exact ⟨t, rfl, hR⟩
  | cons hq _ ih =>
    obtain ⟨s1, o1, o2, h1, h2, rfl⟩ := exec_cons.mp h
    obtain ⟨t1, h3, hR1⟩ := hsim _ _ _ _ _ _ hR hq h1
    obtain ⟨t2, h4, hR2⟩ := ih hR1 h2
    exact ⟨t2, exec_cons.mpr ⟨t1, o1, o2, h3, h4, rfl⟩, hR2⟩

/-- **Simulation on the kept inputs.**  A step on an input that is left out moves only the first
machine and shows nothing. -/
theorem exec_filter_sim {g : τ → ι → Option (τ × List ω')} {keep : ι → Bool} {obs : ω → Option ν}
    {obs' : ω' → Option ν}
    (hkeep : ∀ s t i s' o, R s t → keep i = true → f s i = some (s', o) →
      ∃ t' o', g t i = some (t', o') ∧ R s' t' ∧ o.filterMap obs = o'.filterMap obs')
    (hskip : ∀ s t i s' o, R s t → keep i = false → f s i = some (s', o) →
      R s' t ∧ o.filterMap obs = [])
    {is : List ι} {s s' : σ} {t : τ} {os : List ω} (hR : R s t)
    (h : exec f s is = some (s', os)) :
    ∃ t' os', exec g t (is.filter keep) = some (t', os') ∧ R s' t' ∧
      os.filterMap obs = os'.filterMap obs' := by
  induction is generalizing s t os with
  | nil =>
    obtain ⟨rfl, rfl⟩ := Prod.mk.inj (Option.some.inj h)
    exact ⟨t, [], rfl, hR, rfl⟩
  | cons i is ih =>
    obtain ⟨s1, o1, o2, h1, h2, rfl⟩ := exec_cons.mp h
    cases hk : keep i with
    | true =>
      obtain ⟨t1, p1, h3, hR1, e1⟩ := hkeep _ _ _ _ _ hR hk h1
      obtain ⟨t2, p2, h4, hR2, e2⟩ := ih hR1 h2
      rw [List.filter_cons_of_pos hk]
      exact ⟨t2, p1 ++ p2, exec_cons.mpr ⟨t1, p1, p2, h3, h4, rfl⟩, hR2,
        by rw [List.filterMap_append, List.filterMap_append, e1, e2]⟩
    | false =>
      obtain ⟨hR1, e1⟩ := hskip _ _ _ _ _ hR hk h1
      obtain ⟨t2, p2, h4, hR2, e2⟩ := ih hR1 h2
      rw [List.filter_cons_of_neg (by simp [hk])]
      exact ⟨t2, p2, h4, hR2, by rw [List.filterMap_append, e1, e2, List.nil_append]⟩

/-- **Simulation of two machines that both take every input of `Q`.** -/
theorem exec_obs_sim {g : τ → ι → Option (τ × List ω')} {Q : ι → Prop} {obs : ω → Option ν}
    {obs' : ω' → Option ν}
    (hsim : ∀ s t i, R s t → Q i → ∃ s' o t' o', f s i = some (s', o) ∧ g t i = some (t', o') ∧
      R s' t' ∧ o.filterMap obs = o'.filterMap obs')
    {is : List ι} (hQ : ∀ i ∈ is, Q i) {s : σ} {t : τ} (hR : R s t) :
    ∃ s' os t' os', exec f s is = some (s', os) ∧ exec g t is = some (t', os') ∧ R s' t' ∧
      os.filterMap obs = os'.filterMap obs' := by
  induction is generalizing s t with
  | nil => exact ⟨s, [], t, [], rfl, rfl, hR, rfl⟩
  | cons i is ih =>
    obtain ⟨s1, o1, t1, p1, h1, h2, hR1, e1⟩ := hsim s t i hR (hQ i List.mem_cons_self)
    obtain ⟨s2, o2, t2, p2, h3, h4, hR2, e2⟩ :=
      ih (fun j hj => hQ j (List.mem_cons_of_mem _ hj)) hR1
    exact ⟨s2, o1 ++ o2, t2, p1 ++ p2, exec_cons.mpr ⟨s1, o1, o2, h1, h3, rfl⟩,
      exec_cons.mpr ⟨t1, p1, p2, h2, h4, rfl⟩, hR2,
      by rw [List.filterMap_append, List.filterMap_append, e1, e2]⟩

end

end Machine
