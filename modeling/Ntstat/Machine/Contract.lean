import Ntstat.Machine.Exec

/-!
# Contracts and accounts of partial machines

An automaton is a partial transition function `δ : α → κ → Option α`; its words are the lists that
it takes.

* `Follows δ a l a'`   the automaton goes from `a` to `a'` on the word `l`;
* `exec_contract`      assume and guarantee: as long as the inputs are a word of one automaton, the
                       outputs are a word of another;
* `exec_account`       what a run pays is covered by what its inputs bring and what the state had;
* `exec_served`        what waits is served once a run gave more turns than were taken before it;
* `exec_rounds`        what each fair round brings closer is reached after as many rounds.
-/

namespace Machine

section
variable {α κ : Type*} {δ : α → κ → Option α}

/-- `δ` goes from `a` to `a'` on the word `l` -/
def Follows (δ : α → κ → Option α) (a : α) (l : List κ) (a' : α) : Prop := l.foldlM δ a = some a'

instance [DecidableEq α] (a : α) (l : List κ) (a' : α) : Decidable (Follows δ a l a') :=
  inferInstanceAs (Decidable (_ = _))

theorem follows_nil {a a' : α} : Follows δ a [] a' ↔ a = a' := by
  unfold Follows
  rw [List.foldlM_nil]
  exact Option.some_inj

theorem follows_cons {a a' : α} {x : κ} {l : List κ} :
    Follows δ a (x :: l) a' ↔ ∃ a1, δ a x = some a1 ∧ Follows δ a1 l a' := by
  unfold Follows
  rw [List.foldlM_cons]
  exact Option.bind_eq_some_iff

theorem follows_append {a a' : α} {l l' : List κ} :
    Follows δ a (l ++ l') a' ↔ ∃ a1, Follows δ a l a1 ∧ Follows δ a1 l' a' := by
  unfold Follows
  rw [List.foldlM_append]
  exact Option.bind_eq_some_iff

theorem follows_single {a a' : α} {x : κ} : Follows δ a [x] a' ↔ δ a x = some a' := by
  rw [follows_cons]
  simp only [follows_nil, exists_eq_right]

theorem filterMap_cons_toList {β γ : Type*} (q : β → Option γ) (b : β) (l : List β) :
    (b :: l).filterMap q = (q b).toList ++ l.filterMap q := by
  cases h : q b with
  | none => rw [List.filterMap_cons_none h, Option.toList_none, List.nil_append]
  | some c => rw [List.filterMap_cons_some h, Option.toList_some, List.singleton_append]

end

section
variable {σ ι ω : Type*} {f : σ → ι → Option (σ × List ω)}

/-- **Assume and guarantee.**  `q` is what the first automaton sees of an input, `obs` what the
second one sees of an output; `R` ties their states to the state of the machine. -/
theorem exec_contract {α β κ ν : Type*} {env : α → κ → Option α} {out : β → ν → Option β}
    {q : ι → Option κ} {obs : ω → Option ν} {Q : ι → Prop} {R : α → σ → β → Prop}
    (hstep : ∀ a s b i a' s' o, R a s b → Q i → Follows env a (q i).toList a' →
      f s i = some (s', o) → ∃ b', Follows out b (o.filterMap obs) b' ∧ R a' s' b')
    {is : List ι} {a a' : α} {s s' : σ} {b : β} {os : List ω} (hR : R a s b)
    (hQ : ∀ i ∈ is, Q i) (ha : Follows env a (is.filterMap q) a')
    (h : exec f s is = some (s', os)) :
    ∃ b', Follows out b (os.filterMap obs) b' ∧ R a' s' b' := by
  induction is generalizing a s b os with
  | nil =>
    obtain ⟨rfl, rfl⟩ := Prod.mk.inj (Option.some.inj h)
    obtain rfl := follows_nil.mp ha
    exact ⟨b, follows_nil.mpr rfl, hR⟩
  | cons i is ih =>
    obtain ⟨s1, o1, o2, h1, h2, rfl⟩ := exec_cons.mp h
    rw [filterMap_cons_toList] at ha
    obtain ⟨a1, ha1, ha2⟩ := follows_append.mp ha
    obtain ⟨b1, hb1, hR1⟩ := hstep _ _ _ _ _ _ _ hR (hQ i List.mem_cons_self) ha1 h1
    obtain ⟨b2, hb2, hR2⟩ := ih hR1 (fun j hj => hQ j (List.mem_cons_of_mem _ hj)) ha2 h2
    refine ⟨b2, ?_, hR2⟩
    rw [List.filterMap_append]
    exact follows_append.mpr ⟨b1, hb1, hb2⟩

/-- **Accounts.**  If no step pays more than its input brings and the state loses, neither does a
run; `w` is what outputs cost, `b` what inputs bring, and both add up. -/
theorem exec_account {m : σ → Nat} {w : List ω → Nat} {b : List ι → Nat} {Q : ι → Prop}
    (hw : ∀ o o', w (o ++ o') = w o + w o')
    (hb : ∀ is js, b (is ++ js) = b is + b js) {s : σ}
    (hstep : ∀ is s1 o1 i s2 o2, (∀ j ∈ is ++ [i], Q j) → exec f s is = some (s1, o1) →
      f s1 i = some (s2, o2) → m s2 + w o2 ≤ m s1 + b [i])
    {is : List ι} {s' : σ} {os : List ω} (hQ : ∀ i ∈ is, Q i)
    (h : exec f s is = some (s', os)) : m s' + w os ≤ m s + b is := by
  refine exec_inv (P := fun is s' os => (∀ i ∈ is, Q i) → m s' + w os ≤ m s + b is)
    (fun _ => ?_) ?_ h hQ
  · have h0 : w [] = w [] + w [] := hw [] []
    omega
  · intro is s1 o1 i s2 o2 hx hP h2 hQ
    have h1 := hP fun j hj => hQ j (List.mem_append_left _ hj)
    have h3 := hstep is s1 o1 i s2 o2 hQ hx h2
    rw [hw, hb]
    omega

/-- **Bounded waiting.**  `m` says how many turns are to be taken before it is served.  If a step
that does not serve leaves it waiting, and takes the turns `a` of its input off but for the new ones
`b`, then a run that gives as many turns serves at some step. -/
theorem exec_served {P : σ → Prop} {D : σ → ι → Prop} {m : σ → Nat} {a b : List ι → Nat}
    {Q : ι → Prop} (ha : ∀ is js, a (is ++ js) = a is + a js)
    (hb : ∀ is js, b (is ++ js) = b is + b js) (hm : ∀ s, P s → 0 < m s)
    (hstep : ∀ s i s' o, P s → Q i → f s i = some (s', o) →
      D s i ∨ P s' ∧ m s' + a [i] ≤ m s + b [i])
    {is : List ι} {s s' : σ} {os : List ω} (hP : P s) (hQ : ∀ i ∈ is, Q i)
    (h : exec f s is = some (s', os)) (hn : m s + b is ≤ a is) :
    Sometime f s is fun _ s1 i => D s1 i := by
  have key : (Sometime f s is fun _ s1 i => D s1 i) ∨ P s' ∧ m s' + a is ≤ m s + b is := by
    refine exec_inv (P := fun is s' _ => (∀ i ∈ is, Q i) →
      (Sometime f s is fun _ s1 i => D s1 i) ∨ P s' ∧ m s' + a is ≤ m s + b is)
      (fun _ => Or.inr ⟨hP, ?_⟩) ?_ h hQ
    · have h0 : a [] = a [] + a [] := ha [] []
      omega
    · intro is s1 o1 i s2 o2 hx hR h2 hQ
      rw [sometime_concat hx, ha, hb]
      rcases hR fun j hj => hQ j (List.mem_append_left _ hj) with hD | ⟨hP1, h1⟩
      · exact Or.inl (Or.inl hD)
      · have hi : Q i := hQ i (List.mem_append_right _ List.mem_cons_self)
        rcases hstep s1 i s2 o2 hP1 hi h2 with hD | ⟨hP2, h3⟩
        · exact Or.inl (Or.inr hD)
        · exact Or.inr ⟨hP2, by omega⟩
  refine key.resolve_right fun hw => ?_
  obtain ⟨hP', h1⟩ := hw
  have h2 := hm s' hP'
  omega

/-- rounds one after the other, each fair to the state where it starts -/
def Rounds (f : σ → ι → Option (σ × List ω)) (fair : σ → List ι → Prop) : σ → List (List ι) → Prop
  | _, [] => True
  | s, round :: rounds => fair s round ∧ ∀ x ∈ exec f s round, Rounds f fair x.1 rounds

instance decidableRounds {fair : σ → List ι → Prop} [∀ s, DecidablePred (fair s)] :
    ∀ s rounds, Decidable (Rounds f fair s rounds)
  | _, [] => .isTrue trivial
  | s, round :: rounds =>
    haveI : ∀ s, Decidable (Rounds f fair s rounds) := fun s => decidableRounds s rounds
    inferInstanceAs (Decidable (_ ∧ ∀ x ∈ exec f s round, Rounds f fair x.1 rounds))

/-- every round is fair to some state -/
theorem Rounds.exists_fair {fair : σ → List ι → Prop} {rounds : List (List ι)} {s s' : σ}
    {os : List ω} (hf : Rounds f fair s rounds) (h : exec f s rounds.flatten = some (s', os)) :
    ∀ round ∈ rounds, ∃ s1, fair s1 round := by
  induction rounds generalizing s os with
  | nil => exact fun round hm => absurd hm List.not_mem_nil
  | cons round rounds ih =>
    obtain ⟨hfair, hrest⟩ := hf
    rw [List.flatten_cons] at h
    obtain ⟨s1, o1, o2, h1, h2, rfl⟩ := exec_append.mp h
    exact List.forall_mem_cons.mpr ⟨⟨s, hfair⟩, ih (hrest _ h1) h2⟩

/-- **Progress.**  `m` says how far a state is from `D`, which once reached is kept.  If every fair
round comes closer, then as many of them reach it. -/
theorem exec_rounds {fair : σ → List ι → Prop} {I D : σ → Prop} {m : σ → Nat}
    (hround : ∀ s round s' os, I s → fair s round → exec f s round = some (s', os) →
      I s' ∧ (D s → D s') ∧ (D s' ∨ m s' < m s))
    (hm : ∀ s, I s → m s = 0 → D s) {rounds : List (List ι)} {s s' : σ} {os : List ω} (hI : I s)
    (hf : Rounds f fair s rounds) (h : exec f s rounds.flatten = some (s', os))
    (hn : m s ≤ rounds.length) : D s' := by
  have key : I s' ∧ (D s → D s') ∧ (D s' ∨ m s' + rounds.length ≤ m s) := by
    clear hn
    induction rounds generalizing s os with
    | nil =>
      obtain ⟨rfl, rfl⟩ := Prod.mk.inj (Option.some.inj h)
      exact ⟨hI, id, Or.inr (Nat.le_refl _)⟩
    | cons round rounds ih =>
      obtain ⟨hfair, hrest⟩ := hf
      rw [List.flatten_cons] at h
      obtain ⟨s1, o1, o2, h1, h2, rfl⟩ := exec_append.mp h
      obtain ⟨hI1, hD1, hm1⟩ := hround _ _ _ _ hI hfair h1
      obtain ⟨hI', hD', hm'⟩ := ih hI1 (hrest _ h1) h2
      refine ⟨hI', fun hD => hD' (hD1 hD), ?_⟩
      rcases hm1 with hD | hlt
      · exact Or.inl (hD' hD)
      · refine hm'.imp_right fun hle => ?_
        rw [List.length_cons]
        omega
  obtain ⟨hI', -, hD | hle⟩ := key
  · exact hD
  · exact hm s' hI' (by omega)

end

end Machine
