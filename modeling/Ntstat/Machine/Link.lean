import Ntstat.Machine.Contract

/-!
# A machine and its peer

The peer puts messages into a queue, which the machine takes out in order; what the machine asks
for stands with the peer until it is answered, in any order.

* `Link`, `Link.step`   the two parties, and a move of one of them;
* `Link.moves_of_step`, `Link.step_of_moves`   what a move does;
* `Link.exec_machine`   the machine can move on its own as long as it takes nothing;
* `Link.run_machine`    the moves of the machine are a run of it;
* `Link.run_queue`      what the peer has said is what the machine has taken and what is in the
                        queue;
* `Link.run_peer`       if each move of the peer keeps an order, so does what it says in a run;
* `Link.run_said`       if each says only messages of a kind, all are of that kind.
-/

namespace Machine

/-- a move of one of the parties -/
inductive Move (μ ι : Type*) where
  | peer (m : μ)
  | machine (i : ι)

def Move.input {μ ι : Type*} : Move μ ι → Option ι
  | peer _ => none
  | machine i => some i

/-- both parties, the messages in the queue and the requests that were not answered -/
structure Linked (τ σ κ ρ : Type*) where
  peer : τ
  queue : List κ
  requests : List ρ
  machine : σ

/-- `takes` is the message that an input of the machine takes, `asks` the request in an output -/
structure Link (τ σ κ ρ μ ι ω : Type*) where
  machine : σ → ι → Option (σ × List ω)
  takes : ι → Option κ
  asks : ω → Option ρ
  /-- from its state, the requests and its move, the peer comes to a state, says something and
  leaves requests -/
  peer : τ → List ρ → μ → Option (τ × List κ × List ρ)

namespace Link

section
variable {τ σ κ ρ μ ι ω : Type*} [DecidableEq κ]

/-- the outputs of both parties: what the machine does, and what the peer says -/
def step (L : Link τ σ κ ρ μ ι ω) (s : Linked τ σ κ ρ) :
    Move μ ι → Option (Linked τ σ κ ρ × List (ω ⊕ κ))
  | .peer m => (L.peer s.peer s.requests m).map fun x =>
    ({ s with
        peer := x.1
        queue := s.queue ++ x.2.1
        requests := x.2.2 }, x.2.1.map Sum.inr)
  | .machine i =>
    if (L.takes i).toList <+: s.queue then
      (L.machine s.machine i).map fun x =>
        ({ s with
            queue := s.queue.drop (L.takes i).toList.length
            requests := s.requests ++ x.2.filterMap L.asks
            machine := x.1 }, x.2.map Sum.inl)
    else none

/-- what a move does -/
inductive Moves (L : Link τ σ κ ρ μ ι ω) (s : Linked τ σ κ ρ) :
    Move μ ι → Linked τ σ κ ρ → List (ω ⊕ κ) → Prop
  | peer {m p said requests} (h : L.peer s.peer s.requests m = some (p, said, requests)) :
    Moves L s (.peer m) ⟨p, s.queue ++ said, requests, s.machine⟩ (said.map Sum.inr)
  | machine {i queue t outs} (hq : s.queue = (L.takes i).toList ++ queue)
    (h : L.machine s.machine i = some (t, outs)) :
    Moves L s (.machine i) ⟨s.peer, queue, s.requests ++ outs.filterMap L.asks, t⟩
      (outs.map Sum.inl)

variable {L : Link τ σ κ ρ μ ι ω} {s s' : Linked τ σ κ ρ} {m : Move μ ι} {os : List (ω ⊕ κ)}
  {ms : List (Move μ ι)}

theorem moves_of_step (h : L.step s m = some (s', os)) : L.Moves s m s' os := by
  cases m with
  | peer m =>
    obtain ⟨⟨p, said, requests⟩, hp, he⟩ := Option.map_eq_some_iff.mp h
    obtain ⟨rfl, rfl⟩ := Prod.mk.inj he
    exact .peer hp
  | machine i =>
    unfold step at h
    dsimp only at h
    split at h
    · next hpre =>
      obtain ⟨queue, hq⟩ := hpre
      obtain ⟨⟨t, outs⟩, ht, he⟩ := Option.map_eq_some_iff.mp h
      obtain ⟨rfl, rfl⟩ := Prod.mk.inj he
      rw [← hq, List.drop_left]
      exact .machine hq.symm ht
    · cases h

theorem step_of_moves (h : L.Moves s m s' os) : L.step s m = some (s', os) := by
  unfold step
  cases h with
  | peer h =>
    dsimp only
    rw [h]
    rfl
  | machine hq h =>
    dsimp only
    rw [if_pos ⟨_, hq.symm⟩, h, hq, List.drop_left]
    rfl

/-- what the machine did -/
def did (os : List (ω ⊕ κ)) : List ω := os.filterMap Sum.getLeft?

/-- what the peer said -/
def said (os : List (ω ⊕ κ)) : List κ := os.filterMap Sum.getRight?

omit [DecidableEq κ] in
@[simp] theorem did_append (os os' : List (ω ⊕ κ)) : did (os ++ os') = did os ++ did os' :=
  List.filterMap_append

omit [DecidableEq κ] in
@[simp] theorem said_append (os os' : List (ω ⊕ κ)) : said (os ++ os') = said os ++ said os' :=
  List.filterMap_append

omit [DecidableEq κ] in
@[simp] theorem did_inl (l : List ω) : did (l.map (Sum.inl : ω → ω ⊕ κ)) = l := by
  unfold did
  rw [List.filterMap_map]
  exact List.filterMap_some

omit [DecidableEq κ] in
@[simp] theorem said_inl (l : List ω) : said (l.map (Sum.inl : ω → ω ⊕ κ)) = [] := by
  unfold said
  rw [List.filterMap_map]
  exact List.filterMap_none l

omit [DecidableEq κ] in
@[simp] theorem did_inr (l : List κ) : did (l.map (Sum.inr : κ → ω ⊕ κ)) = [] := by
  unfold did
  rw [List.filterMap_map]
  exact List.filterMap_none l

omit [DecidableEq κ] in
@[simp] theorem said_inr (l : List κ) : said (l.map (Sum.inr : κ → ω ⊕ κ)) = l := by
  unfold said
  rw [List.filterMap_map]
  exact List.filterMap_some

/-- inputs that take no messages can be taken at any time -/
theorem exec_machine {is : List ι} {t : σ} {outs : List ω} (hn : ∀ i ∈ is, L.takes i = none)
    (h : exec L.machine s.machine is = some (t, outs)) :
    exec L.step s (is.map Move.machine) =
      some (⟨s.peer, s.queue, s.requests ++ outs.filterMap L.asks, t⟩, outs.map Sum.inl) := by
  induction is generalizing s outs with
  | nil =>
    obtain ⟨rfl, rfl⟩ := Prod.mk.inj (Option.some.inj h)
    rw [List.filterMap_nil, List.append_nil]
    rfl
  | cons i is ih =>
    obtain ⟨t1, o1, o2, h1, h2, rfl⟩ := exec_cons.mp h
    have hq : s.queue = (L.takes i).toList ++ s.queue := by
      rw [hn i List.mem_cons_self]
      rfl
    have hstep := step_of_moves (.machine hq h1)
    have hrest := ih (s := ⟨s.peer, s.queue, s.requests ++ o1.filterMap L.asks, t1⟩)
      (fun j hj => hn j (List.mem_cons_of_mem _ hj)) h2
    rw [List.append_assoc] at hrest
    refine exec_cons.mpr ⟨_, _, _, hstep, ?_, (List.map_append ..)⟩
    rw [List.filterMap_append]
    exact hrest

/-- **The moves of the machine are a run of it.** -/
theorem run_machine (h : exec L.step s ms = some (s', os)) :
    exec L.machine s.machine (ms.filterMap Move.input) = some (s'.machine, did os) := by
  refine exec_inv (P := fun ms s' os =>
    exec L.machine s.machine (ms.filterMap Move.input) = some (s'.machine, did os)) rfl ?_ h
  intro ms s1 o1 m s2 o2 _ hP hst
  rw [List.filterMap_append, did_append]
  cases moves_of_step hst with
  | peer => rwa [did_inr, List.append_nil, show [Move.peer _].filterMap Move.input = [] from rfl,
      List.append_nil]
  | machine _ hm =>
    rw [did_inl]
    exact exec_concat.mpr ⟨_, _, _, hP, hm, rfl⟩

/-- **What the peer has said is what the machine has taken and what is in the queue.** -/
theorem run_queue (h : exec L.step s ms = some (s', os)) :
    s.queue ++ said os = (ms.filterMap Move.input).filterMap L.takes ++ s'.queue := by
  refine exec_inv (P := fun ms s' os =>
    s.queue ++ said os = (ms.filterMap Move.input).filterMap L.takes ++ s'.queue) ?_ ?_ h
  · exact List.append_nil _
  · intro ms s1 o1 m s2 o2 _ hP hst
    rw [said_append, ← List.append_assoc, hP, List.filterMap_append, List.filterMap_append,
      List.append_assoc, List.append_assoc]
    cases moves_of_step hst with
    | peer => rw [said_inr]; rfl
    | machine hq => rw [said_inl, hq, List.append_nil]; rfl

/-- **The peer keeps an order.**  If each of its moves goes on in an order of which `R` tells where
the peer stands, all that it has said is in that order. -/
theorem run_peer {α ν : Type*} {d : α → ν → Option α} {q : κ → Option ν} {R : α → τ → Prop}
    (hstep : ∀ a p requests m p' said requests', R a p →
      L.peer p requests m = some (p', said, requests') →
      ∃ a', Follows d a (said.filterMap q) a' ∧ R a' p')
    {a : α} (hR : R a s.peer) (h : exec L.step s ms = some (s', os)) :
    ∃ a', Follows d a ((said os).filterMap q) a' ∧ R a' s'.peer := by
  refine exec_inv (P := fun _ s' os =>
    ∃ a', Follows d a ((said os).filterMap q) a' ∧ R a' s'.peer) ⟨a, follows_nil.mpr rfl, hR⟩ ?_ h
  intro ms s1 o1 m s2 o2 _ hP hst
  obtain ⟨a1, ha1, hR1⟩ := hP
  rw [said_append, List.filterMap_append]
  cases moves_of_step hst with
  | peer hp =>
    obtain ⟨a2, ha2, hR2⟩ := hstep _ _ _ _ _ _ _ hR1 hp
    rw [said_inr]
    exact ⟨a2, follows_append.mpr ⟨a1, ha1, ha2⟩, hR2⟩
  | machine =>
    rw [said_inl, List.filterMap_nil, List.append_nil]
    exact ⟨a1, ha1, hR1⟩

theorem run_said {P : κ → Prop} (hstep : ∀ p requests m p' said requests',
      L.peer p requests m = some (p', said, requests') → ∀ x ∈ said, P x)
    (h : exec L.step s ms = some (s', os)) : ∀ x ∈ said os, P x := by
  refine exec_inv (P := fun _ _ os => ∀ x ∈ said os, P x)
    (fun x hx => absurd hx List.not_mem_nil) ?_ h
  intro ms s1 o1 m s2 o2 _ hP hst x hx
  rw [said_append] at hx
  rcases List.mem_append.mp hx with hx | hx
  · exact hP x hx
  · cases moves_of_step hst with
    | peer hp =>
      rw [said_inr] at hx
      exact hstep _ _ _ _ _ _ hp x hx
    | machine =>
      rw [said_inl] at hx
      cases hx

end

end Link

end Machine
