import Ntstat.Laws.Settling

/-!
# Whatever the order of the steps

Every round of the loop of `run` calls `sendNextMsg` and reads what waits.  Beyond that the steps of
the client and the answers of the kernel may come in any order, as long as in a round that starts
with something unread or unanswered something is read or answered.

* `FairRound`   what is asked of the order of the steps;
* `tasks`       what is left to exchange, and the subscriptions that are sent first;
* `fair_round`  every fair round leaves less of it, until nothing is left to exchange;
* `converges`   so in every fair order the application comes to know what the kernel knows.
-/

namespace Ntstat
open Memory Machine Std

namespace Session
variable {S : Session} {σ σ' : System} {moves more : List (Move (UInt64 × KernelAct) Step)}
  {m : Move (UInt64 × KernelAct) Step} {os os' : List (Effect ⊕ UInt64 × Notice)}

/-- a round in which `sendNextMsg` is called and, if something is unread or unanswered, something
is read or answered -/
structure FairRound (S : Session) (σ : System)
    (round : List (Move (UInt64 × KernelAct) Step)) : Prop where
  steady : ∀ m ∈ round, Steady m
  positive : Positive (round.filterMap Move.input)
  sends : ∃ m ∈ round, m.input.any Step.isSend
  serves : σ.queue ≠ [] ∨ σ.requests ≠ [] → ∃ m ∈ round, exchanges S m

instance : DecidablePred Positive := fun steps =>
  inferInstanceAs (Decidable (∀ t ∈ steps.filterMap Step.reading, 0 < t))

instance (S : Session) (σ : System) : DecidablePred (FairRound S σ) := fun round =>
  decidable_of_iff ((∀ m ∈ round, Steady m) ∧ Positive (round.filterMap Move.input) ∧
      (∃ m ∈ round, m.input.any Step.isSend) ∧
      (σ.queue ≠ [] ∨ σ.requests ≠ [] → ∃ m ∈ round, exchanges S m))
    ⟨fun h => ⟨h.1, h.2.1, h.2.2.1, h.2.2.2⟩, fun h => ⟨h.1, h.2, h.3, h.4⟩⟩

/-- a state that the system comes to at positive times -/
def Met (S : Session) (σ : System) : Prop :=
  ∃ moves os, S.runWithKernel moves = some (σ, os) ∧ Positive (moves.filterMap Move.input)

theorem Met.exec (h : S.Met σ) (hx : exec S.link.step σ more = some (σ', os'))
    (hpos : Positive (more.filterMap Move.input)) : S.Met σ' := by
  obtain ⟨moves, os, h, hpos'⟩ := h
  exact ⟨_, _, exec_append.mpr ⟨_, _, _, h, hx, rfl⟩, positive_moves.mpr ⟨hpos', hpos⟩⟩

theorem Met.left (h : S.Met σ) (hx : Machine.exec S.link.step σ more = some (σ', os'))
    (hpos : Positive (more.filterMap Move.input)) (hs : ∀ m ∈ more, Steady m) :
    left σ' + exchanged S more os' ≤ left σ := by
  obtain ⟨moves, os, h, hpos'⟩ := h
  exact (left_run h hx (positive_moves.mpr ⟨hpos', hpos⟩) hs).2

/-- what is left to exchange, and the subscriptions that come before it -/
def tasks (σ : System) : Nat := left σ + σ.machine.subscribing

theorem tasks_run (h : S.Met σ) (hx : exec S.link.step σ more = some (σ', os'))
    (hpos : Positive (more.filterMap Move.input)) (hs : ∀ m ∈ more, Steady m) :
    tasks σ' + exchanged S more os' ≤ tasks σ := by
  have hleft := h.left hx hpos hs
  obtain ⟨moves, os, h, -⟩ := h
  have hsub : σ'.machine.subscribing ≤ σ.machine.subscribing := by
    refine exec_inv (P := fun _ c _ => c.subscribing ≤ σ.machine.subscribing) (Nat.le_refl _) ?_
      (Link.run_machine hx)
    intro steps c1 e1 st c2 e2 hc hle hst
    exact Nat.le_trans
      (subscribing_step (exec_append.mpr ⟨_, _, _, system_run h, hc, rfl⟩) hst) hle
  unfold tasks
  omega

/-- a call of `sendNextMsg` sends a subscription, or the request for the first source that waits -/
theorem send_turn {steps : List Step} {c c' : Client} {effs effs' : List Effect}
    (h : S.run steps = some (c, effs)) (hpos : Positive steps) {timestamp : UInt32} {rc : Int}
    (hst : S.step c (.sendNextMsg timestamp rc) = some (c', effs'))
    (hw : c.mapWaitingForDesc ≠ ∅) :
    c'.subscribing + 3 * c'.mapWaitingForDesc.size +
        2 * ((written effs').filterMap S.version.descIn).length <
      c.subscribing + 3 * c.mapWaitingForDesc.size := by
  have hl := (run_numbered h).live
  have hx := Option.some.inj hst
  have hasked : c'.mapWaitingForDesc.size + ((written effs').filterMap S.version.descIn).length ≤
      c.mapWaitingForDesc.size :=
    asked_le (run_pending h hpos) (Client.sends_sendNextMsg hl timestamp rc hx).1
  unfold Client.subscribing
  rw [state_of_send hst]
  cases ho : c.outq with
  | cons qm outq =>
    obtain ⟨rfl, -⟩ := Prod.mk.inj ((Client.turn_first ho timestamp rc).symm.trans hx)
    rw [List.length_cons]
    dsimp only at hasked ⊢
    omega
  | nil =>
    have hne : 0 < c.mapWaitingForDesc.toList.length := by
      rw [ExtTreeMap.length_toList]
      exact Nat.pos_of_ne_zero fun h0 => hw (ExtTreeMap.eq_empty_iff_size_eq_zero.mpr h0)
    obtain ⟨⟨k, p⟩, rest, hd⟩ := List.exists_cons_of_length_pos hne
    have hturn := Client.turn_desc (v := S.version) hl ho hd timestamp rc
    rw [show c.sendNextMsg S.version.handler timestamp rc = (c', effs') from hx] at hturn
    obtain ⟨ho', he, -⟩ := hturn
    have hsize : c'.mapWaitingForDesc.size + 1 = c.mapWaitingForDesc.size := by
      rw [he, ← ExtTreeMap.length_toList, ← ExtTreeMap.length_toList, toList_erase_head hd, hd,
        List.length_cons]
    rw [ho']
    omega

theorem tasks_send (h : S.Met σ) (hw : σ.machine.mapWaitingForDesc ≠ ∅) {timestamp : UInt32}
    {rc : Int} (hst : S.link.step σ (.machine (.sendNextMsg timestamp rc)) = some (σ', os')) :
    tasks σ' < tasks σ := by
  obtain ⟨moves, os, h, hpos⟩ := h
  cases Link.moves_of_step hst with
  | @machine _ queue c' effs hq hc =>
    obtain rfl : σ.queue = queue := hq
    have hturn := send_turn (system_run h) hpos hc hw
    unfold tasks left
    dsimp only
    rw [List.length_append, asks_written]
    omega

/-! ## a round -/

/-- without an exchange the queue and the requests stay as they are -/
theorem unexchanged_step (hm : Steady m) (hst : S.link.step σ m = some (σ', os'))
    (h0 : exchanged S [m] os' = 0) : σ'.queue = σ.queue ∧ σ'.requests = σ.requests := by
  obtain ⟨hcount, hasks⟩ := Nat.add_eq_zero_iff.mp h0
  rw [List.countP_singleton] at hcount
  cases Link.moves_of_step hst with
  | @peer act k said requests hk =>
    rw [show exchanges S (.peer act) = true from decide_eq_true hm, if_pos rfl] at hcount
    cases hcount
  | @machine st queue c' effs hq hc =>
    have hdid : Link.did (effs.map (Sum.inl : _ → Effect ⊕ UInt64 × Notice)) = effs :=
      Link.did_inl effs
    rw [hdid] at hasks
    refine ⟨?_, ?_⟩
    · cases hb : st.brings S.version with
      | none =>
        rw [show S.link.takes st = none from hb] at hq
        exact hq.symm
      | some x =>
        rw [show exchanges S (.machine st) = true from congrArg Option.isSome hb, if_pos rfl]
          at hcount
        cases hcount
    · dsimp only
      rw [List.length_eq_zero_iff.mp hasks, List.append_nil]

theorem unexchanged_run (hx : exec S.link.step σ more = some (σ', os'))
    (hs : ∀ m ∈ more, Steady m) (h0 : exchanged S more os' = 0) :
    σ'.queue = σ.queue ∧ σ'.requests = σ.requests := by
  refine exec_inv (P := fun more σ' os' => (∀ m ∈ more, Steady m) → exchanged S more os' = 0 →
    σ'.queue = σ.queue ∧ σ'.requests = σ.requests) (fun _ _ => ⟨rfl, rfl⟩) ?_ hx hs h0
  intro more σ1 o1 m σ2 o2 _ hP hst hs h0
  rw [exchanged_append] at h0
  obtain ⟨h1, h2⟩ := Nat.add_eq_zero_iff.mp h0
  obtain ⟨hq1, hr1⟩ := hP (fun m hm => hs m (List.mem_append_left _ hm)) h1
  obtain ⟨hq2, hr2⟩ :=
    unexchanged_step (hs m (List.mem_append_right _ List.mem_cons_self)) hst h2
  exact ⟨hq2.trans hq1, hr2.trans hr1⟩

/-- **Every fair round leaves less to do**, until nothing is left to exchange. -/
theorem fair_round (h : S.Met σ) {round : List (Move (UInt64 × KernelAct) Step)}
    (hf : FairRound S σ round) (hx : exec S.link.step σ round = some (σ', os')) :
    left σ' = 0 ∨ tasks σ' < tasks σ := by
  have hall := tasks_run h hx hf.positive hf.steady
  by_cases hserve : σ.queue ≠ [] ∨ σ.requests ≠ []
  · have hpos : 0 < round.countP (exchanges S) := List.countP_pos_iff.mpr (hf.serves hserve)
    right
    unfold exchanged at hall
    omega
  · obtain ⟨hq, hr⟩ := not_or.mp hserve
    obtain ⟨m, hm, hsend⟩ := hf.sends
    obtain ⟨timestamp, rc, rfl⟩ : ∃ timestamp rc, m = .machine (.sendNextMsg timestamp rc) := by
      cases m with
      | peer act => cases hsend
      | machine st =>
        cases st with
        | sendNextMsg timestamp rc => exact ⟨timestamp, rc, rfl⟩
        | _ => cases hsend
    obtain ⟨before, after, rfl⟩ := List.append_of_mem hm
    obtain ⟨hs1, hs2⟩ := List.forall_mem_append.mp hf.steady
    obtain ⟨hp1, hp2⟩ := positive_moves.mp hf.positive
    obtain ⟨σ1, o1, o2, hx1, hx2, rfl⟩ := exec_append.mp hx
    have h1 := tasks_run h hx1 hp1 hs1
    have hmet := h.exec hx1 hp1
    have h2 := tasks_run hmet hx2 hp2 hs2
    by_cases h0 : exchanged S before o1 = 0
    · -- nothing was exchanged before the call, so only waiting sources can be left
      obtain ⟨hq1, hr1⟩ := unexchanged_run hx1 hs1 h0
      by_cases hw : σ1.machine.mapWaitingForDesc = ∅
      · left
        have hzero : left σ1 = 0 := by
          unfold left
          rw [hq1, hr1, not_not.mp hq, not_not.mp hr, hw]
          rfl
        have hle := hmet.left hx2 hp2 hs2
        omega
      · obtain ⟨σ2, o3, o4, hx3, hx4, rfl⟩ := exec_cons.mp hx2
        have hp3 : Positive (after.filterMap Move.input) :=
          positive_iff.mpr fun st hst => positive_iff.mp hp2 st (List.mem_cons_of_mem _ hst)
        have h3 := tasks_send hmet hw hx3
        have hmet2 : S.Met σ2 :=
          hmet.exec (exec_single.mpr hx3) fun t ht => absurd ht List.not_mem_nil
        have h4 := tasks_run hmet2 hx4 hp3 fun m hm => hs2 m (List.mem_cons_of_mem _ hm)
        right
        omega
    · right
      omega

/-- **In every fair order of the steps the application comes to know what the kernel knows**, after
as many rounds as there is left to exchange and two subscriptions. -/
theorem converges (h : S.runWithKernel moves = some (σ, os))
    (hpos : Positive (moves.filterMap Move.input))
    {rounds : List (List (Move (UInt64 × KernelAct) Step))}
    (hf : Rounds S.link.step (FairRound S) σ rounds)
    (hx : exec S.link.step σ rounds.flatten = some (σ', os')) (hn : left σ + 2 ≤ rounds.length) :
    ∀ r, Follows listens false (reports r (Link.did (os ++ os'))) (σ.peer r == some true) := by
  have hmet : S.Met σ := ⟨_, _, h, hpos⟩
  have hsub := subscribing_le (system_run h)
  have hsteady : ∀ m ∈ rounds.flatten, Steady m := by
    intro m hm
    obtain ⟨round, hround, hm⟩ := List.mem_flatten.mp hm
    obtain ⟨_, hfair⟩ := hf.exists_fair hx round hround
    exact hfair.steady m hm
  have hpos' : Positive ((moves ++ rounds.flatten).filterMap Move.input) := by
    refine positive_moves.mpr ⟨hpos, positive_iff.mpr fun st hst => ?_⟩
    obtain ⟨m, hm, he⟩ := List.mem_filterMap.mp hst
    obtain ⟨round, hround, hm⟩ := List.mem_flatten.mp hm
    obtain ⟨_, hfair⟩ := hf.exists_fair hx round hround
    exact positive_iff.mp hfair.positive st (List.mem_filterMap.mpr ⟨m, hm, he⟩)
  have hz : left σ' = 0 := by
    refine exec_rounds (I := S.Met) (D := fun σ => left σ = 0) (m := tasks) ?_ ?_ hmet hf hx ?_
    · intro σ round σ1 o1 hI hfair hx1
      refine ⟨hI.exec hx1 hfair.positive, fun h0 => ?_, fair_round hI hfair hx1⟩
      have hle := hI.left hx1 hfair.positive hfair.steady
      omega
    · intro σ _ h0
      exact (Nat.add_eq_zero_iff.mp h0).1
    · exact Nat.le_trans (Nat.add_le_add_left hsub _) hn
  intro r
  rw [← (left_run h hx hpos' hsteady).1]
  exact agreed (exec_append.mpr ⟨_, _, _, h, hx, rfl⟩) hpos' hz r

/-- what is left after `settled`, in six rounds: the new source 9 is read of and asked about, its
request is answered, the description is read, and then there is nothing to do -/
def described9Rounds : List (List (Move (UInt64 × KernelAct) Step)) :=
  [[.machine (.sendNextMsg 4 24), .machine (.readNextMessage 4 4 (structs3789.addedMsg 9 4) 28)],
   [.machine (.sendNextMsg 5 24), .peer (9, .answers)],
   [.machine (.sendNextMsg 6 24),
    .machine (.readNextMessage 6 6 (structs3789.udpDescMsg 9 4 90 91) 248)],
   [.machine (.sendNextMsg 7 24)], [.machine (.sendNextMsg 8 24)], [.machine (.sendNextMsg 9 24)]]

theorem converges_settled : ∃ σ os σ' os',
    session3789.runWithKernel settled = some (σ, os) ∧
    exec session3789.link.step σ described9Rounds.flatten = some (σ', os') ∧ left σ = 4 ∧
    reports 9 (Link.did os) = [] ∧ reports 9 (Link.did (os ++ os')) = [.onStreamAdded] ∧
    ∀ r, Follows listens false (reports r (Link.did (os ++ os'))) (σ.peer r == some true) := by
  have hrun : ((session3789.runWithKernel settled).bind fun x =>
      if Rounds session3789.link.step (FairRound session3789) x.1 described9Rounds then
        (exec session3789.link.step x.1 described9Rounds.flatten).map fun y =>
          (left x.1, reports 9 (Link.did x.2), reports 9 (Link.did (x.2 ++ y.2)))
      else none) = some (4, [], [.onStreamAdded]) := by decide
  obtain ⟨⟨σ, os⟩, h, hrest⟩ := Option.bind_eq_some_iff.mp hrun
  dsimp only at hrest
  split at hrest
  · next hf =>
    obtain ⟨⟨σ', os'⟩, hx, he⟩ := Option.map_eq_some_iff.mp hrest
    simp only [Prod.mk.injEq] at he
    obtain ⟨hl, h1, h2⟩ := he
    exact ⟨σ, os, σ', os', h, hx, hl, h1, h2,
      converges h (by decide) hf hx (hl ▸ Nat.le_refl 6)⟩
  · cases hrest

end Session

end Ntstat
