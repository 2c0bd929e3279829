import Ntstat.Laws.Agreement
import Ntstat.Laws.Poll

/-!
# After the kernel has stopped to change

An announcement makes a source wait, which makes a request, which makes a description.

* `Steady`       the moves of the client and the answers of the kernel;
* `left`         what is left to exchange until nothing is due;
* `left_run`     steady moves never make it more, and every exchange makes it less;
* `settles`      so what is exchanged after the kernel has stopped to change is bounded;
* `agreed`       where nothing is left, the application knows what the kernel knows;
* `closer`       as long as something is left, it can be exchanged;
* `reconciles`   so the application can always come to know what the kernel knows.
-/

namespace Ntstat
open Memory Machine Std

namespace Session
variable {S : Session} {σ σ' : System} {moves more : List (Move (UInt64 × KernelAct) Step)}
  {m : Move (UInt64 × KernelAct) Step} {os os' : List (Effect ⊕ UInt64 × Notice)} {r : UInt64}

/-- the clock readings of the moves of the client -/
theorem positive_moves : Positive ((moves ++ more).filterMap Move.input) ↔
    Positive (moves.filterMap Move.input) ∧ Positive (more.filterMap Move.input) := by
  rw [List.filterMap_append]
  simp only [positive_iff, List.forall_mem_append]

/-- nothing appears, disappears or is spoken of unasked -/
def Steady : Move (UInt64 × KernelAct) Step → Prop
  | .peer act => act.2 = .answers
  | .machine _ => True

instance : DecidablePred Steady
  | .peer act => inferInstanceAs (Decidable (act.2 = .answers))
  | .machine _ => .isTrue trivial

/-- a request is answered, or a message about a source is read -/
def exchanges (S : Session) : Move (UInt64 × KernelAct) Step → Bool
  | .peer act => act.2 = .answers
  | .machine st => (st.brings S.version).isSome

/-- the answers and messages in the moves, and the requests for descriptions -/
def exchanged (S : Session) (moves : List (Move (UInt64 × KernelAct) Step))
    (os : List (Effect ⊕ UInt64 × Notice)) : Nat :=
  moves.countP (exchanges S) + ((Link.did os).filterMap S.link.asks).length

theorem exchanged_append (S : Session) (moves more : List (Move (UInt64 × KernelAct) Step))
    (os os' : List (Effect ⊕ UInt64 × Notice)) :
    exchanged S (moves ++ more) (os ++ os') = exchanged S moves os + exchanged S more os' := by
  unfold exchanged
  rw [List.countP_append, Link.did_append, List.filterMap_append, List.length_append]
  omega

/-- what a message leads to, the message included -/
def weight (m : UInt64 × Notice) : Nat := if m.2 = .added then 4 else 1

/-- what is left to exchange -/
def left (σ : System) : Nat :=
  (σ.queue.map weight).sum + 3 * σ.machine.mapWaitingForDesc.size + 2 * σ.requests.length

theorem brings_of_added {st : Step} {now : Time} {prov : UInt32}
    (h : st.input S.handler = .added now r prov) : st.brings S.version = some (r, .added) := by
  have hn := (notice_of_added (r := r) h).trans (if_pos rfl)
  rw [notice_of_brings] at hn
  obtain ⟨x, hx, he⟩ := Option.bind_eq_some_iff.mp hn
  unfold noticeAbout at he
  split at he
  · next hr => rw [hx, ← hr, ← Option.some.inj he]
  · cases he

theorem left_kernel {act : UInt64 × KernelAct} {k : UInt64 → Option Bool}
    {said : List (UInt64 × Notice)} {requests : List UInt64} (hact : act.2 = .answers)
    (hk : kernelStep σ.peer σ.requests act = some (k, said, requests)) :
    k = σ.peer ∧ left ⟨k, σ.queue ++ said, requests, σ.machine⟩ + 1 ≤ left σ := by
  obtain ⟨b, ns, hb, rfl, rfl, ⟨-, hm, rfl⟩ | ⟨hne, -⟩⟩ := acts_of_step hk
  · have hlen := List.length_erase_of_mem hm
    have hpos := List.length_pos_of_mem hm
    have hsame : b = σ.peer act.1 ∧ ((ns.map fun n => (act.1, n)).map weight).sum ≤ 1 := by
      rw [hact] at hb
      cases hp : σ.peer act.1 with
      | none =>
        rw [hp] at hb
        obtain ⟨rfl, rfl⟩ := Prod.mk.inj (Option.some.inj hb)
        exact ⟨rfl, Nat.zero_le _⟩
      | some ports =>
        rw [hp] at hb
        obtain ⟨rfl, rfl⟩ := Prod.mk.inj (Option.some.inj hb)
        exact ⟨rfl, Nat.le_refl _⟩
    obtain ⟨rfl, hw⟩ := hsame
    refine ⟨Function.update_eq_self _ _, ?_⟩
    unfold left
    dsimp only
    rw [List.map_append, List.sum_append, hlen]
    omega
  · exact absurd hact hne

/-- every request for a description takes a source off the wait -/
theorem asked_le {c : Client} (hp : S.Pending c) {d n : ExtTreeMap UInt64 Ptr}
    {enq wr : List (List UInt8)} (hx : c.Sends S.version d n enq wr) :
    d.size + (wr.filterMap S.version.descIn).length ≤ c.mapWaitingForDesc.size := by
  have hother : ∀ msg, hdrType (Mem.ofList msg) ≠ .getSrcDesc →
      ([msg].filterMap S.version.descIn).length = 0 := by
    intro msg ht
    have hnone : S.version.descIn msg = none := if_neg ht
    rw [List.filterMap_cons_none hnone]
    rfl
  cases hx with
  | @first qm _ hq =>
    rw [hother]
    · exact Nat.le_refl _
    · rw [hp.outq qm (hq ▸ List.mem_cons_self)]
      exact MsgType.noConfusion
  | @desc k p rest context providerId _ hk =>
    have hle := List.length_filterMap_le S.version.descIn
      [S.version.handler.writeSrcDesc context providerId (c.heap p).srcRef]
    rw [List.length_singleton] at hle
    rw [← ExtTreeMap.length_toList, ← ExtTreeMap.length_toList, toList_erase_head hk, hk,
      List.length_cons]
    exact Nat.add_le_add_left hle _
  | count =>
    rw [hother]
    · exact Nat.le_refl _
    · rw [S.version.hdrType_querySrc]
      exact MsgType.noConfusion
  | _ => exact Nat.le_refl _

/-- what is read weighs as much as what it leads to -/
theorem read_weight (S : Session) (st : Step) :
    3 * S.addsIn [st] + (if (st.brings S.version).isSome then 1 else 0) ≤
      ((st.brings S.version).toList.map weight).sum := by
  have hadds : S.addsIn [st] = if (st.input S.handler).isAdded then 1 else 0 :=
    List.countP_singleton
  rw [hadds]
  generalize hi : st.input S.handler = i
  cases i with
  | added now r prov =>
    rw [brings_of_added hi]
    exact Nat.le_refl _
  | _ =>
    cases st.brings S.version with
    | none => exact Nat.le_refl _
    | some x =>
      show 1 ≤ weight x + 0
      unfold weight
      split <;> omega

theorem left_client (h : S.runWithKernel moves = some (σ, os)) {st : Step}
    (hpos : Positive (moves.filterMap Move.input)) {queue : List (UInt64 × Notice)}
    (hq : σ.queue = (st.brings S.version).toList ++ queue) {c' : Client} {effs : List Effect}
    (hst : S.step σ.machine st = some (c', effs)) :
    left ⟨σ.peer, queue, σ.requests ++ effs.filterMap S.link.asks, c'⟩ +
      ((if (st.brings S.version).isSome then 1 else 0) + (effs.filterMap S.link.asks).length) ≤
        left σ := by
  have hrun := system_run h
  unfold left
  dsimp only
  rw [List.length_append, asks_written]
  by_cases hsend : ∃ timestamp rc, st = .sendNextMsg timestamp rc
  · obtain ⟨timestamp, rc, rfl⟩ := hsend
    obtain rfl : σ.queue = queue := hq
    have hx := (Client.sends_sendNextMsg (run_numbered hrun).live timestamp rc
      (Option.some.inj hst)).1
    have hle := asked_le (run_pending hrun hpos) hx
    rw [if_neg (show ¬ (Step.brings S.version (.sendNextMsg timestamp rc)).isSome = true from
      Bool.false_ne_true)]
    dsimp only at hle
    omega
  · have hs : ∀ timestamp rc, st ≠ .sendNextMsg timestamp rc :=
      fun timestamp rc he => hsend ⟨timestamp, rc, he⟩
    have hsize := size_waited (step_waited (session_life hrun).1 hst hs)
    have hread := read_weight S st
    rw [written_other hst hs, List.filterMap_nil, List.length_nil, hq, List.map_append,
      List.sum_append]
    omega

theorem left_step (h : S.runWithKernel moves = some (σ, os))
    (hpos : Positive (moves.filterMap Move.input)) (hm : Steady m)
    (hst : S.link.step σ m = some (σ', os')) :
    σ'.peer = σ.peer ∧ left σ' + exchanged S [m] os' ≤ left σ := by
  unfold exchanged
  rw [List.countP_singleton]
  cases Link.moves_of_step hst with
  | @peer act k said requests hk =>
    have hact : act.2 = .answers := hm
    obtain ⟨hpeer, hleft⟩ := left_kernel hact hk
    refine ⟨hpeer, ?_⟩
    rw [show exchanges S (.peer act) = true from decide_eq_true hact, if_pos rfl]
    have hdid : Link.did (said.map (Sum.inr : _ → Effect ⊕ UInt64 × Notice)) = [] :=
      Link.did_inr said
    rw [hdid]
    exact hleft
  | @machine st queue c' effs hq hc =>
    have hdid : Link.did (effs.map (Sum.inl : _ → Effect ⊕ UInt64 × Notice)) = effs :=
      Link.did_inl effs
    rw [hdid]
    exact ⟨rfl, left_client h hpos hq hc⟩

/-- what a run exchanges is less to exchange after it -/
theorem left_run (h : S.runWithKernel moves = some (σ, os))
    (hx : exec S.link.step σ more = some (σ', os'))
    (hpos : Positive ((moves ++ more).filterMap Move.input)) (hs : ∀ m ∈ more, Steady m) :
    σ'.peer = σ.peer ∧ left σ' + exchanged S more os' ≤ left σ := by
  refine exec_inv (P := fun more σ' os' => Positive ((moves ++ more).filterMap Move.input) →
    (∀ m ∈ more, Steady m) → σ'.peer = σ.peer ∧ left σ' + exchanged S more os' ≤ left σ)
    (fun _ _ => ⟨rfl, Nat.le_refl _⟩) ?_ hx hpos hs
  intro more σ1 o1 m σ2 o2 hx hP hst hpos hs
  rw [← List.append_assoc] at hpos
  have hpos1 := (positive_moves.mp hpos).1
  obtain ⟨hpeer, hleft⟩ := hP hpos1 fun m hm => hs m (List.mem_append_left _ hm)
  obtain ⟨hpeer2, hleft2⟩ := left_step (exec_append.mpr ⟨_, _, _, h, hx, rfl⟩) hpos1
    (hs m (List.mem_append_right _ List.mem_cons_self)) hst
  refine ⟨hpeer2.trans hpeer, ?_⟩
  rw [exchanged_append]
  omega

/-- **After the kernel has stopped to change, no more is exchanged than was left**, whatever the
order of the steps. -/
theorem settles (h : S.runWithKernel moves = some (σ, os))
    (hx : exec S.link.step σ more = some (σ', os'))
    (hpos : Positive ((moves ++ more).filterMap Move.input)) (hs : ∀ m ∈ more, Steady m) :
    exchanged S more os' ≤ left σ := by
  have hle := (left_run h hx hpos hs).2
  omega

/-! ## nothing gets stuck -/

/-- a reference that the kernel gives has the size of the version's -/
def Sized (S : Session) : Move (UInt64 × KernelAct) Step → Prop
  | .peer act => act.1.toNat < 256 ^ S.version.structs.srcRefSize
  | .machine _ => True

instance (S : Session) : DecidablePred (Sized S)
  | .peer act => inferInstanceAs (Decidable (act.1.toNat < _))
  | .machine _ => .isTrue trivial

theorem descIn_sized {v : KernelVersion} {msg : List UInt8} (h : v.descIn msg = some r) :
    r.toNat < 256 ^ v.structs.srcRefSize := by
  unfold KernelVersion.descIn at h
  split at h
  · next ht =>
    obtain rfl := Option.some.inj h
    unfold KernelVersion.srcrefIn
    rw [ht]
    exact Nat.lt_of_le_of_lt (Nat.mod_le _ _) (readLE_lt _ _ _)
  · cases h

/-- so have the references in the queue and in the requests -/
theorem sized_system (h : S.runWithKernel moves = some (σ, os))
    (hs : ∀ m ∈ moves, Sized S m) :
    (∀ x ∈ σ.queue, x.1.toNat < 256 ^ S.version.structs.srcRefSize) ∧
      ∀ r ∈ σ.requests, r.toNat < 256 ^ S.version.structs.srcRefSize := by
  refine exec_inv (P := fun moves σ _ => (∀ m ∈ moves, Sized S m) →
    (∀ x ∈ σ.queue, x.1.toNat < 256 ^ S.version.structs.srcRefSize) ∧
      ∀ r ∈ σ.requests, r.toNat < 256 ^ S.version.structs.srcRefSize)
    (fun _ => ⟨fun x hx => absurd hx List.not_mem_nil, fun r hr => absurd hr List.not_mem_nil⟩)
    ?_ h hs
  intro moves σ1 o1 m σ2 o2 _ hP hst hs
  obtain ⟨hq, hr⟩ := hP fun m hm => hs m (List.mem_append_left _ hm)
  cases Link.moves_of_step hst with
  | @peer act k said requests hk =>
    obtain ⟨b, ns, -, -, rfl, hreq⟩ := acts_of_step hk
    have hact : act.1.toNat < 256 ^ S.version.structs.srcRefSize :=
      hs _ (List.mem_append_right _ List.mem_cons_self)
    refine ⟨fun x hx => ?_, fun r hm => hr r ?_⟩
    · rcases List.mem_append.mp hx with hx | hx
      · exact hq x hx
      · obtain ⟨n, -, rfl⟩ := List.mem_map.mp hx
        exact hact
    · rcases hreq with ⟨-, -, rfl⟩ | ⟨-, rfl⟩
      · exact List.mem_of_mem_erase hm
      · exact hm
  | @machine st queue c' effs hq' hc =>
    rw [hq'] at hq
    refine ⟨fun x hx => hq x (List.mem_append_right _ hx), fun r hm => ?_⟩
    rcases List.mem_append.mp hm with hm | hm
    · exact hr r hm
    · obtain ⟨e, -, he⟩ := List.mem_filterMap.mp hm
      obtain ⟨msg, -, hd⟩ := Option.bind_eq_some_iff.mp he
      exact descIn_sized hd

/-- a message with the notice -/
def noticeStep (S : Session) (x : UInt64 × Notice) : Step :=
  .readNextMessage 1 1 (S.version.noticeMsg x.1 x.2) 2048

/-- the client can read whatever notice is next -/
theorem noticeStep_reads {x : UInt64 × Notice} (hr : x.1.toNat < 256 ^ S.version.structs.srcRefSize)
    (hx : x.2 ≠ .desc none) (c : Client) : (noticeStep S x).brings S.version = some x ∧
      ∃ c' effs, S.step c (noticeStep S x) = some (c', effs) := by
  obtain ⟨hn, href, hdesc⟩ := S.version.noticeMsg_reads hr hx 2048
  have hbrings : (noticeStep S x).brings S.version = some x := by
    unfold noticeStep Step.brings
    dsimp only
    rw [if_pos (by decide), hn, show (2048 : Int).toNat = 2048 from rfl, href]
    rfl
  refine ⟨hbrings, ?_⟩
  have hsome : (c.sources.step ((noticeStep S x).input S.handler)).isSome := by
    generalize hi : (noticeStep S x).input S.handler = i
    cases i with
    | added now r prov =>
      by_cases hv : c.sources.Vacant r
      · rw [Sources.step_added_vacant _ hv]
        rfl
      · rw [Sources.step_added_known _ hv]
        rfl
    | message r e =>
      cases hm : c.sources.map r with
      | none =>
        rw [Sources.step_message_none _ _ hm]
        rfl
      | some p =>
        rw [Sources.step_message_some _ _ hm, Option.isSome_map]
        obtain ⟨now, _, buf, n, he, -, -, hcases⟩ := message_of_input hi
        obtain ⟨-, -, rfl, rfl⟩ := Step.readNextMessage.inj he
        rcases hcases with ⟨-, rfl⟩ | ⟨ht, rfl⟩ | ⟨-, rfl⟩
        · rfl
        · have hports : ∃ ports, x.2 = .desc ports := by
            unfold KernelVersion.notice at hn
            rw [ht] at hn
            exact ⟨_, (Option.some.inj hn).symm⟩
          obtain ⟨ports, hports⟩ := hports
          exact (Option.isSome_map ..).trans (hdesc ports hports _)
        · rfl
    | _ => rfl
  rw [← step_refines, Option.isSome_map] at hsome
  obtain ⟨⟨c', effs⟩, h⟩ := Option.isSome_iff_exists.mp hsome
  exact ⟨c', effs, h⟩

theorem left_zero (h : left σ = 0) :
    σ.queue = [] ∧ σ.requests = [] ∧ σ.machine.mapWaitingForDesc = ∅ := by
  unfold left at h
  refine ⟨?_, List.length_eq_zero_iff.mp (by omega), ExtTreeMap.eq_empty_iff_size_eq_zero.mpr
    (by omega)⟩
  cases hq : σ.queue with
  | nil => rfl
  | cons x queue =>
    rw [hq, List.map_cons, List.sum_cons] at h
    unfold weight at h
    split at h <;> omega

/-- steady moves, at positive times, about references of the size of the version's -/
structure Calm (S : Session) (more : List (Move (UInt64 × KernelAct) Step)) : Prop where
  steady : ∀ m ∈ more, Steady m
  positive : Positive (more.filterMap Move.input)
  sized : ∀ m ∈ more, Sized S m

/-- calm moves lead to less that is left to exchange -/
def Closer (S : Session) (σ : System) : Prop :=
  ∃ more σ' os', exec S.link.step σ more = some (σ', os') ∧ Calm S more ∧ left σ' < left σ

theorem closer_read (h : S.runWithKernel moves = some (σ, os))
    (hpos : Positive (moves.filterMap Move.input)) (hs : ∀ m ∈ moves, Sized S m)
    {x : UInt64 × Notice} {queue : List (UInt64 × Notice)} (hq : σ.queue = x :: queue) :
    Closer S σ := by
  have hx : x.2 ≠ .desc none := fun he => queue_read h (r := x.1) (hq ▸ he ▸ List.mem_cons_self)
  obtain ⟨hbrings, c', effs, hst⟩ :=
    noticeStep_reads ((sized_system h hs).1 x (hq ▸ List.mem_cons_self)) hx σ.machine
  have hq' : σ.queue = ((noticeStep S x).brings S.version).toList ++ queue := by
    rw [hq, hbrings]
    rfl
  have hleft := left_client h hpos hq' hst
  rw [hbrings, if_pos (show (some x).isSome = true from rfl)] at hleft
  refine ⟨[.machine (noticeStep S x)], _, _,
    exec_single.mpr (Link.step_of_moves (.machine hq' hst)),
    ⟨fun m hm => ?_, ?_, fun m hm => ?_⟩, ?_⟩
  · rw [List.mem_singleton.mp hm]
    trivial
  · refine positive_iff.mpr fun st hm t ht => ?_
    obtain rfl := List.mem_singleton.mp hm
    obtain rfl := Option.some.inj ht
    decide
  · rw [List.mem_singleton.mp hm]
    trivial
  · exact Nat.lt_of_lt_of_le (by omega) hleft

theorem closer_answer (h : S.runWithKernel moves = some (σ, os)) (hs : ∀ m ∈ moves, Sized S m)
    (hr : r ∈ σ.requests) : Closer S σ := by
  have hk : ∃ k said requests,
      kernelStep σ.peer σ.requests (r, .answers) = some (k, said, requests) := by
    unfold kernelStep
    rw [if_neg fun hn => hn.2 hr]
    cases hp : σ.peer r with
    | none => exact ⟨_, _, _, rfl⟩
    | some ports => exact ⟨_, _, _, rfl⟩
  obtain ⟨k, said, requests, hk⟩ := hk
  refine ⟨[.peer (r, .answers)], _, _, exec_single.mpr (Link.step_of_moves (.peer hk)),
    ⟨fun m hm => ?_, ?_, fun m hm => ?_⟩, (left_kernel rfl hk).2⟩
  · rw [List.mem_singleton.mp hm]
    rfl
  · exact positive_iff.mpr fun st hm => absurd hm List.not_mem_nil
  · rw [List.mem_singleton.mp hm]
    exact (sized_system h hs).2 r hr

theorem closer_send (h : S.runWithKernel moves = some (σ, os))
    (hpos : Positive (moves.filterMap Move.input)) (hw : σ.machine.mapWaitingForDesc ≠ ∅) :
    Closer S σ := by
  obtain ⟨c', e, hx, hd⟩ := exists_drained (system_run h)
    (List.replicate σ.machine.entries (1, 24)) List.length_replicate
  generalize hsteps : sending (List.replicate σ.machine.entries (1, 24)) = steps at hx
  have hsend : ∀ st ∈ steps, ∃ timestamp rc, st = .sendNextMsg timestamp rc := by
    intro st hm
    rw [← hsteps] at hm
    obtain ⟨y, -, rfl⟩ := List.mem_map.mp hm
    exact ⟨_, _, rfl⟩
  have hmachine := Link.exec_machine (L := S.link) (s := σ) (fun st hm => by
    obtain ⟨timestamp, rc, rfl⟩ := hsend st hm
    rfl) hx
  have hinput : (steps.map Move.machine : List (Move (UInt64 × KernelAct) Step)).filterMap
      Move.input = steps := by
    rw [List.filterMap_map]
    exact List.filterMap_some
  have hcalm : Calm S (steps.map Move.machine) := by
    refine ⟨fun m hm => ?_, ?_, fun m hm => ?_⟩
    · obtain ⟨st, -, rfl⟩ := List.mem_map.mp hm
      trivial
    · rw [hinput]
      refine positive_iff.mpr fun st hm t ht => ?_
      obtain ⟨timestamp, rc, rfl⟩ := hsend st hm
      cases ht
    · obtain ⟨st, -, rfl⟩ := List.mem_map.mp hm
      trivial
  refine ⟨_, _, _, hmachine, hcalm, ?_⟩
  have hle := (left_run h hmachine (positive_moves.mpr ⟨hpos, hcalm.positive⟩) hcalm.steady).2
  have hsize : 0 < σ.machine.mapWaitingForDesc.size :=
    Nat.pos_of_ne_zero fun h0 => hw (ExtTreeMap.eq_empty_iff_size_eq_zero.mpr h0)
  have hdid : Link.did (e.map (Sum.inl : _ → Effect ⊕ UInt64 × Notice)) = e := Link.did_inl e
  unfold exchanged at hle
  rw [hdid] at hle
  unfold left at hle ⊢
  dsimp only at hle ⊢
  rw [hd.desc, ExtTreeMap.size_empty, List.length_append] at hle ⊢
  omega

/-- as long as something is left to exchange, some moves exchange it -/
theorem closer (h : S.runWithKernel moves = some (σ, os))
    (hpos : Positive (moves.filterMap Move.input)) (hs : ∀ m ∈ moves, Sized S m) (hl : left σ ≠ 0) :
    Closer S σ := by
  cases hq : σ.queue with
  | cons x queue => exact closer_read h hpos hs hq
  | nil =>
    cases hr : σ.requests with
    | cons r requests => exact closer_answer h hs (hr ▸ List.mem_cons_self)
    | nil =>
      refine closer_send h hpos fun hw => hl ?_
      unfold left
      rw [hq, hr, hw]
      rfl

theorem calm_append (h : Calm S moves) (h' : Calm S more) : Calm S (moves ++ more) :=
  ⟨List.forall_mem_append.mpr ⟨h.steady, h'.steady⟩,
    positive_moves.mpr ⟨h.positive, h'.positive⟩, List.forall_mem_append.mpr ⟨h.sized, h'.sized⟩⟩

/-- nothing is left after some calm moves -/
theorem exhausted (h : S.runWithKernel moves = some (σ, os))
    (hpos : Positive (moves.filterMap Move.input)) (hs : ∀ m ∈ moves, Sized S m) :
    ∃ more σ' os', exec S.link.step σ more = some (σ', os') ∧ Calm S more ∧ left σ' = 0 := by
  generalize hn : left σ = n
  induction n using Nat.strongRecOn generalizing moves σ os with
  | ind n ih =>
    by_cases h0 : n = 0
    · refine ⟨[], σ, [], rfl, ⟨fun m hm => absurd hm List.not_mem_nil, ?_,
        fun m hm => absurd hm List.not_mem_nil⟩, hn.trans h0⟩
      exact positive_iff.mpr fun st hm => absurd hm List.not_mem_nil
    · obtain ⟨more, σ1, o1, hx, hcalm, hlt⟩ := closer h hpos hs (hn ▸ h0)
      obtain ⟨more', σ2, o2, hx', hcalm', hz⟩ := ih (left σ1) (hn ▸ hlt)
        (exec_append.mpr ⟨_, _, _, h, hx, rfl⟩) (positive_moves.mpr ⟨hpos, hcalm.positive⟩)
        (List.forall_mem_append.mpr ⟨hs, hcalm.sized⟩) rfl
      exact ⟨more ++ more', σ2, o1 ++ o2, exec_append.mpr ⟨_, _, _, hx, hx', rfl⟩,
        calm_append hcalm hcalm', hz⟩

/-- where nothing is left, the application has open what the kernel has with ports -/
theorem agreed (h : S.runWithKernel moves = some (σ, os))
    (hpos : Positive (moves.filterMap Move.input)) (hz : left σ = 0) (r : UInt64) :
    Follows listens false (reports r (Link.did os)) (σ.peer r == some true) := by
  obtain ⟨hq, hr, hw⟩ := left_zero hz
  have hidle : σ.machine.mapWaitingForDesc[r]? = none := by
    rw [hw]
    exact ExtTreeMap.getElem?_empty
  obtain ⟨a, ha, hopen⟩ := heard_all (r := r) h hpos (fun x hm => by
    rw [hq] at hm
    cases hm) (hr ▸ List.not_mem_nil) hidle
  rw [← hopen]
  exact (run_tracks (system_run h) hpos ha).2

/-- **From every state that a system comes to, the application can come to know what the kernel
knows**, without a change of the kernel. -/
theorem reconciles (h : S.runWithKernel moves = some (σ, os))
    (hpos : Positive (moves.filterMap Move.input)) (hs : ∀ m ∈ moves, Sized S m) :
    ∃ more σ' os', exec S.link.step σ more = some (σ', os') ∧ (∀ m ∈ more, Steady m) ∧
      ∀ r, Follows listens false (reports r (Link.did (os ++ os'))) (σ.peer r == some true) := by
  obtain ⟨more, σ', os', hx, hcalm, hz⟩ := exhausted h hpos hs
  have hpos' := positive_moves.mpr ⟨hpos, hcalm.positive⟩
  refine ⟨more, σ', os', hx, hcalm.steady, fun r => ?_⟩
  rw [← (left_run h hx hpos' hcalm.steady).1]
  exact agreed (exec_append.mpr ⟨_, _, _, h, hx, rfl⟩) hpos' hz r

/-- what is left after `settled`: the new source 9 is read of, asked about and described -/
def described9 : List (Move (UInt64 × KernelAct) Step) :=
  [.machine (.readNextMessage 4 4 (structs3789.addedMsg 9 4) 28),
   .machine (.sendNextMsg 4 24),
   .peer (9, .answers),
   .machine (.readNextMessage 5 5 (structs3789.udpDescMsg 9 4 90 91) 248)]

theorem settles_settled : ∃ σ os σ' os',
    session3789.runWithKernel settled = some (σ, os) ∧
    exec session3789.link.step σ described9 = some (σ', os') ∧
    exchanged session3789 described9 os' = 4 ∧ exchanged session3789 described9 os' ≤ left σ := by
  have hrun : ((session3789.runWithKernel settled).bind fun x =>
      (exec session3789.link.step x.1 described9).map fun y =>
        exchanged session3789 described9 y.2) = some 4 := by decide
  obtain ⟨⟨σ, os⟩, h, hrest⟩ := Option.bind_eq_some_iff.mp hrun
  obtain ⟨⟨σ', os'⟩, hx, hn⟩ := Option.map_eq_some_iff.mp hrest
  exact ⟨σ, os, σ', os', h, hx, hn, settles h hx (by unfold Positive; decide)
    (by decide)⟩

theorem reconciles_settled : ∃ σ os,
    session3789.runWithKernel settled = some (σ, os) ∧
    σ.queue = [(9, .added)] ∧ ∃ more σ' os', exec session3789.link.step σ more = some (σ', os') ∧
      (∀ m ∈ more, Steady m) ∧
      ∀ r, Follows listens false (reports r (Link.did (os ++ os'))) (σ.peer r == some true) := by
  have hrun : (session3789.runWithKernel settled).map (fun x => x.1.queue) =
      some [(9, .added)] := by decide
  obtain ⟨⟨σ, os⟩, h, hq⟩ := Option.map_eq_some_iff.mp hrun
  exact ⟨σ, os, h, hq, reconciles h (by unfold Positive; decide) (by decide)⟩

end Session

end Ntstat
