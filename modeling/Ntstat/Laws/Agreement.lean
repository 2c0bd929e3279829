import Ntstat.Kernel.Peer
import Ntstat.Laws.Conformance
import Ntstat.Laws.Service

/-!
# The client and a kernel

The kernel and the client take their steps in any order; the messages that the client has not read
are in a queue, and the requests for descriptions that the kernel has not answered stand with it.
Nothing gets lost on the way.

* `Session.link`, `runWithKernel`   the closed system, and its runs;
* `system_life`     what the client has heard of a source, what is in the queue, what is true of it;
* `Due`             the description of a source is asked for or on its way, or the source is gone;
* `system_due`      a source that the client knows and that is not described is due;
* `agreement`       so where nothing is due, the application knows what the kernel knows.
-/

namespace Ntstat
open Memory Machine Std

/-- the notice in a step, with its source -/
def Step.brings (v : KernelVersion) : Step → Option (UInt64 × Notice)
  | readNextMessage _ _ buf n =>
    if 0 < n then (v.notice buf).map fun x => ((v.handler.getSrcRef buf n.toNat (0, 0)).1, x)
    else none
  | _ => none

theorem notice_of_brings (v : KernelVersion) (r : UInt64) (st : Step) :
    st.notice v r = (st.brings v).bind (noticeAbout r) := by
  cases st with
  | readNextMessage now timestamp buf n =>
    unfold Step.notice Step.brings
    dsimp only
    by_cases hn : 0 < n
    · cases v.notice buf with
      | none => simp [hn]
      | some x => simp [hn, noticeAbout]
    · rw [if_neg hn, if_neg fun h => hn h.1]
      rfl
  | _ => rfl

/-- the source of a GET_SRC_DESC -/
def KernelVersion.descIn (v : KernelVersion) (msg : List UInt8) : Option UInt64 :=
  if hdrType (Mem.ofList msg) = .getSrcDesc then some (v.srcrefIn (Mem.ofList msg)) else none

/-- after it, the source is described or gone -/
def Notice.settles : Notice → Bool
  | removed => true
  | desc _ => true
  | _ => false

/-- what the application is to know of a source -/
theorem SourceLife.Of.isOpen {a : SourceLife} {b : Option Bool} (h : a.Of b)
    (hne : a ≠ .live none) : a.isOpen = (b == some true) := by
  cases h with
  | unseen => rfl
  | removed => rfl
  | undescribed ports => exact absurd rfl hne
  | described ports => cases ports <;> rfl

/-- a live source without a description stays so only if nothing settles it -/
theorem SourceLife.desc_of_settles {other : Bool} {x : Notice}
    (h : (SourceLife.live none).next other x = some (.live none)) (hx : x.settles = true) :
    x = .desc none := by
  cases x with
  | desc ports => cases ports <;> simp_all [SourceLife.next]
  | removed => cases h
  | _ => cases hx

namespace Session
variable {S : Session}

/-- a kernel and the client of a session -/
abbrev System := Linked (UInt64 → Option Bool) Client (UInt64 × Notice) UInt64

/-- what is passed to `write` reaches the kernel -/
def link (S : Session) : Link (UInt64 → Option Bool) Client (UInt64 × Notice) UInt64
    (UInt64 × KernelAct) Step Effect where
  machine := S.step
  takes := Step.brings S.version
  asks e := e.written.bind S.version.descIn
  peer := kernelStep

/-- the client at the loop of `run`, and nothing said by the kernel -/
def system (S : Session) : System := ⟨fun _ => none, [], [], S.start⟩

def runWithKernel (S : Session) (moves : List (Move (UInt64 × KernelAct) Step)) :
    Option (System × List (Effect ⊕ UInt64 × Notice)) := exec S.link.step S.system moves

/-- the description of `r` is asked for or on its way, or the source is gone -/
inductive Due (σ : System) (r : UInt64) : Prop
  | waits {p : Ptr} (h : σ.machine.mapWaitingForDesc[r]? = some p)
  | asked (h : r ∈ σ.requests)
  | coming {x : Notice} (h : (r, x) ∈ σ.queue) (hx : x.settles = true)

variable {σ σ' : System} {moves : List (Move (UInt64 × KernelAct) Step)}
  {m : Move (UInt64 × KernelAct) Step} {os os' : List (Effect ⊕ UInt64 × Notice)} {r : UInt64}
  {a b : SourceLife}

theorem heard_of_brings (S : Session) (r : UInt64) (steps : List Step) :
    S.heard r steps = (steps.filterMap (Step.brings S.version)).filterMap (noticeAbout r) := by
  unfold heard
  rw [List.filterMap_filterMap]
  exact List.filterMap_congr fun st _ => notice_of_brings S.version r st

/-- the client's part of a system run is a run of the session -/
theorem system_run (h : S.runWithKernel moves = some (σ, os)) :
    S.run (moves.filterMap Move.input) = some (σ.machine, Link.did os) := Link.run_machine h

/-- **What the client has heard of a source and what is in the queue lead to what is true of
it.** -/
theorem system_life (h : S.runWithKernel moves = some (σ, os)) (r : UInt64) :
    ∃ a b, Follows S.order .unseen (S.heard r (moves.filterMap Move.input)) a ∧
      Follows S.order a (σ.queue.filterMap (noticeAbout r)) b ∧ b.Of (σ.peer r) := by
  obtain ⟨b, hb, hof⟩ := Link.run_peer (L := S.link) (q := noticeAbout r)
    (d := S.order) (R := fun a k => a.Of (k r))
    (fun a k requests m k' said requests' ha hk => kernel_orderly ha hk) .unseen h
  have hq := Link.run_queue h
  rw [show S.system.queue = [] from rfl, List.nil_append] at hq
  rw [hq, List.filterMap_append] at hb
  obtain ⟨a, ha, hb⟩ := follows_append.mp hb
  exact ⟨a, b, (S.heard_of_brings r _).symm ▸ ha, hb, hof⟩

/-- the kernel says nothing that the handlers cannot read -/
theorem queue_read (h : S.runWithKernel moves = some (σ, os)) :
    (r, .desc none) ∉ σ.queue := by
  intro hm
  have hq := Link.run_queue h
  rw [show S.system.queue = [] from rfl, List.nil_append] at hq
  have hs : (r, .desc none) ∈ Link.said os := hq ▸ List.mem_append_right _ hm
  exact Link.run_said (L := S.link) (P := fun x => x.2 ≠ .desc none)
    (fun k requests m k' said requests' hk => kernel_describes hk) h _ hs rfl

/-! ## what the client knows -/

section
variable {steps : List Step} {c c' : Client} {effs effs' : List Effect} {st : Step} {p : Ptr}

/-- a source that the kernel was heard to add and not heard to describe is there without a
description -/
theorem undescribed_iff (h : S.run steps = some (c, effs)) (hpos : Positive steps)
    (ha : Follows S.order .unseen (S.heard r steps) a) : a = .live none ↔
      ∃ p, c.map[r]? = some p ∧ (c.heap p).tsRemoved = 0 ∧ (c.heap p).haveDesc = false := by
  have ht := (run_tracks h hpos ha).1
  have hdesc : ∀ p, (c.heap p).haveDesc = (c.heap p).haveNotifiedAdded :=
    fun p => ((session_life h).2 p).described
  constructor
  · rintro rfl
    generalize hcell : c.sources.cell r = t at ht
    cases ht with
    | live h0 hn =>
      obtain ⟨p, hm, rfl⟩ := Option.map_eq_some_iff.mp hcell
      exact ⟨p, hm, h0, (hdesc p).trans hn⟩
  · intro hex
    obtain ⟨p, hm, h0, hd⟩ := hex
    rw [Sources.cell_some (s := c.sources) hm] at ht
    cases ht with
    | @live _ ports _ hn =>
      have hports : ports.isSome = false := hn.symm.trans ((hdesc p).symm.trans hd)
      obtain rfl : ports = none := Option.not_isSome_iff_eq_none.mp (Bool.eq_false_iff.mp hports)
      rfl
    | removed hr => exact absurd (hr _ rfl) (Int.not_lt.mpr (Int.le_of_eq h0))

/-- a description is rejected only if the handler does not read it -/
theorem brings_of_rejects (hc : c.sources.Coherent) (hm : c.map[r]? = some p)
    (h : c.sources.Rejects (st.input S.handler) p) :
    st.brings S.version = some (r, .desc none) := by
  obtain ⟨read, obj, ⟨r', hi, hm'⟩, hread⟩ := h
  obtain rfl : r' = r := (hc.srcRef hm').symm.trans (hc.srcRef hm)
  obtain ⟨now, _, buf, n, rfl, hn, hr, hcases⟩ := message_of_input hi
  rcases hcases with ⟨_, he⟩ | ⟨ht, he⟩ | ⟨_, he⟩
  · cases he
  · obtain rfl := SrcEvent.desc.inj he
    rcases readSrcDesc_ports hread with ⟨_, _, hb, _⟩ | ⟨hp, _⟩
    · cases hb
    · unfold Step.brings KernelVersion.notice
      dsimp only
      rw [if_pos hn, ht, hp, hr]
      rfl
  · cases he

/-- a source that stops waiting for its description is asked about -/
theorem asked_of_sends (hc : c.sources.Coherent) (hp : S.Pending c) {d n : ExtTreeMap UInt64 Ptr}
    {enq wr : List (List UInt8)} (hx : c.Sends S.version d n enq wr)
    (hk : c.mapWaitingForDesc[r]? = some p) :
    d[r]? = some p ∨ r ∈ wr.filterMap S.version.descIn := by
  refine (desc_of_sends hc hp hx hk).imp_right fun hex => ?_
  obtain ⟨msg, hm, ht, hr⟩ := hex
  have hw : msg ∈ wr := by
    cases hx with
    | first => cases hm
    | _ => exact hm
  refine List.mem_filterMap.mpr ⟨msg, hw, ?_⟩
  unfold KernelVersion.descIn
  rw [if_pos ht, hr]

end

/-! ## what is due -/

theorem asks_written (S : Session) (effs : List Effect) :
    effs.filterMap S.link.asks = (written effs).filterMap S.version.descIn :=
  (List.filterMap_filterMap ..).symm

theorem due_kernel (h : S.runWithKernel moves = some (σ, os))
    (ha : Follows S.order .unseen (S.heard r (moves.filterMap Move.input)) (.live none))
    {act : UInt64 × KernelAct} {k : UInt64 → Option Bool} {said : List (UInt64 × Notice)}
    {requests : List UInt64} (hk : kernelStep σ.peer σ.requests act = some (k, said, requests))
    (hd : Due σ r) : Due ⟨k, σ.queue ++ said, requests, σ.machine⟩ r := by
  cases hd with
  | waits hw => exact .waits hw
  | coming hq hx => exact .coming (List.mem_append_left _ hq) hx
  | asked hr =>
    obtain ⟨b, ns, hb, -, rfl, ⟨hact, -, rfl⟩ | ⟨-, rfl⟩⟩ := acts_of_step hk
    · by_cases hne : act.1 = r
      · obtain ⟨r', act⟩ := act
        dsimp only at hne hact hb
        subst hne hact
        cases hp : σ.peer r' with
        | some ports =>
          rw [hp] at hb
          obtain ⟨-, rfl⟩ := Prod.mk.inj (Option.some.inj hb)
          exact .coming (List.mem_append_right _ List.mem_cons_self) rfl
        | none =>
          -- it was removed, and the client has not heard of it
          obtain ⟨a, b', ha', hl, hof⟩ := system_life h r'
          obtain rfl := Option.some.inj (ha.symm.trans ha')
          rw [hp] at hof
          obtain ⟨x, hx, he⟩ := List.mem_filterMap.mp (removed_mem hl hof)
          obtain ⟨r'', x⟩ := x
          unfold noticeAbout at he
          dsimp only at he
          split at he
          · next hr' =>
            subst hr'
            obtain rfl := Option.some.inj he
            exact .coming (List.mem_append_left _ hx) rfl
          · cases he
      · exact .asked ((List.mem_erase_of_ne fun he => hne he.symm).mpr hr)
    · exact .asked hr

theorem heard_concat (S : Session) (r : UInt64) (steps : List Step) (st : Step) :
    S.heard r (steps ++ [st]) = S.heard r steps ++ (st.notice S.version r).toList := by
  unfold heard
  rw [List.filterMap_append, filterMap_cons_toList, List.filterMap_nil, List.append_nil]

theorem due_client (h : S.runWithKernel moves = some (σ, os)) {st : Step}
    (hpos : Positive (moves.filterMap Move.input ++ [st]))
    (hold : Follows S.order .unseen (S.heard r (moves.filterMap Move.input)) (.live none) → Due σ r)
    (ha : Follows S.order .unseen (S.heard r (moves.filterMap Move.input ++ [st])) (.live none))
    {queue : List (UInt64 × Notice)} (hq : σ.queue = (st.brings S.version).toList ++ queue)
    {c' : Client} {effs : List Effect} (hst : S.step σ.machine st = some (c', effs)) :
    Due ⟨σ.peer, queue, σ.requests ++ effs.filterMap S.link.asks, c'⟩ r := by
  have hrun := system_run h
  have hc := (session_life hrun).1
  obtain ⟨hpos1, hpos2⟩ := positive_concat hpos
  have hp := run_pending hrun hpos1
  obtain ⟨p, hm', h0', hd'⟩ := (undescribed_iff (run_concat hrun hst) hpos ha).mp rfl
  rw [heard_concat] at ha
  obtain ⟨a, ha1, ha2⟩ := follows_append.mp ha
  by_cases hsend : ∃ timestamp rc, st = .sendNextMsg timestamp rc
  · obtain ⟨timestamp, rc, rfl⟩ := hsend
    obtain rfl : a = .live none := follows_nil.mp ha2
    obtain rfl : σ.queue = queue := hq
    cases hold ha1 with
    | waits hw =>
      have hx := (Client.sends_sendNextMsg (run_numbered hrun).live timestamp rc
        (Option.some.inj hst)).1
      rcases asked_of_sends hc hp hx hw with hw | hr
      · exact .waits hw
      · exact .asked (List.mem_append_right _ (asks_written S effs ▸ hr))
    | asked hr => exact .asked (List.mem_append_left _ hr)
    | coming hx hs => exact .coming hx hs
  · have hw := step_waited hc hst fun timestamp rc he => hsend ⟨timestamp, rc, he⟩
    rcases Sources.undescribed_step hc (removed_positive hpos2) (step_sources hst) hm' h0' hd'
      σ.machine.mapWaitingForDesc[r]? with h1 | ⟨⟨hm, h0, hd⟩, hrej⟩
    · exact .waits ((hw.desc r).trans h1)
    · obtain rfl := (undescribed_iff hrun hpos1 ha1).mpr ⟨p, hm, h0, hd⟩
      cases hold ha1 with
      | @waits p' hw =>
        obtain ⟨hm1, -⟩ := hp.desc r p' hw
        obtain rfl := Option.some.inj (hm1.symm.trans hm)
        have hmem : (r, .desc none) ∈ σ.queue := by
          rw [hq, brings_of_rejects hc hm (hrej hw)]
          exact List.mem_cons_self
        exact absurd hmem (queue_read h)
      | asked hr => exact .asked (List.mem_append_left _ hr)
      | @coming x hx hs =>
        rcases List.mem_append.mp (hq ▸ hx) with hx' | hx'
        · -- it was read, and the source would not be live and undescribed
          have hbrings : st.brings S.version = some (r, x) := Option.mem_toList.mp hx'
          have hnotice : st.notice S.version r = some x := by
            rw [notice_of_brings, hbrings]
            exact if_pos rfl
          rw [hnotice] at ha2
          have hnone := SourceLife.desc_of_settles (follows_single.mp ha2) hs
          exact absurd (hnone ▸ hx) (queue_read h)
        · exact .coming hx' hs

/-- **A source that the client has heard of and that is not described is due.** -/
theorem system_due (h : S.runWithKernel moves = some (σ, os))
    (hpos : Positive (moves.filterMap Move.input))
    (ha : Follows S.order .unseen (S.heard r (moves.filterMap Move.input)) (.live none)) :
    Due σ r := by
  refine exec_inv (P := fun moves σ _ => Positive (moves.filterMap Move.input) →
    Follows S.order .unseen (S.heard r (moves.filterMap Move.input)) (.live none) → Due σ r)
    (fun _ ha => ?_) ?_ h hpos ha
  · cases follows_nil.mp ha
  · intro moves σ1 o1 m σ2 o2 hx hP hst hpos ha
    rw [List.filterMap_append] at hpos ha
    cases Link.moves_of_step hst with
    | peer hk =>
      rw [show [Move.peer _].filterMap Move.input = [] from rfl, List.append_nil] at hpos ha
      exact due_kernel hx ha hk (hP hpos ha)
    | machine hq hm => exact due_client hx hpos (hP (positive_concat hpos).1) ha hq hm

/-- where nothing is due, the client has heard all that is true of a source -/
theorem heard_all (h : S.runWithKernel moves = some (σ, os))
    (hpos : Positive (moves.filterMap Move.input)) (hq : ∀ x, (r, x) ∉ σ.queue)
    (hr : r ∉ σ.requests) (hw : σ.machine.mapWaitingForDesc[r]? = none) :
    ∃ a, Follows S.order .unseen (S.heard r (moves.filterMap Move.input)) a ∧
      a.isOpen = (σ.peer r == some true) := by
  obtain ⟨a, b, ha, hl, hof⟩ := system_life h r
  have hnil : σ.queue.filterMap (noticeAbout r) = [] := by
    refine List.filterMap_eq_nil_iff.mpr fun x hx => if_neg fun he => ?_
    exact hq x.2 (he ▸ hx)
  rw [hnil] at hl
  obtain rfl := follows_nil.mp hl
  refine ⟨a, ha, hof.isOpen ?_⟩
  rintro rfl
  cases system_due h hpos ha with
  | waits hw' => cases hw.symm.trans hw'
  | asked hr' => exact hr hr'
  | coming hx => exact hq _ hx

/-- **Where nothing is due, the application has open exactly the sources that the kernel has with
ports**, whatever the order of the steps of both. -/
theorem agreement (h : S.runWithKernel moves = some (σ, os))
    (hpos : Positive (moves.filterMap Move.input)) (hq : ∀ x, (r, x) ∉ σ.queue)
    (hr : r ∉ σ.requests) (hw : σ.machine.mapWaitingForDesc[r]? = none) :
    Follows listens false (reports r (Link.did os)) (σ.peer r == some true) := by
  obtain ⟨a, ha, hopen⟩ := heard_all h hpos hq hr hw
  rw [← hopen]
  exact (run_tracks (system_run h) hpos ha).2

/-- source 7 has ports and is announced again while its request is with the kernel; source 8 has
none; source 9 is removed before it is answered for, and its reference is reused -/
def settled : List (Move (UInt64 × KernelAct) Step) :=
  [.peer (7, .appears true), .peer (8, .appears false), .peer (9, .appears true),
   .machine (.sendNextMsg 1 24),
   .machine (.readNextMessage 1 1 (structs3789.addedMsg 7 4) 28),
   .machine (.sendNextMsg 1 24),
   .machine (.readNextMessage 1 1 (structs3789.addedMsg 8 4) 28),
   .machine (.readNextMessage 2 2 (structs3789.addedMsg 9 4) 28),
   .peer (7, .repeats),
   .machine (.sendNextMsg 2 24),
   .machine (.sendNextMsg 2 24),
   .peer (9, .disappears), .peer (9, .answers), .peer (8, .answers), .peer (7, .answers),
   .peer (9, .appears true),
   .machine (.readNextMessage 3 3 (structs3789.addedMsg 7 4) 28),
   .machine (.readNextMessage 3 3 (structs3789.removedMsg 9) 24),
   .machine (.readNextMessage 3 3 (structs3789.udpDescMsg 8 4 0 0) 248),
   .machine (.readNextMessage 3 3 (structs3789.udpDescMsg 7 4 80 81) 248)]

theorem agreement_settled : ∃ σ os,
    session3789.runWithKernel settled = some (σ, os) ∧
    reports 7 (Link.did os) = [.onStreamAdded] ∧ reports 8 (Link.did os) = [] ∧
    Follows listens false (reports 7 (Link.did os)) (σ.peer 7 == some true) := by
  have hrun : (session3789.runWithKernel settled).map (fun x =>
      ((reports 7 (Link.did x.2), reports 8 (Link.did x.2)),
        x.1.queue, x.1.requests, x.1.machine.mapWaitingForDesc[(7 : UInt64)]?)) =
      some (([.onStreamAdded], []), [(9, .added)], [], none) := by decide
  obtain ⟨⟨σ, os⟩, h, he⟩ := Option.map_eq_some_iff.mp hrun
  simp only [Prod.mk.injEq] at he
  obtain ⟨⟨h7, h8⟩, hq, hr, hw⟩ := he
  refine ⟨σ, os, h, h7, h8, agreement h (by unfold Positive; decide) ?_ ?_ hw⟩
  · intro x hm
    rw [hq] at hm
    obtain ⟨hr, -⟩ := Prod.mk.inj (List.mem_singleton.mp hm)
    exact absurd hr (by decide)
  · rw [hr]
    exact List.not_mem_nil

end Session

end Ntstat
