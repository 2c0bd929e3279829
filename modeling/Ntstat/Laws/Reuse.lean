import Ntstat.Laws.Received
import Ntstat.Laws.Independence

/-!
# A reference that is used again

* `step_of_received`   a message that was received completely has a result in every client;
* `reuse_fresh`        a SRC_ADDED for a reference that is free, and whatever follows, shows of that
                       reference what it shows from a client without any sources.
-/

namespace Ntstat
open Memory Machine

/-- what the client reads of the message was received -/
def Step.Received (v : KernelVersion) : Step → Prop
  | readNextMessage _ _ buf n => n ≤ 0 ∨ v.Received n.toNat buf
  | _ => True

theorem step_of_received {v : KernelVersion} {st : Step} (h : st.Received v) (c : Client) :
    ∃ c' effs, step v.handler c st = some (c', effs) := by
  cases st with
  | readNextMessage now timestamp buf n =>
    unfold step Client.readNextMessage
    dsimp only
    split
    · exact ⟨c, [], rfl⟩
    · next hn =>
      obtain ⟨r, hr⟩ := determined_of_received (h.resolve_left hn) c now
      exact ⟨_, _, by rw [hr buf fun _ _ => rfl, Option.map_some]⟩
  | _ => exact ⟨_, _, rfl⟩

/-- a client without sources, as a newly constructed one -/
theorem sources_new : ({} : Client).sources = {} := by
  unfold Client.sources
  congr 1

namespace Session
variable {S : Session} {steps : List Step} {c : Client} {effs : List Effect} {r : UInt64}

/-- two clients that agree on the source named `r` take a received message alike -/
theorem sameCell_step {c c' : Client} {st : Step} (hs : SameCell r c c')
    (hst : st.Received S.version) : ∃ c1 o c1' o', S.step c st = some (c1, o) ∧
      S.step c' st = some (c1', o') ∧ SameCell r c1 c1' ∧
      o.filterMap (Effect.callFor r) = o'.filterMap (Effect.callFor r) := by
  obtain ⟨hc, hc', hcell⟩ := hs
  obtain ⟨c1, o, h⟩ := step_of_received hst c
  obtain ⟨c1', o', h'⟩ := step_of_received hst c'
  have hi := input_lawful S.version.lawful st
  have h1 := Sources.step_cell hc hi (step_sources h) r
  have h1' := Sources.step_cell hc' hi (step_sources h') r
  rw [hcell, h1'] at h1
  obtain ⟨h2, h3⟩ := Prod.mk.inj (Option.some.inj h1)
  refine ⟨c1, o, c1', o', h, h', ⟨Sources.step_coherent hc hi (step_sources h),
    Sources.step_coherent hc' hi (step_sources h'), h2.symm⟩, ?_⟩
  rw [filterMap_callFor, filterMap_callFor]
  exact h3.symm

/-- the step that makes `r` anew from two clients in which it is free -/
theorem sameCell_added {c c' : Client} {st : Step} {now : Time} {prov : UInt32}
    (hc : c.sources.Coherent) (hc' : c'.sources.Coherent) (hv : c.sources.Vacant r)
    (hv' : c'.sources.Vacant r) (hst : st.input S.handler = .added now r prov) :
    ∃ c1 o c1' o', S.step c st = some (c1, o) ∧ S.step c' st = some (c1', o') ∧
      SameCell r c1 c1' ∧ callbacks o = [] ∧ callbacks o' = [] := by
  have hi := input_lawful S.version.lawful st
  have hs : c.sources.step (.added now r prov) = _ := Sources.step_added_vacant c.sources hv
  have hs' : c'.sources.step (.added now r prov) = _ := Sources.step_added_vacant c'.sources hv'
  rw [← hst] at hs hs'
  obtain ⟨c1, o, h, he, ho⟩ := step_of_sources hs
  obtain ⟨c1', o', h', he', ho'⟩ := step_of_sources hs'
  have h1 := Sources.step_cell hc hi (step_sources h) r
  have h1' := Sources.step_cell hc' hi (step_sources h') r
  rw [hst, cellStep_added_fresh (Sources.vacant_iff.mp hv)] at h1
  rw [hst, cellStep_added_fresh (Sources.vacant_iff.mp hv')] at h1'
  obtain ⟨h2, -⟩ := Prod.mk.inj (Option.some.inj h1)
  obtain ⟨h2', -⟩ := Prod.mk.inj (Option.some.inj h1')
  exact ⟨c1, o, c1', o', h, h', ⟨Sources.step_coherent hc hi (step_sources h),
    Sources.step_coherent hc' hi (step_sources h'), h2.symm.trans h2'⟩, ho, ho'⟩

/-- **Reuse starts afresh.**  `c0` is any client without sources: a new one, or one at the loop of
`run`. -/
theorem reuse_fresh (cont : List Step) (h : S.run steps = some (c, effs)) (hpos : Positive steps)
    (hfree : ∀ p, c.map[r]? = some p → (c.heap p).tsRemoved ≠ 0) {c0 : Client}
    (h0 : c0.sources = {}) {st : Step} {now : Time} {prov : UInt32}
    (hst : st.input S.handler = .added now r prov) (hcont : ∀ st ∈ cont, st.Received S.version) :
    ∃ c1 e1 c2 e2, exec S.step c (st :: cont) = some (c1, e1) ∧
      exec S.step c0 (st :: cont) = some (c2, e2) ∧
      callsFor r (callbacks e1) = callsFor r (callbacks e2) := by
  have hv : c.sources.Vacant r := fun p hp =>
    lt_of_le_of_ne (tsRemoved_nonneg h hpos p) (hfree p hp).symm
  have hv0 : c0.sources.Vacant r := by
    rw [h0]
    intro p hp
    cases hp
  have hc0 : c0.sources.Coherent := h0 ▸ Sources.coherent_init
  obtain ⟨c1, o1, c2, o2, h1, h2, hsame, ho1, ho2⟩ :=
    sameCell_added (S := S) (session_life h).1 hc0 hv hv0 hst
  have hsim : ∀ s t i, SameCell r s t → i.Received S.version → ∃ s' o t' o',
      S.step s i = some (s', o) ∧ S.step t i = some (t', o') ∧ SameCell r s' t' ∧
      o.filterMap (Effect.callFor r) = o'.filterMap (Effect.callFor r) :=
    fun _ _ _ hs hi => sameCell_step hs hi
  obtain ⟨c3, o3, c4, o4, h3, h4, -, he⟩ := exec_obs_sim hsim hcont hsame
  refine ⟨c3, o1 ++ o3, c4, o2 ++ o4, exec_cons.mpr ⟨c1, o1, o3, h1, h3, rfl⟩,
    exec_cons.mpr ⟨c2, o2, o4, h2, h4, rfl⟩, ?_⟩
  rw [filterMap_callFor, filterMap_callFor] at he
  rw [callbacks_append, callbacks_append, ho1, ho2]
  exact he

/-- a UDP source that is described, marked and removed before its counts are requested -/
def removedWhileMarked : List Step :=
  [.readNextMessage 1 1 (structs3789.addedMsg 7 4) 28,
   .readNextMessage 2 2 (structs3789.udpDescMsg 7 4 80 81) 248,
   .updateWaitForCountsQueue 20,
   .readNextMessage 21 21 (structs3789.removedMsg 7) 24]

theorem reuse_removedWhileMarked : ∃ c effs c1 e1 c2 e2,
    session3789.run removedWhileMarked = some (c, effs) ∧
    exec session3789.step c [.readNextMessage 22 22 (structs3789.addedMsg 7 4) 28,
      .readNextMessage 23 23 (structs3789.udpDescMsg 7 4 80 81) 248] = some (c1, e1) ∧
    exec session3789.step {} [.readNextMessage 22 22 (structs3789.addedMsg 7 4) 28,
      .readNextMessage 23 23 (structs3789.udpDescMsg 7 4 80 81) 248] = some (c2, e2) ∧
    callsFor 7 (callbacks e1) = callsFor 7 (callbacks e2) := by
  have hrun : (session3789.run removedWhileMarked).map (fun x =>
      (x.1.map[(7 : UInt64)]?, (x.1.heap 0).tsRemoved)) = some (some 0, 21) := by decide
  obtain ⟨⟨c, effs⟩, h, hc⟩ := Option.map_eq_some_iff.mp hrun
  obtain ⟨hm, ht⟩ := Prod.mk.inj hc
  have hfree : ∀ p, c.map[(7 : UInt64)]? = some p → (c.heap p).tsRemoved ≠ 0 := by
    intro p hp
    obtain rfl := Option.some.inj (hm.symm.trans hp)
    rw [show (c.heap 0).tsRemoved = 21 from ht]
    decide
  have hadd : (Step.readNextMessage 22 22 (structs3789.addedMsg 7 4) 28).input
      session3789.handler = .added 22 7 4 := by
    have htype : hdrType (structs3789.addedMsg 7 4) = .srcAdded := by decide
    have hsrc : session3789.handler.getSrcRef (structs3789.addedMsg 7 4) 28 (0, 0) = (7, 4) := by
      decide
    unfold Step.input messageInput
    simp only [htype]
    exact congrArg (fun x => Input.added 22 x.1 x.2) hsrc
  obtain ⟨c1, e1, c2, e2, h1, h2, he⟩ := reuse_fresh
    [.readNextMessage 23 23 (structs3789.udpDescMsg 7 4 80 81) 248] h
    (by unfold Positive; decide) hfree sources_new hadd (by
      simp only [List.forall_mem_cons, List.not_mem_nil, false_implies, implies_true, and_true]
      exact Or.inr udpDescMsg_received)
  exact ⟨c, effs, c1, e1, c2, e2, h, h1, h2, he⟩

end Session

end Ntstat
