import Ntstat.Laws.Announce
import Ntstat.Sources.Cell

/-!
# Sources do not influence each other

* `independent`   what the listener is told about a reference is what it is told in the run from
                  which all messages about other references and all SUCCESS and ERROR messages are
                  left out.
-/

namespace Ntstat
open Memory Machine

/-- not a message, or one about `r` -/
def Step.keeps (H : NTStatKernelStructHandler) (r : UInt64) : Step → Bool
  | readNextMessage _ _ buf n =>
    n ≤ 0 || hdrType buf != .success && hdrType buf != .error &&
      (H.getSrcRef buf n.toNat (0, 0)).1 == r
  | _ => true

/-- the part of an effect that is about the stream `r` -/
def Effect.callFor (r : UInt64) (e : Effect) : Option Call :=
  e.shown.bind fun x => if x.2.2.id = r then some x.2 else none

theorem filterMap_callFor (r : UInt64) (effs : List Effect) :
    effs.filterMap (Effect.callFor r) = callsFor r (callbacks effs) :=
  List.filterMap_filterMap.symm

/-- a message that is left out does not touch the cell -/
theorem cellStep_skip {H : NTStatKernelStructHandler} {r : UInt64} {st : Step}
    (h : st.keeps H r = false) (c : Option NetstatSource) :
    cellStep r c (st.input H) = some (c, []) := by
  cases st with
  | readNextMessage now timestamp buf n =>
    unfold Step.keeps at h
    simp only [Bool.or_eq_false_iff, decide_eq_false_iff_not] at h
    unfold Step.input
    dsimp only
    rw [if_neg h.1]
    unfold messageInput
    dsimp only
    cases ht : hdrType buf <;> simp_all [cellStep]
  | _ => cases h

/-- a kept message about a source is about `r` -/
theorem message_of_keeps {H : NTStatKernelStructHandler} {r r' : UInt64} {st : Step} {e : SrcEvent}
    (h : st.keeps H r = true) (hi : st.input H = .message r' e) : r' = r := by
  cases st with
  | readNextMessage now timestamp buf n =>
    unfold Step.keeps at h
    unfold Step.input at hi
    dsimp only at h hi
    split at hi
    · cases hi
    · next hn =>
      unfold messageInput at hi
      dsimp only at hi
      simp only [hn, decide_false, Bool.false_or, Bool.and_eq_true, beq_iff_eq] at h
      split at hi <;> cases hi <;> exact h.2
  | _ => cases hi

namespace Session
variable {S : Session} {steps : List Step} {c : Client} {effs : List Effect}

variable (r : UInt64)

/-- two clients that agree on the source named `r` -/
def SameCell (c c' : Client) : Prop :=
  c.sources.Coherent ∧ c'.sources.Coherent ∧ c.sources.cell r = c'.sources.cell r

theorem keep_step {c c' c1 : Client} {st : Step} {o : List Effect} (hs : SameCell r c c')
    (hk : st.keeps S.handler r = true) (h : S.step c st = some (c1, o)) :
    ∃ c1' o', S.step c' st = some (c1', o') ∧ SameCell r c1 c1' ∧
      o.filterMap (Effect.callFor r) = o'.filterMap (Effect.callFor r) := by
  obtain ⟨hc, hc', hcell⟩ := hs
  have hi := input_lawful S.version.lawful st
  have hst := step_sources h
  have h1 := Sources.step_cell hc hi hst r
  rw [hcell] at h1
  obtain ⟨s', shown, hs'⟩ := Sources.step_of_cell (s := c'.sources) (i := st.input S.handler)
    (fun r' e hr => by
      obtain rfl : r' = r := message_of_keeps hk hr
      rw [h1]
      rfl)
  obtain ⟨c1', o', hst', rfl, rfl⟩ := step_of_sources hs'
  have h2 := Sources.step_cell hc' hi hs' r
  obtain ⟨h3, h4⟩ := Prod.mk.inj (Option.some.inj (h1.symm.trans h2))
  have hsame : SameCell r c1 c1' :=
    ⟨Sources.step_coherent hc hi hst, Sources.step_coherent hc' hi hs', h3⟩
  refine ⟨c1', o', hst', hsame, ?_⟩
  rw [filterMap_callFor, filterMap_callFor]
  exact h4

theorem skip_step {c c' c1 : Client} {st : Step} {o : List Effect} (hs : SameCell r c c')
    (hk : st.keeps S.handler r = false) (h : S.step c st = some (c1, o)) :
    SameCell r c1 c' ∧ o.filterMap (Effect.callFor r) = [] := by
  obtain ⟨hc, hc', hcell⟩ := hs
  have hi := input_lawful S.version.lawful st
  have hst := step_sources h
  have h1 := Sources.step_cell hc hi hst r
  rw [cellStep_skip hk] at h1
  obtain ⟨h2, h3⟩ := Prod.mk.inj (Option.some.inj h1)
  refine ⟨⟨Sources.step_coherent hc hi hst, hc', h2.symm.trans hcell⟩, ?_⟩
  rw [filterMap_callFor]
  exact h3.symm

/-- **Per-source independence.** -/
theorem independent (h : S.run steps = some (c, effs)) :
    ∃ c' effs', S.run (steps.filter (Step.keeps S.handler r)) = some (c', effs') ∧
      callsFor r (callbacks effs) = callsFor r (callbacks effs') := by
  have hstart : SameCell r S.start S.start := by
    unfold SameCell
    rw [start_sources]
    exact ⟨Sources.coherent_init, Sources.coherent_init, rfl⟩
  have key : ∃ c' effs', exec S.step S.start (steps.filter (Step.keeps S.handler r))
      = some (c', effs') ∧ SameCell r c c' ∧
      effs.filterMap (Effect.callFor r) = effs'.filterMap (Effect.callFor r) :=
    exec_filter_sim (fun _ _ _ _ _ => keep_step r) (fun _ _ _ _ _ => skip_step r) hstart h
  obtain ⟨c', effs', hr, -, he⟩ := key
  exact ⟨c', effs', hr, by rw [← filterMap_callFor, ← filterMap_callFor, he]⟩

/-- two sources, mixed with each other and with an error, of which the second one is removed -/
def twoSources : List Step :=
  [.readNextMessage 1 1 (structs3789.addedMsg 7 4) 28,
   .sendNextMsg 1 28,
   .readNextMessage 1 1 (structs3789.addedMsg 8 4) 28,
   .readNextMessage 1 1 (Mem.poke (fun _ => 0) 8 4 1) 24,
   .readNextMessage 2 2 (structs3789.udpDescMsg 7 4 80 81) 248,
   .readNextMessage 2 2 (structs3789.udpDescMsg 8 4 82 83) 248,
   .readNextMessage 3 3 (structs3789.removedMsg 8) 24,
   .removeOldSources 40]

theorem independent_twoSources : ∃ c effs c' effs', session3789.run twoSources = some (c, effs) ∧
    session3789.run (twoSources.filter (Step.keeps session3789.handler 7)) = some (c', effs') ∧
    callsFor 7 (callbacks effs) = callsFor 7 (callbacks effs') := by
  obtain ⟨⟨c, effs⟩, h⟩ := Option.isSome_iff_exists.mp
    (show (session3789.run twoSources).isSome = true by decide)
  obtain ⟨c', effs', h', he⟩ := independent 7 h
  exact ⟨c, effs, c', effs', h, h', he⟩

end Session

end Ntstat
