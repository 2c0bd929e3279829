import Ntstat.Sources.Tracker

/-!
# Messages about different sources

* `Sources.told`    what the listener is told of a message about a source that is found;
* `told_step`       such a message changes that source and no other;
* `told_all`        so messages about different sources say what they said alone, in whatever order
                    they come.
-/

namespace Ntstat
open Memory Machine

namespace Sources

/-- what the listener is told of a message about a source -/
def told (s : Sources) (m : UInt64 × SrcEvent) : List Shown :=
  match s.map m.1 with
  | none => []
  | some p => ((m.2.apply (s.heap p)).map fun r => r.2.map fun x => (p, x)).getD []

/-- the source is found, and becomes `t` -/
def Takes (s : Sources) (m : UInt64 × SrcEvent) (p : Ptr) (t : NetstatSource) : Prop :=
  s.map m.1 = some p ∧ ∃ calls, m.2.apply (s.heap p) = some (t, calls)

variable {s : Sources} {m m' : UInt64 × SrcEvent} {ms : List (UInt64 × SrcEvent)} {p q : Ptr}
  {t : NetstatSource}

theorem told_step (hc : s.Coherent) (h : s.Takes m p t) :
    ∃ s', s.step (.message m.1 m.2) = some (s', s.told m) ∧ s'.map = s.map ∧ s'.heap p = t ∧
      ∀ r q, r ≠ m.1 → s.map r = some q → s'.heap q = s.heap q := by
  obtain ⟨hm, calls, ha⟩ := h
  refine ⟨{ s with heap := Function.update s.heap p t }, ?_, rfl, Function.update_self ..,
    fun r q hne hq => Function.update_of_ne ?_ ..⟩
  · unfold told
    rw [step_message_some s _ hm, ha, hm]
    dsimp only
    rw [ha]
    rfl
  · intro he
    rw [he] at hq
    exact hne ((hc.srcRef hq).symm.trans (hc.srcRef hm))

/-- a message says the same where its source is the same -/
theorem told_congr {s' : Sources} (hmap : s'.map = s.map)
    (hheap : ∀ p, s.map m.1 = some p → s'.heap p = s.heap p) : s'.told m = s.told m := by
  unfold told
  rw [hmap]
  cases hm : s.map m.1 with
  | none => rfl
  | some p =>
    dsimp only
    rw [hheap p hm]

/-- **Messages about different sources say what they said alone.** -/
theorem told_all (hc : s.Coherent) (hl : ∀ m ∈ ms, m.2.Lawful) (hnd : (ms.map Prod.fst).Nodup)
    (h : ∀ m ∈ ms, ∃ p t, s.Takes m p t) :
    ∃ s', exec step s (ms.map fun m => .message m.1 m.2) = some (s', ms.flatMap s.told) ∧
      s'.map = s.map ∧ (∀ m ∈ ms, ∀ p t, s.Takes m p t → s'.heap p = t) ∧
      ∀ r p, r ∉ ms.map Prod.fst → s.map r = some p → s'.heap p = s.heap p := by
  induction ms generalizing s with
  | nil => exact ⟨s, rfl, rfl, fun m hm => absurd hm List.not_mem_nil, fun _ _ _ _ => rfl⟩
  | cons m ms ih =>
    obtain ⟨hfirst, hnd⟩ := List.nodup_cons.mp hnd
    obtain ⟨p, t, ht⟩ := h m List.mem_cons_self
    obtain ⟨s1, hs, hmap, hp, hother⟩ := told_step hc ht
    have hne : ∀ m' ∈ ms, m'.1 ≠ m.1 := by
      intro m' hm' he
      exact hfirst (he ▸ List.mem_map_of_mem hm')
    have hsame : ∀ m' ∈ ms, ∀ q, s.map m'.1 = some q → s1.heap q = s.heap q :=
      fun m' hm' q hq => hother m'.1 q (hne m' hm') hq
    have htakes : ∀ m' ∈ ms, ∀ q u, s.Takes m' q u → s1.Takes m' q u := by
      intro m' hm' q u hu
      obtain ⟨hq, calls, ha⟩ := hu
      exact ⟨hmap ▸ hq, calls, hsame m' hm' q hq ▸ ha⟩
    have hc1 : s1.Coherent := step_coherent hc (show Input.Lawful (.message m.1 m.2) from
      hl m List.mem_cons_self) hs
    obtain ⟨s2, hx, hmap2, hin, hout⟩ := ih hc1 (fun m' hm' => hl m' (List.mem_cons_of_mem _ hm'))
      hnd fun m' hm' => by
        obtain ⟨q, u, hu⟩ := h m' (List.mem_cons_of_mem _ hm')
        exact ⟨q, u, htakes m' hm' q u hu⟩
    have htold : ms.flatMap s1.told = ms.flatMap s.told :=
      List.flatMap_congr fun m' hm' => told_congr hmap (hsame m' hm')
    refine ⟨s2, exec_cons.mpr ⟨s1, _, _, hs, hx, ?_⟩, hmap2.trans hmap, ?_, ?_⟩
    · rw [List.flatMap_cons, htold]
    · intro m' hm' q u hu
      rcases List.mem_cons.mp hm' with rfl | hm'
      · obtain ⟨hq, calls, ha⟩ := hu
        obtain ⟨hp', calls', ha'⟩ := ht
        obtain rfl := Option.some.inj (hq.symm.trans hp')
        obtain ⟨rfl, -⟩ := Prod.mk.inj (Option.some.inj (ha.symm.trans ha'))
        exact (hout m'.1 q hfirst (hmap ▸ hq)).trans hp
      · exact hin m' hm' q u (htakes m' hm' q u hu)
    · intro r q hr hq
      rw [List.map_cons, List.mem_cons, not_or] at hr
      exact (hout r q hr.2 (hmap ▸ hq)).trans (hother r q hr.1 hq)

end Sources

end Ntstat
