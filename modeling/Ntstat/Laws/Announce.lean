import Ntstat.Kernel.Messages
import Ntstat.Laws.Session
import Ntstat.Sources.History

/-!
# When a source is announced

* `announced_by_first_description`   `onStreamAdded` is delivered at most once for an object, and
                     exactly at its first accepted description if that has ports;
* `added_first_iff`  removals and statistics updates are delivered after `onStreamAdded` in exactly
                     the runs in which no source is spoken of whose first accepted description had
                     both ports 0.
-/

namespace Ntstat
open Memory Machine

namespace Session
variable (S : Session)

/-- the description of the step is accepted for `p`, leaves `obj`, and is the first one in the run
after the steps `pre` -/
def FirstDescription (pre : List Step) (c : Client) (st : Step) (p : Ptr) (obj : NTStatStream) :
    Prop :=
  c.sources.Accepts (st.input S.handler) p obj ∧
    ¬ S.Ever pre fun s i => ∃ obj', s.Accepts i p obj'

variable {S} {steps : List Step} {c : Client} {effs : List Effect}

theorem first_iff {pre : List Step} {e : List Effect} (h : S.run pre = some (c, e)) (p : Ptr) :
    (¬ S.Ever pre fun s i => ∃ obj, s.Accepts i p obj) ↔
      (c.sources.heap p).haveNotifiedAdded = false := by
  rw [ever_iff, ← ((session_life h).2 p).accepted, Bool.not_eq_true]

/-- **The announcement of a source object.** -/
theorem announced_by_first_description (h : S.run steps = some (c, effs)) (p : Ptr) :
    (callsOf p (callbacks effs)).countP Sources.isAdded ≤ 1 ∧
    (∀ pre st post c1 e1 c2 e2, S.At steps pre st post c1 e1 → S.step c1 st = some (c2, e2) →
      ∀ stream, (p, .onStreamAdded, stream) ∈ callbacks e2 ↔
        S.FirstDescription pre c1 st p stream ∧ stream.key.noPorts = false) ∧
    (∀ pre st post c1 e1 obj, S.At steps pre st post c1 e1 → S.FirstDescription pre c1 st p obj →
      obj.key.noPorts = true → ∀ stream, (p, .onStreamAdded, stream) ∉ callbacks effs) := by
  have hl := (session_life h).2 p
  refine ⟨hl.once, ?_, ?_⟩
  · intro pre st post c1 e1 c2 e2 hat hst stream
    unfold FirstDescription
    rw [Sources.shown_added (step_sources hst), first_iff hat.reached, and_assoc]
  · intro pre st post c1 e1 obj hat ⟨hacc, hfirst⟩ hnp stream hm
    have hides : S.Ever steps fun s i => s.Hides i p :=
      ⟨pre, st, post, c1, e1, hat.split, hat.reached, obj, hacc,
        (first_iff hat.reached p).mp hfirst, hnp⟩
    exact hl.not_both (hl.announced.mp ⟨stream, hm⟩) (ever_iff.mp hides)

/-! ## a session -/

def session3789 : Session := { version := .xnu3789 }

/-- a UDP source whose first description has no ports, the second one has -/
def hiddenThenNamed : List Step :=
  [.readNextMessage 1 1 (structs3789.addedMsg 7 4) 28,
   .readNextMessage 2 2 (structs3789.udpDescMsg 7 4 0 0) 248,
   .readNextMessage 3 3 (structs3789.udpDescMsg 7 4 80 81) 248,
   .readNextMessage 4 4 (structs3789.removedMsg 7) 24]

/-- the first description is accepted and never announced; the second one has ports, and is not the
first -/
theorem announced_hiddenThenNamed : ∃ c effs c1 e1 obj c2 e2 obj' c3 e3,
    session3789.run hiddenThenNamed = some (c, effs) ∧
    session3789.run (hiddenThenNamed.take 1) = some (c1, e1) ∧
    session3789.FirstDescription (hiddenThenNamed.take 1) c1
      (.readNextMessage 2 2 (structs3789.udpDescMsg 7 4 0 0) 248) 0 obj ∧
    obj.key.noPorts = true ∧
    session3789.run (hiddenThenNamed.take 2) = some (c2, e2) ∧
    session3789.step c2 (.readNextMessage 3 3 (structs3789.udpDescMsg 7 4 80 81) 248) =
      some (c3, e3) ∧
    c2.sources.Accepts ((Step.readNextMessage 3 3 (structs3789.udpDescMsg 7 4 80 81) 248).input
      session3789.handler) 0 obj' ∧
    obj'.key.noPorts = false ∧
    (∀ stream, (0, .onStreamAdded, stream) ∉ callbacks e3) ∧
    (∀ stream, (0, .onStreamAdded, stream) ∉ callbacks effs) ∧
    (callsOf 0 (callbacks effs)).countP Sources.isAdded ≤ 1 := by
  have hrun : (session3789.run hiddenThenNamed).isSome = true := by decide
  have hfirst : (session3789.run (hiddenThenNamed.take 1)).map (fun x =>
      ((Sources.accepted 0 x.1.sources ((Step.readNextMessage 2 2
        (structs3789.udpDescMsg 7 4 0 0) 248).input session3789.handler)).map fun obj =>
          obj.key.noPorts, (x.1.heap 0).haveNotifiedAdded)) = some (some true, false) := by
    decide
  have hsecond : ((session3789.run (hiddenThenNamed.take 2)).bind fun x =>
      (session3789.step x.1 (.readNextMessage 3 3
        (structs3789.udpDescMsg 7 4 80 81) 248)).map fun _ =>
          (Sources.accepted 0 x.1.sources ((Step.readNextMessage 3 3
            (structs3789.udpDescMsg 7 4 80 81) 248).input session3789.handler)).map fun obj =>
              obj.key.noPorts) = some (some false) := by decide
  obtain ⟨⟨c, effs⟩, h⟩ := Option.isSome_iff_exists.mp hrun
  obtain ⟨⟨c1, e1⟩, h1, he⟩ := Option.map_eq_some_iff.mp hfirst
  obtain ⟨hports, hnot⟩ := Prod.mk.inj he
  obtain ⟨obj, hacc, hports⟩ := Option.map_eq_some_iff.mp hports
  obtain ⟨⟨c2, e2⟩, h2, hx⟩ := Option.bind_eq_some_iff.mp hsecond
  obtain ⟨⟨c3, e3⟩, h3, hports'⟩ := Option.map_eq_some_iff.mp hx
  obtain ⟨obj', hacc', hports'⟩ := Option.map_eq_some_iff.mp hports'
  have hdesc := Sources.accepted_iff.mp hacc
  have hfirst := (first_iff h1 0).mpr hnot
  obtain ⟨honce, hshown, hhidden⟩ := announced_by_first_description h 0
  refine ⟨c, effs, c1, e1, obj, c2, e2, obj', c3, e3, h, h1, ⟨hdesc, hfirst⟩, hports, h2, h3,
    Sources.accepted_iff.mp hacc', hports', fun stream hm => ?_, ?_, honce⟩
  · have hagain := (hshown _ _ _ c2 e2 c3 e3 ⟨rfl, h2⟩ h3 stream).mp hm
    exact hagain.1.2 ⟨_, _, [], c1, e1, rfl, h1, obj, hdesc⟩
  · exact hhidden _ _ _ c1 e1 obj ⟨rfl, h1⟩ ⟨hdesc, hfirst⟩ hports

/-! ## announcements come first -/

/-- every other call is preceded by the announcement of its object -/
def AddedFirst (l : List Shown) : Prop :=
  ∀ pre post p cb stream, l = pre ++ (p, cb, stream) :: post → cb ≠ .onStreamAdded →
    ∃ stream', (p, .onStreamAdded, stream') ∈ pre

theorem addedFirst_nil : AddedFirst [] := by
  intro pre post p cb stream h
  simp at h

theorem addedFirst_concat {l : List Shown} {p : Ptr} {cb : Callback} {stream : NTStatStream} :
    AddedFirst (l ++ [(p, cb, stream)]) ↔ AddedFirst l ∧
      (cb ≠ .onStreamAdded → ∃ stream', (p, .onStreamAdded, stream') ∈ l) := by
  constructor
  · intro h
    refine ⟨fun pre post q cb' stream' e => ?_, h l [] p cb stream rfl⟩
    exact h pre (post ++ [(p, cb, stream)]) q cb' stream' (by simp [e])
  · rintro ⟨h1, h2⟩ pre post q cb' stream' e hcb
    cases post using List.reverseRecOn with
    | nil =>
      obtain ⟨rfl, hx⟩ := List.append_inj' e rfl
      obtain ⟨rfl, hy⟩ := Prod.mk.inj (List.singleton_inj.mp hx)
      obtain ⟨rfl, -⟩ := Prod.mk.inj hy
      exact h2 hcb
    | append_singleton post x =>
      rw [← List.cons_append, ← List.append_assoc] at e
      obtain ⟨rfl, -⟩ := List.append_inj' e rfl
      exact h1 pre post q cb' stream' rfl hcb

/-- one more step -/
theorem addedFirst_step {is : List Input} {s s' : Sources} {i : Input} {o shown : List Shown}
    (hl : ∀ p, Sources.Life is s o p) (h : s.step i = some (s', shown)) :
    AddedFirst (o ++ shown) ↔ AddedFirst o ∧ ¬ ∃ p, (Sources.Ever is fun s i => s.Hides i p) ∧
      (s.RemovesWithPorts i p ∨ s.CountsWanted i p) := by
  have hs := fun p => (hl p).spoken (i := i)
  simp only [Sources.removesWithPorts_iff h, Sources.countsWanted_iff h] at hs ⊢
  rcases Sources.shown_cases h with rfl | ⟨q, cb, stream, rfl⟩
  · simp
  · rw [addedFirst_concat]
    refine and_congr_right fun _ => ?_
    simp only [List.mem_singleton, Prod.mk.injEq] at hs ⊢
    cases cb with
    | onStreamAdded => simp
    | onStreamRemoved =>
      have hq := hs q (Or.inl ⟨stream, rfl, rfl, rfl⟩)
      simp [(hl q).announced_iff hq]
    | onStreamStatsUpdate =>
      have hq := hs q (Or.inr ⟨stream, rfl, rfl, rfl⟩)
      simp [(hl q).announced_iff hq]

variable (S) in
/-- some step handles, for a source whose first accepted description had both ports 0, a
SRC_REMOVED while its key has ports or a SRC_COUNTS with packets while it is marked -/
def SpeaksOfHidden (steps : List Step) : Prop :=
  Sometime S.step S.start steps fun pre c st => ∃ p, (S.Ever pre fun s i => s.Hides i p) ∧
    (c.sources.RemovesWithPorts (st.input S.handler) p ∨
      c.sources.CountsWanted (st.input S.handler) p)

/-- **Announcements come first in exactly the runs that do not speak of hidden sources.** -/
theorem added_first_iff (h : S.run steps = some (c, effs)) :
    AddedFirst (callbacks effs) ↔ ¬ S.SpeaksOfHidden steps := by
  refine exec_inv (P := fun steps _ effs => AddedFirst (callbacks effs) ↔ ¬ S.SpeaksOfHidden steps)
    ?_ ?_ h
  · simp [SpeaksOfHidden, callbacks, addedFirst_nil]
  · intro steps c1 e1 st c2 e2 hx hP hst
    have hspeak : S.SpeaksOfHidden (steps ++ [st]) ↔ S.SpeaksOfHidden steps ∨
        ∃ p, (S.Ever steps fun s i => s.Hides i p) ∧
          (c1.sources.RemovesWithPorts (st.input S.handler) p ∨
            c1.sources.CountsWanted (st.input S.handler) p) := sometime_concat hx
    rw [callbacks_append, addedFirst_step (session_life hx).2 (step_sources hst), hP, hspeak,
      not_or]
    simp only [ever_iff]

theorem removed_not_added :
    ∃ c effs, session3789.run hiddenThenNamed = some (c, effs) ∧
      ¬ AddedFirst (callbacks effs) := by
  have h : (session3789.run hiddenThenNamed).map
      (fun x => (callbacks x.2).map fun y => (y.1, y.2.1)) = some [(0, .onStreamRemoved)] := by
    decide
  obtain ⟨⟨c, effs⟩, hr, hm⟩ := Option.map_eq_some_iff.mp h
  refine ⟨c, effs, hr, fun ha => ?_⟩
  obtain ⟨stream, he⟩ := shown_singleton hm
  obtain ⟨_, hmem⟩ := ha [] [] 0 .onStreamRemoved stream he (by decide)
  cases hmem

/-- calls for one object that begin with its announcement -/
theorem addedFirst_of_one {p : Ptr} {stream : NTStatStream} {l : List Shown}
    (h : ∀ x ∈ l, x.1 = p) : AddedFirst ((p, .onStreamAdded, stream) :: l) := by
  intro pre post q cb stream' he hcb
  cases pre with
  | nil =>
    obtain ⟨hx, -⟩ := List.cons.inj he
    exact absurd (Prod.mk.inj (Prod.mk.inj hx).2).1.symm hcb
  | cons x pre =>
    obtain ⟨rfl, rfl⟩ := List.cons.inj he
    obtain rfl : q = p := h _ (List.mem_append_right _ List.mem_cons_self)
    exact ⟨stream, List.mem_cons_self⟩

/-- a UDP source that is described twice alike, counted and removed -/
def describedAgain : List Step :=
  [.readNextMessage 1 1 (structs3789.addedMsg 7 4) 28,
   .readNextMessage 2 2 (structs3789.udpDescMsg 7 4 80 81) 248,
   .readNextMessage 3 3 (structs3789.udpDescMsg 7 4 80 81) 248,
   .updateWaitForCountsQueue 20,
   .readNextMessage 21 21 (structs3789.countsMsg 7 5) 144,
   .readNextMessage 22 22 (structs3789.removedMsg 7) 24]

theorem added_first_describedAgain : ∃ c effs,
    session3789.run describedAgain = some (c, effs) ∧
    (callbacks effs).map (fun x => (x.1, x.2.1)) =
      [(0, .onStreamAdded), (0, .onStreamStatsUpdate), (0, .onStreamRemoved)] ∧
    AddedFirst (callbacks effs) ∧ ¬ session3789.SpeaksOfHidden describedAgain := by
  have hrun : (session3789.run describedAgain).map
      (fun x => (callbacks x.2).map fun y => (y.1, y.2.1)) =
        some [(0, .onStreamAdded), (0, .onStreamStatsUpdate), (0, .onStreamRemoved)] := by
    decide
  obtain ⟨⟨c, effs⟩, h, hm⟩ := Option.map_eq_some_iff.mp hrun
  have hfirst : AddedFirst (callbacks effs) := by
    obtain ⟨⟨p, cb, stream⟩, l, he, hx, hl⟩ := List.map_eq_cons_iff.mp hm
    obtain ⟨rfl, rfl⟩ := Prod.mk.inj hx
    rw [he]
    refine addedFirst_of_one fun y hy => ?_
    have hmem := List.mem_map_of_mem (f := fun x => (x.1, x.2.1)) hy
    rw [hl] at hmem
    simp only [List.mem_cons, Prod.mk.injEq, List.not_mem_nil, or_false] at hmem
    exact hmem.elim And.left And.left
  exact ⟨c, effs, h, hm, hfirst, (added_first_iff h).mp hfirst⟩

end Session

end Ntstat
