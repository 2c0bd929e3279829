import Ntstat.Laws.Announce

/-!
# After a source was removed

* `silent_iff`   nothing is delivered for a removed object in exactly the runs in which no late
                 message that would be reported finds it;
* `no_leak`      an announced object leaves the map with its removal reported, if no source is
                 announced after its removal and none loses its ports between the two.
-/

namespace Ntstat
open Memory Machine

theorem mem_callbacks {effs : List Effect} {p : Ptr} {cb : Callback} {stream : NTStatStream} :
    (p, cb, stream) ∈ callbacks effs ↔ .notify cb p stream ∈ effs := by
  unfold callbacks
  rw [List.mem_filterMap]
  constructor
  · intro hex
    obtain ⟨e, he, hs⟩ := hex
    cases e with
    | notify cb' p' stream' =>
      obtain ⟨rfl, hx⟩ := Prod.mk.inj (Option.some.inj hs)
      obtain ⟨rfl, rfl⟩ := Prod.mk.inj hx
      exact he
    | _ => cases hs
  · intro he
    exact ⟨_, he, rfl⟩

/-- the messages for which the listener is called -/
theorem Sources.calls_iff {s s' : Sources} {i : Input} {shown : List Shown} {p : Ptr}
    (h : s.step i = some (s', shown)) : (∃ cb stream, (p, cb, stream) ∈ shown) ↔
      s.RemovesWithPorts i p ∨ s.Announces i p ∨ s.CountsWanted i p := by
  rw [removesWithPorts_iff h, announces_iff h, countsWanted_iff h]
  constructor
  · intro hex
    obtain ⟨cb, stream, hm⟩ := hex
    cases cb with
    | onStreamAdded => exact Or.inr (Or.inl ⟨stream, hm⟩)
    | onStreamRemoved => exact Or.inl ⟨stream, hm⟩
    | onStreamStatsUpdate => exact Or.inr (Or.inr ⟨stream, hm⟩)
  · rintro (⟨stream, hm⟩ | ⟨stream, hm⟩ | ⟨stream, hm⟩) <;> exact ⟨_, stream, hm⟩

/-- a SRC_REMOVED is read -/
def Step.isRemoval : Step → Bool
  | readNextMessage _ _ buf _ => hdrType buf == .srcRemoved
  | _ => false

namespace Session
variable {S : Session} {steps : List Step} {c : Client} {effs : List Effect}

/-! ## no calls after the removal -/

variable (S) in
/-- no step after a SRC_REMOVED that found the object `p` calls the listener through `p` -/
def SilentAfterRemoval (steps : List Step) : Prop :=
  ∀ p pre st post c1 e1 c2 e2 c3 e3, S.At steps pre st post c1 e1 →
    c1.sources.Removes (st.input S.handler) p → S.step c1 st = some (c2, e2) →
    exec S.step c2 post = some (c3, e3) → ∀ cb stream, (p, cb, stream) ∉ callbacks e3

variable (S) in
/-- some step handles for an already removed source another SRC_REMOVED while its key has ports, a
first accepted description with ports, or a SRC_COUNTS with packets while it is described and
marked -/
def CallsRemoved (steps : List Step) : Prop :=
  Sometime S.step S.start steps fun pre c st => ∃ p, (S.Ever pre fun s i => s.Removes i p) ∧
    (c.sources.RemovesWithPorts (st.input S.handler) p ∨
      c.sources.Announces (st.input S.handler) p ∨ c.sources.CountsWanted (st.input S.handler) p)

/-- **Removed sources are silent in exactly the runs without such late messages.** -/
theorem silent_iff (h : S.run steps = some (c, effs)) :
    S.SilentAfterRemoval steps ↔ ¬ S.CallsRemoved steps := by
  constructor
  · rintro hs ⟨pre', st', post', c', e', rfl, hpre', p, hpast, hcall⟩
    obtain ⟨pre, st, mid, c1, e1, rfl, h1, hrem⟩ := hpast
    rw [List.append_assoc, List.cons_append] at h
    obtain ⟨c1', e1', e2, hp, hrest, -⟩ := run_split h
    obtain ⟨rfl, rfl⟩ := Prod.mk.inj (Option.some.inj (hp.symm.trans h1))
    obtain ⟨c2, o1, o2, hst, hpost, -⟩ := exec_cons.mp hrest
    obtain ⟨c3, o3, o4, hmid, hlate, rfl⟩ := exec_append.mp hpost
    obtain ⟨c4, o5, o6, hst', -, rfl⟩ := exec_cons.mp hlate
    have hc3 : S.run (pre ++ st :: mid) = some (c3, e1' ++ (o1 ++ o3)) :=
      exec_append.mpr ⟨c1', e1', o1 ++ o3, hp, exec_cons.mpr ⟨c2, o1, o3, hst, hmid, rfl⟩, rfl⟩
    obtain ⟨rfl, -⟩ := Prod.mk.inj (Option.some.inj (hc3.symm.trans hpre'))
    obtain ⟨cb, stream, hm⟩ := (Sources.calls_iff (step_sources hst')).mpr hcall
    refine hs p pre st (mid ++ st' :: post') c1' e1' c2 o1 c _ ⟨by simp, hp⟩ hrem hst hpost cb
      stream ?_
    simp only [callbacks_append, List.mem_append]
    exact Or.inr (Or.inl hm)
  · intro hn p pre st post c1 e1 c2 e2 c3 e3 hat hrem hst hpost cb stream hm
    obtain ⟨mid, st', post', c', o, rfl, hmid, c4, o4, hst', hx⟩ :=
      (mem_outputs hpost).mp (mem_callbacks.mp hm)
    obtain ⟨rfl, hreach⟩ := hat
    refine hn ⟨pre ++ st :: mid, st', post', c', e1 ++ (e2 ++ o), by simp, ?_, p,
      ⟨pre, st, mid, c1, e1, rfl, hreach, hrem⟩, ?_⟩
    · have hrest := exec_cons.mpr ⟨c2, e2, o, hst, hmid, rfl⟩
      exact exec_append.mpr ⟨c1, e1, e2 ++ o, hreach, hrest, rfl⟩
    · exact (Sources.calls_iff (step_sources hst')).mp ⟨cb, stream, mem_callbacks.mpr hx⟩

/-- a UDP source that is described after its removal, and evicted -/
def lateDescription : List Step :=
  [.readNextMessage 1 1 (structs3789.addedMsg 7 4) 28,
   .readNextMessage 2 2 (structs3789.removedMsg 7) 24,
   .readNextMessage 3 3 (structs3789.udpDescMsg 7 4 80 81) 248,
   .removeOldSources 40]

theorem added_after_removal : ¬ session3789.SilentAfterRemoval lateDescription := by
  intro hs
  have h : ((session3789.run (lateDescription.take 1)).bind fun x =>
      (session3789.step x.1 (.readNextMessage 2 2 (structs3789.removedMsg 7) 24)).bind fun y =>
        (exec session3789.step y.1 (lateDescription.drop 2)).map fun z =>
          (x.1.map[(7 : UInt64)]?, (callbacks z.2).map fun w => (w.1, w.2.1))) =
        some (some 0, [(0, .onStreamAdded)]) := by decide
  obtain ⟨⟨c1, e1⟩, h1, h⟩ := Option.bind_eq_some_iff.mp h
  obtain ⟨⟨c2, e2⟩, h2, h⟩ := Option.bind_eq_some_iff.mp h
  obtain ⟨⟨c3, e3⟩, h3, h⟩ := Option.map_eq_some_iff.mp h
  obtain ⟨hmap, hcalls⟩ := Prod.mk.inj h
  obtain ⟨stream, he⟩ := shown_singleton hcalls
  refine hs 0 _ _ _ c1 e1 c2 e2 c3 e3 ⟨rfl, h1⟩ (removes_iff.mpr ⟨by decide, ?_, ?_⟩) h2 h3
    .onStreamAdded stream ?_
  · decide
  · rw [show (session3789.handler.getSrcRef (structs3789.removedMsg 7) (24 : Int).toNat
      (0, 0)).1 = 7 by decide]
    exact hmap
  · rw [he]
    exact List.mem_singleton.mpr rfl

theorem isRemoval_of_removes {st : Step} {p : Ptr}
    (h : c.sources.Removes (st.input S.handler) p) : st.isRemoval = true := by
  obtain ⟨now, r, hi, -⟩ := h
  obtain ⟨_, _, _, _, rfl, -, -, ⟨ht, -⟩ | ⟨-, he⟩ | ⟨-, he⟩⟩ := message_of_input hi
  · exact beq_iff_eq.mpr ht
  · cases he
  · cases he

/-- after the first SRC_REMOVED, the listener is not called -/
theorem silent_of_quiet {pre post : List Step} {st : Step} {c' : Client} {effs' : List Effect}
    (hpre : ∀ st ∈ pre, st.isRemoval = false) (h : S.run (pre ++ [st]) = some (c, effs))
    (hpost : exec S.step c post = some (c', effs')) (hquiet : callbacks effs' = []) :
    S.SilentAfterRemoval (pre ++ st :: post) := by
  intro p pre' st' post' c1 e1 c2 e2 c3 e3 hat hrem hst hpost' cb stream hm
  -- the step is `st` or comes after it
  have hmid : ∃ mid, pre' ++ [st'] = (pre ++ [st]) ++ mid ∧ post = mid ++ post' := by
    have hsplit : (pre ++ [st]) ++ post = (pre' ++ [st']) ++ post' := by
      simpa using hat.split
    rcases List.append_eq_append_iff.mp hsplit with hmid | ⟨bs, hpre', hpost'⟩
    · exact hmid
    · cases bs using List.reverseRecOn with
      | nil => exact ⟨[], by simpa using hpre'.symm, hpost'.symm⟩
      | append_singleton bs x =>
        rw [← List.append_assoc] at hpre'
        obtain ⟨rfl, -⟩ := List.append_inj' hpre' rfl
        have hmem : st' ∈ pre' ++ [st'] ++ bs :=
          List.mem_append_left _ (List.mem_append_right _ List.mem_cons_self)
        exact absurd ((hpre st' hmem).symm.trans (isRemoval_of_removes hrem)) (by decide)
  obtain ⟨mid, he, rfl⟩ := hmid
  have hrun := run_concat hat.reached hst
  rw [he] at hrun
  obtain ⟨c4, o1, o2, h1, h2, -⟩ := run_split hrun
  obtain ⟨rfl, -⟩ := Prod.mk.inj (Option.some.inj (h.symm.trans h1))
  obtain ⟨c5, o3, o4, h3, h4, rfl⟩ := exec_append.mp hpost
  obtain ⟨rfl, -⟩ := Prod.mk.inj (Option.some.inj (h2.symm.trans h3))
  obtain ⟨-, rfl⟩ := Prod.mk.inj (Option.some.inj (hpost'.symm.trans h4))
  rw [callbacks_append] at hquiet
  rw [(List.append_eq_nil_iff.mp hquiet).2] at hm
  cases hm

/-- a UDP source that is counted and described again after its removal, and evicted -/
def countedAfterwards : List Step :=
  [.readNextMessage 1 1 (structs3789.addedMsg 7 4) 28,
   .readNextMessage 2 2 (structs3789.udpDescMsg 7 4 80 81) 248,
   .readNextMessage 3 3 (structs3789.removedMsg 7) 24,
   .readNextMessage 4 4 (structs3789.countsMsg 7 5) 144,
   .readNextMessage 5 5 (structs3789.udpDescMsg 7 4 82 83) 248,
   .removeOldSources 40]

theorem silent_countedAfterwards : ∃ c effs,
    session3789.run countedAfterwards = some (c, effs) ∧
    (callbacks effs).map (fun x => x.2.1) = [.onStreamAdded, .onStreamRemoved] ∧
    session3789.SilentAfterRemoval countedAfterwards ∧
    ¬ session3789.CallsRemoved countedAfterwards := by
  have hrun : ((session3789.run (countedAfterwards.take 3)).bind fun x =>
      (exec session3789.step x.1 (countedAfterwards.drop 3)).map fun y =>
        ((callbacks (x.2 ++ y.2)).map fun z => z.2.1, callbacks y.2)) =
      some ([.onStreamAdded, .onStreamRemoved], []) := by decide
  obtain ⟨⟨c1, e1⟩, h1, hx⟩ := Option.bind_eq_some_iff.mp hrun
  obtain ⟨⟨c2, e2⟩, h2, he⟩ := Option.map_eq_some_iff.mp hx
  obtain ⟨hm, hquiet⟩ := Prod.mk.inj he
  have h : session3789.run countedAfterwards = some (c2, e1 ++ e2) :=
    exec_append.mpr ⟨c1, e1, e2, h1, h2, rfl⟩
  have hpre : ∀ st ∈ countedAfterwards.take 2, st.isRemoval = false := by decide
  have hrem : session3789.run (countedAfterwards.take 2 ++
      [.readNextMessage 3 3 (structs3789.removedMsg 7) 24]) = some (c1, e1) := h1
  have hsilent : session3789.SilentAfterRemoval countedAfterwards :=
    silent_of_quiet hpre hrem h2 hquiet
  exact ⟨c2, _, h, hm, hsilent, (silent_iff h).mp hsilent⟩

/-! ## no announced source is forgotten -/

variable (S) in
/-- an object that leaves the map and was announced has its removal reported -/
def LeakFree (steps : List Step) : Prop :=
  ∀ p pre st post c1 e1 c2 e2, S.At steps pre st post c1 e1 → S.step c1 st = some (c2, e2) →
    c1.sources.InMap p → ¬ c2.sources.InMap p →
    (∃ stream, (p, .onStreamAdded, stream) ∈ callbacks (e1 ++ e2)) →
    ∃ stream, (p, .onStreamRemoved, stream) ∈ callbacks (e1 ++ e2)

variable (S) in
/-- some step announces a source that is already removed, or handles the first SRC_REMOVED of an
announced source while both its ports are 0 -/
def Forgets (steps : List Step) : Prop :=
  Sometime S.step S.start steps fun pre c st => ∃ p,
    (c.sources.Announces (st.input S.handler) p ∧ (c.heap p).tsRemoved ≠ 0) ∨
    (c.sources.Removes (st.input S.handler) p ∧ (c.heap p).tsRemoved = 0 ∧
      (c.heap p).obj.key.noPorts = true ∧ S.Ever pre fun s i => s.Announces i p)

/-- an object leaves the map after its removal only, and in a step that calls nothing -/
theorem leaves_map {s s' : Sources} {i : Input} {shown : List Shown} {p : Ptr}
    (h : s.step i = some (s', shown)) (hm : s.InMap p) (hn : ¬ s'.InMap p) :
    (s.heap p).tsRemoved > 0 ∧ shown = [] := by
  obtain ⟨r, hr⟩ := hm
  have hn' : s'.map r ≠ some p := fun hr' => hn ⟨r, hr'⟩
  cases Sources.moves_of_step h with
  | @alloc now r' prov hv =>
    by_cases he : r = r'
    · exact ⟨hv p (he ▸ hr), rfl⟩
    · exact absurd (by simpa [he] using hr) hn'
  | @evict now =>
    refine ⟨?_, rfl⟩
    by_contra hts
    refine hn' ?_
    simp [Sources.dropExpired, hr, NetstatSource.expired, hts]
  | _ => exact absurd hr hn'

theorem removal_reported (h : S.run steps = some (c, effs)) (hn : ¬ S.Forgets steps) (p : Ptr) :
    (c.heap p).tsRemoved ≠ 0 → (∃ stream, (p, .onStreamAdded, stream) ∈ callbacks effs) →
      ∃ stream, (p, .onStreamRemoved, stream) ∈ callbacks effs := by
  refine exec_inv (P := fun steps c effs => ¬ S.Forgets steps → (c.heap p).tsRemoved ≠ 0 →
    (∃ stream, (p, .onStreamAdded, stream) ∈ callbacks effs) →
      ∃ stream, (p, .onStreamRemoved, stream) ∈ callbacks effs) ?_ ?_ h hn
  · rintro - - ⟨_, hm⟩
    cases hm
  · intro steps c1 e1 st c2 e2 hx hP hst hn ht hadd
    obtain ⟨hn1, hn2⟩ := not_or.mp (mt (sometime_concat hx).mpr hn)
    obtain ⟨hc, hl⟩ := session_life hx
    have hst' := step_sources hst
    simp only [callbacks_append, List.mem_append, exists_or] at hadd ⊢
    by_cases h0 : (c1.heap p).tsRemoved = 0
    · have hrem : c1.sources.Removes (st.input S.handler) p := by
        by_contra hr
        exact ht ((Sources.tsRemoved_step hc hst' p hr).trans h0)
      have hadd1 : ∃ stream, (p, .onStreamAdded, stream) ∈ callbacks e1 := by
        refine hadd.resolve_right fun hm => ?_
        obtain ⟨obj, ⟨read, _, hd, _⟩, _⟩ := (Sources.announces_iff hst').mpr hm
        obtain ⟨now, hr⟩ := hrem
        cases hd.unique hr
      have hev : S.Ever steps fun s i => s.Announces i p := ever_iff.mpr ((hl p).announced.mp hadd1)
      have hports : (c1.heap p).obj.key.noPorts = false := by
        by_contra hp
        exact hn2 ⟨p, Or.inr ⟨hrem, h0, by simpa using hp, hev⟩⟩
      exact Or.inr ((Sources.removesWithPorts_iff hst').mp ⟨hrem, hports⟩)
    · rcases hadd with hadd | hadd
      · exact Or.inl (hP hn1 h0 hadd)
      · exact absurd ⟨p, Or.inl ⟨(Sources.announces_iff hst').mpr hadd, h0⟩⟩ hn2

/-- **No announced source is forgotten.** -/
theorem no_leak (hn : ¬ S.Forgets steps) : S.LeakFree steps := by
  intro p pre st post c1 e1 c2 e2 hat hst hin hout hadd
  obtain ⟨ht, he⟩ := leaves_map (step_sources hst) hin hout
  rw [callbacks_append, he, List.append_nil] at hadd ⊢
  refine removal_reported hat.reached (fun hf => hn ?_) p (ne_of_gt ht) hadd
  rw [hat.split]
  exact hf.append _

theorem announced_and_forgotten : ¬ session3789.LeakFree lateDescription := by
  intro hs
  have h : ((session3789.run (lateDescription.take 3)).bind fun x =>
      (session3789.step x.1 (.removeOldSources 40)).map fun y =>
        ((x.1.map.toList.map Prod.snd, y.1.map.toList.map Prod.snd),
          (callbacks (x.2 ++ y.2)).map fun w => (w.1, w.2.1))) =
        some (([0], []), [(0, .onStreamAdded)]) := by decide +kernel
  obtain ⟨⟨c1, e1⟩, h1, h⟩ := Option.bind_eq_some_iff.mp h
  obtain ⟨⟨c2, e2⟩, h2, h⟩ := Option.map_eq_some_iff.mp h
  obtain ⟨hmap, hcalls⟩ := Prod.mk.inj h
  obtain ⟨hin, hout⟩ := Prod.mk.inj hmap
  obtain ⟨stream, he⟩ := shown_singleton hcalls
  obtain ⟨stream', hm⟩ := hs 0 _ _ [] c1 e1 c2 e2 ⟨rfl, h1⟩ h2
    (Client.mem_mapped.mp (by rw [hin]; simp)) (fun hp => by
      have := Client.mem_mapped.mpr hp
      rw [hout] at this
      cases this) ⟨stream, by rw [he]; simp⟩
  rw [he] at hm
  simp at hm

/-- a message about a source that is not removed, and has ports if the message removes it -/
theorem forgets_concat {now : Time} {timestamp : UInt32} {buf : Mem} {n : Int}
    (hn : ¬ S.Forgets steps)
    (h : (S.run steps).any fun x => (x.1.map[(S.handler.getSrcRef buf n.toNat (0, 0)).1]?).all
      fun p => (x.1.heap p).tsRemoved == 0 &&
        (hdrType buf != .srcRemoved || !(x.1.heap p).obj.key.noPorts)) :
    ¬ S.Forgets (steps ++ [.readNextMessage now timestamp buf n]) := by
  obtain ⟨⟨c, e⟩, hr, hc⟩ := (Option.any_eq_true _ _).mp h
  refine fun hf => ((sometime_concat hr).mp hf).elim hn ?_
  intro hex
  obtain ⟨p, ⟨⟨obj, ⟨read, _, hd, _⟩, _⟩, ht⟩ | ⟨hrem, _, hp, _⟩⟩ := hex
  · rw [handles_map hd] at hc
    have hts : (c.heap p).tsRemoved = 0 := by simp_all
    exact ht hts
  · obtain ⟨_, hty, hm⟩ := removes_iff.mp hrem
    rw [hm] at hc
    simp_all

/-- the sweep handles no message -/
theorem forgets_evict {now : Time} (h : (S.run steps).isSome)
    (hf : S.Forgets (steps ++ [.removeOldSources now])) : S.Forgets steps := by
  obtain ⟨⟨c, e⟩, hr⟩ := Option.isSome_iff_exists.mp h
  refine ((sometime_concat hr).mp hf).resolve_right ?_
  rintro ⟨p, ⟨⟨obj, ⟨read, _, ⟨_, hi, _⟩, _⟩, _⟩, _⟩ | ⟨⟨_, _, hi, _⟩, _⟩⟩ <;> cases hi

/-- a UDP source that is added, described, removed and evicted -/
def orderlyLife : List Step :=
  [.readNextMessage 1 1 (structs3789.addedMsg 7 4) 28,
   .readNextMessage 2 2 (structs3789.udpDescMsg 7 4 80 81) 248,
   .readNextMessage 3 3 (structs3789.removedMsg 7) 24,
   .removeOldSources 40]

theorem leakFree_orderlyLife : session3789.LeakFree orderlyLife := by
  have h1 : ¬ session3789.Forgets ([] ++ [.readNextMessage 1 1 (structs3789.addedMsg 7 4) 28]) :=
    forgets_concat (sometime_nil _) (by decide)
  have h2 : ¬ session3789.Forgets
      (_ ++ [.readNextMessage 2 2 (structs3789.udpDescMsg 7 4 80 81) 248]) :=
    forgets_concat h1 (by decide)
  have h3 : ¬ session3789.Forgets (_ ++ [.readNextMessage 3 3 (structs3789.removedMsg 7) 24]) :=
    forgets_concat h2 (by decide)
  exact no_leak fun hf => h3 (forgets_evict (by decide) hf)

end Session

end Ntstat
