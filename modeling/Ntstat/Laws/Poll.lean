import Ntstat.Laws.Drain
import Ntstat.Sources.History
import Ntstat.Sources.Round

/-!
# A round of statistics

A sweep over the sources, the calls of `sendNextMsg` that follow, and the answers of the kernel.

* `Client.wanting`      the sources that want counts, in ascending order;
* `swept_waiting`       with nothing else waiting, the sweep makes exactly these wait;
* `Sources.answered`    each answer is reported, in whatever order they come;
* `poll_round`          so each of these sources is asked about once, no other is, and each answer
                        with packets is reported.
-/

namespace Ntstat
open Memory Machine Std

/-! ## the answers -/

/-- a SRC_COUNTS message as the tracker sees it -/
structure Answer where
  srcRef : UInt64
  now : Time
  read : NTStatCounters → NTStatCounters

def Answer.input (a : Answer) : Input := .message a.srcRef (.counts a.now a.read)

/-- its source, and what it does to it -/
def Answer.message (a : Answer) : UInt64 × SrcEvent := (a.srcRef, .counts a.now a.read)

namespace Sources
variable {s s' : Sources} {i : Input} {a : Answer} {as : List Answer}

/-- what the listener is told of an answer that was asked for -/
def report (s : Sources) (a : Answer) : List Shown :=
  match s.map a.srcRef with
  | none => []
  | some p =>
    let stats := a.read (s.heap p).obj.stats
    if 0 < stats.rxpackets ∨ 0 < stats.txpackets then
      [(p, .onStreamStatsUpdate, { (s.heap p).obj with stats })]
    else []

/-- the source is described, and its counts were asked for -/
def Awaits (s : Sources) (r : UInt64) : Prop :=
  ∃ p, s.map r = some p ∧ (s.heap p).haveDesc = true ∧ (s.heap p).requestedCount = true

/-- an answer that was asked for is reported -/
theorem told_answer (h : s.Awaits a.srcRef) : s.told a.message = s.report a := by
  obtain ⟨p, hm, hd, hr⟩ := h
  unfold told report Answer.message SrcEvent.apply NetstatSource.counted
  dsimp only
  rw [hm]
  dsimp only
  rw [hd, hr, Option.map_some, Option.getD_some]
  simp only [Bool.true_and, Bool.or_eq_true, decide_eq_true_eq]
  split <;> rfl

/-- **Each answer is reported, in whatever order they come.** -/
theorem answered (hc : s.Coherent) (hnd : (as.map Answer.srcRef).Nodup)
    (h : ∀ a ∈ as, s.Awaits a.srcRef) :
    ∃ s', exec step s (as.map Answer.input) = some (s', as.flatMap s.report) := by
  have hkeys : (as.map Answer.message).map Prod.fst = as.map Answer.srcRef := List.map_map ..
  have hinputs : (as.map Answer.message).map (fun m => Input.message m.1 m.2) =
      as.map Answer.input := List.map_map ..
  have hl : ∀ m ∈ as.map Answer.message, m.2.Lawful := by
    intro m hm
    obtain ⟨a, -, rfl⟩ := List.mem_map.mp hm
    trivial
  have htakes : ∀ m ∈ as.map Answer.message, ∃ p t, s.Takes m p t := by
    intro m hm
    obtain ⟨a, ha, rfl⟩ := List.mem_map.mp hm
    obtain ⟨p, hp, -, -⟩ := h a ha
    exact ⟨p, _, hp, _, rfl⟩
  obtain ⟨s', hx, -, -, -⟩ := told_all hc hl (hkeys.symm ▸ hnd) htakes
  rw [hinputs, List.flatMap_map] at hx
  have htold : as.flatMap (fun a => s.told a.message) = as.flatMap s.report :=
    List.flatMap_congr fun a ha => told_answer (h a ha)
  exact ⟨s', htold ▸ hx⟩

end Sources

/-! ## the requests -/

namespace Client
variable {c : Client} {now : Time}

/-- the sources that want counts, in ascending order -/
def wanting (c : Client) (now : Time) : List (UInt64 × Ptr) :=
  c.map.toList.filter fun x => (c.heap x.2).wantsCount now

/-- a source waits for its counts after the sweep only if it did or wants them -/
theorem requestCounts_wanted (now : Time) (ps : List Ptr) (c : Client) {k : UInt64} {p : Ptr}
    (h : (ps.foldl (requestCount now) c).mapWaitingForCount[k]? = some p) :
    c.mapWaitingForCount[k]? = some p ∨ (c.heap p).wantsCount now = true := by
  induction ps generalizing c with
  | nil => exact Or.inl h
  | cons q ps ih =>
    have hwants : ((c.requestCount now q).heap p).wantsCount now = (c.heap p).wantsCount now := by
      rw [requestCount_heap]
      split <;> rfl
    rcases ih (c.requestCount now q) h with h1 | h1
    · unfold requestCount at h1
      split at h1
      · next hw =>
        rw [ExtTreeMap.getElem?_insert] at h1
        split at h1
        · obtain rfl := Option.some.inj h1
          exact Or.inr hw
        · exact Or.inl h1
      · exact Or.inl h1
    · exact Or.inr (hwants ▸ h1)

/-- **With nothing waiting, the sweep makes exactly the sources wait that want counts.** -/
theorem swept_waiting (hc : c.sources.Coherent) (hn : c.mapWaitingForCount = ∅) (now : Time) :
    (c.updateWaitForCountsQueue now).mapWaitingForCount.toList = c.wanting now := by
  have hmap : (c.updateWaitForCountsQueue now).mapWaitingForCount =
      c.map.filter fun _ p => (c.heap p).wantsCount now := by
    obtain ⟨-, honly, hwaits⟩ := updateWaitForCountsQueue_waiting hc now
    have hempty : ∀ k : UInt64, c.mapWaitingForCount[k]? = none := by
      intro k
      rw [hn]
      exact ExtTreeMap.getElem?_empty
    refine ExtTreeMap.ext_getElem? fun k => Option.ext fun p => ?_
    rw [ExtTreeMap.getElem?_filter']
    constructor
    · intro h
      have hm : c.map[k]? = some p := by
        rcases honly k p h with h' | h'
        · rw [hempty] at h'
          cases h'
        · exact h'
      have hw : (c.heap p).wantsCount now = true := by
        rcases requestCounts_wanted now _ c h with h' | h'
        · rw [hempty] at h'
          cases h'
        · exact h'
      rw [hm]
      simp [hw]
    · intro h
      obtain ⟨hm, hw⟩ := Option.filter_eq_some_iff.mp h
      exact hwaits k p hm (Or.inr hw)
  rw [hmap, ExtTreeMap.toList_filter]
  rfl

/-- what the sweep does to a source that wants counts -/
theorem swept_heap {x : UInt64 × Ptr} (hx : x ∈ c.wanting now) :
    c.map[x.1]? = some x.2 ∧ (c.heap x.2).wantsCount now = true ∧
      (c.updateWaitForCountsQueue now).heap x.2 = (c.heap x.2).marked := by
  obtain ⟨hm, hw⟩ := List.mem_filter.mp hx
  have hget : c.map[x.1]? = some x.2 := ExtTreeMap.mem_toList_iff_getElem?_eq_some.mp hm
  refine ⟨hget, hw, ?_⟩
  unfold updateWaitForCountsQueue
  rw [requestCounts_heap]
  exact if_pos ⟨mem_mapped.mpr ⟨x.1, hget⟩, hw⟩

end Client

namespace Session
variable {S : Session} {steps : List Step} {c : Client} {effs : List Effect} {now : Time}

/-- sending is nothing to the sources -/
theorem sending_sources {c' : Client} {e : List Effect} {sends : List (UInt32 × Int)}
    (hx : exec S.step c (sending sends) = some (c', e)) :
    c'.sources = c.sources ∧ callbacks e = [] := by
  have hidle : ∀ sends, exec Sources.step c.sources
      ((sending sends).map (Step.input S.handler)) = some (c.sources, []) := by
    intro sends
    induction sends with
    | nil => rfl
    | cons x sends ih => exact exec_cons.mpr ⟨_, _, _, rfl, ih, rfl⟩
  have hs := sources_of_run hx
  rw [hidle] at hs
  obtain ⟨h1, h2⟩ := Prod.mk.inj (Option.some.inj hs)
  exact ⟨h1.symm, h2.symm⟩

/-- with nothing else waiting, a sweep and enough calls ask about the sources that want counts -/
theorem exists_asked (h : S.run steps = some (c, effs)) (hidle : c.entries = 0)
    {sends : List (UInt32 × Int)} (hn : sends.length = (c.wanting now).length) :
    ∃ c1 e1, exec S.step c (.updateWaitForCountsQueue now :: sending sends) = some (c1, e1) ∧
      written e1 = numbered c.seqnum
        ((c.wanting now).map fun x context => S.handler.writeQuerySrc context x.1) ∧
      callbacks e1 = [] ∧ c1.sources.map = c.sources.map ∧
      ∀ x ∈ c.wanting now, c1.sources.heap x.2 = (c.heap x.2).marked := by
  have hc := (session_life h).1
  unfold Client.entries at hidle
  have ho : c.outq = [] := List.length_eq_zero_iff.mp (by omega)
  have hd : c.mapWaitingForDesc = ∅ := ExtTreeMap.eq_empty_iff_size_eq_zero.mpr (by omega)
  have hcount : c.mapWaitingForCount = ∅ := ExtTreeMap.eq_empty_iff_size_eq_zero.mpr (by omega)
  -- the sweep
  have hsweep : S.step c (.updateWaitForCountsQueue now) =
      some (c.updateWaitForCountsQueue now, []) := rfl
  have hwaiting := Client.swept_waiting hc hcount now
  obtain ⟨_, _, hkeep⟩ := c.updateWaitForCountsQueue_changes now
  have hkeeps : (c.updateWaitForCountsQueue now).outq = [] ∧
      (c.updateWaitForCountsQueue now).mapWaitingForDesc = ∅ ∧
      (c.updateWaitForCountsQueue now).seqnum = c.seqnum ∧
      (c.updateWaitForCountsQueue now).sources.map = c.sources.map := by
    rw [hkeep]
    exact ⟨ho, hd, rfl, rfl⟩
  have hheap := fun x (hx : x ∈ c.wanting now) => Client.swept_heap hx
  generalize c.updateWaitForCountsQueue now = c0 at hsweep hwaiting hkeeps hheap
  obtain ⟨ho, hd, hseq, hmap⟩ := hkeeps
  -- the requests
  have hentries : sends.length = c0.entries := by
    unfold Client.entries
    rw [ho, hd, ← ExtTreeMap.length_toList (t := c0.mapWaitingForCount), hwaiting, hn]
    simp
  obtain ⟨c1, e1, hx, hdrained⟩ := exists_drained (run_concat h hsweep) sends hentries
  obtain ⟨hsources, hquiet⟩ := sending_sources hx
  have hall : ∀ x ∈ c0.mapWaitingForCount.toList, c0.Wanted x.2 := by
    intro x hx
    rw [hwaiting] at hx
    obtain ⟨-, hw, hmarked⟩ := hheap x hx
    unfold Client.Wanted
    rw [hmarked]
    have h0 : (c.heap x.2).tsRemoved = 0 := by
      unfold NetstatSource.wantsCount at hw
      simp only [Bool.and_eq_true, beq_iff_eq] at hw
      exact hw.1.1.1
    exact ⟨h0, rfl⟩
  refine ⟨c1, e1, exec_cons.mpr ⟨c0, [], e1, hsweep, hx, rfl⟩, ?_, hquiet, ?_, fun x hx => ?_⟩
  · rw [hdrained.sent, ho, hseq]
    unfold Client.descRequests Client.countRequests
    rw [hd, List.filter_eq_self.mpr fun x hx => decide_eq_true (hall x hx), hwaiting]
    rfl
  · rw [hsources]
    exact hmap
  · rw [hsources]
    exact (hheap x hx).2.2

/-- a source that wants counts is described -/
theorem described_of_wanting (h : S.run steps = some (c, effs)) {x : UInt64 × Ptr}
    (hx : x ∈ c.wanting now) : (c.heap x.2).haveDesc = true := by
  obtain ⟨-, hw, -⟩ := Client.swept_heap hx
  have hl := (session_life h).2 x.2
  have hports : (c.heap x.2).obj.key.noPorts = false := by
    unfold NetstatSource.wantsCount at hw
    simp only [Bool.and_eq_true, Bool.not_eq_true'] at hw
    exact hw.1.2
  rw [show (c.heap x.2).haveDesc = _ from hl.described]
  by_contra hn
  have hno : (c.heap x.2).obj.key.noPorts = true := hl.noPorts (Bool.eq_false_iff.mpr hn)
  rw [hno] at hports
  cases hports

theorem wanting_nodup (c : Client) (now : Time) : ((c.wanting now).map Prod.fst).Nodup := by
  have hsub : ((c.wanting now).map Prod.fst).Sublist (c.map.toList.map Prod.fst) :=
    List.filter_sublist.map Prod.fst
  exact ((keys_ascending c.map).sublist hsub).imp fun hlt he =>
    absurd (he ▸ hlt) (UInt64.lt_irrefl _)

/-- **A round of statistics.**  If nothing waits to be sent, then after a sweep exactly the sources
that want counts are asked about, each once and in ascending order; and whatever the order of the
answers, the listener is told of each that has packets, once, and of nothing else. -/
theorem poll_round (h : S.run steps = some (c, effs)) (hidle : c.entries = 0)
    {sends : List (UInt32 × Int)} (hn : sends.length = (c.wanting now).length)
    {answers : List Step} {as : List Answer}
    (hin : answers.map (Step.input S.handler) = as.map Answer.input)
    (hperm : (as.map Answer.srcRef).Perm ((c.wanting now).map Prod.fst)) :
    ∃ c1 e1 c2 e2,
      exec S.step c (.updateWaitForCountsQueue now :: sending sends) = some (c1, e1) ∧
      exec S.step c1 answers = some (c2, e2) ∧
      written e1 = numbered c.seqnum
        ((c.wanting now).map fun x context => S.handler.writeQuerySrc context x.1) ∧
      callbacks e1 = [] ∧ callbacks e2 = as.flatMap c.sources.report := by
  obtain ⟨c1, e1, hx, hw, hquiet, hmap, hheap⟩ := exists_asked h hidle hn
  have hc1 : c1.sources.Coherent := (session_life (exec_append.mpr ⟨c, _, _, h, hx, rfl⟩)).1
  have hasked : ∀ a ∈ as, ∃ x ∈ c.wanting now, x.1 = a.srcRef := by
    intro a ha
    have hm := hperm.mem_iff.mp (List.mem_map_of_mem ha)
    obtain ⟨x, hx, he⟩ := List.mem_map.mp hm
    exact ⟨x, hx, he⟩
  have hawaits : ∀ a ∈ as, c1.sources.Awaits a.srcRef := by
    intro a ha
    obtain ⟨x, hx, he⟩ := hasked a ha
    refine ⟨x.2, ?_, ?_, ?_⟩
    · rw [hmap, ← he]
      exact (Client.swept_heap hx).1
    · rw [hheap x hx]
      exact described_of_wanting h hx
    · rw [hheap x hx]
      rfl
  have hreport : as.flatMap c1.sources.report = as.flatMap c.sources.report := by
    refine List.flatMap_congr fun a ha => ?_
    obtain ⟨x, hx, he⟩ := hasked a ha
    have hm : c.sources.map a.srcRef = some x.2 := he ▸ (Client.swept_heap hx).1
    unfold Sources.report
    rw [hmap, hm]
    dsimp only
    rw [hheap x hx]
    rfl
  obtain ⟨s2, hs2⟩ := Sources.answered hc1 (hperm.nodup_iff.mpr (wanting_nodup c now)) hawaits
  rw [← hin, ← run_refines] at hs2
  obtain ⟨⟨c2, e2⟩, hx2, he⟩ := Option.map_eq_some_iff.mp hs2
  refine ⟨c1, e1, c2, e2, hx, hx2, hw, hquiet, ?_⟩
  rw [← hreport]
  exact (Prod.mk.inj he).2

theorem input_of_counts {now : Time} {timestamp : UInt32} {buf : Mem} {n : Int} {r : UInt64}
    (hn : 0 < n) (ht : hdrType buf = .srcCounts)
    (hr : (S.handler.getSrcRef buf n.toNat (0, 0)).1 = r) :
    (Step.readNextMessage now timestamp buf n).input S.handler =
      Answer.input ⟨r, now, S.handler.readCounts buf n.toNat⟩ := by
  unfold Step.input messageInput Answer.input
  dsimp only
  rw [if_neg (Int.not_le.mpr hn), ht]
  dsimp only
  rw [hr]

/-- two sources are described, and nothing waits to be sent -/
def twoDescribed : List Step :=
  [.sendNextMsg 1 24,
   .readNextMessage 1 1 (structs3789.addedMsg 7 4) 28,
   .readNextMessage 1 1 (structs3789.addedMsg 9 4) 28,
   .readNextMessage 2 2 (structs3789.udpDescMsg 7 4 80 81) 248,
   .readNextMessage 2 2 (structs3789.udpDescMsg 9 4 82 83) 248]

/-- the answers, in the other order -/
def countsOfBoth : List Step :=
  [.readNextMessage 21 21 (structs3789.countsMsg 9 3) 144,
   .readNextMessage 22 22 (structs3789.countsMsg 7 0) 144]

def answersOfBoth : List Answer :=
  [⟨9, 21, session3789.handler.readCounts (structs3789.countsMsg 9 3) 144⟩,
   ⟨7, 22, session3789.handler.readCounts (structs3789.countsMsg 7 0) 144⟩]

theorem countsOfBoth_inputs :
    countsOfBoth.map (Step.input session3789.handler) = answersOfBoth.map Answer.input := by
  have h9 : (Step.readNextMessage 21 21 (structs3789.countsMsg 9 3) 144).input
      session3789.handler = Answer.input ⟨9, 21, _⟩ :=
    input_of_counts (S := session3789) (by decide) (by decide) (by decide)
  have h7 : (Step.readNextMessage 22 22 (structs3789.countsMsg 7 0) 144).input
      session3789.handler = Answer.input ⟨7, 22, _⟩ :=
    input_of_counts (S := session3789) (by decide) (by decide) (by decide)
  show [_, _] = [_, _]
  rw [h9, h7]
  rfl

theorem poll_round_twoDescribed : ∃ c effs c1 e1 c2 e2,
    session3789.run twoDescribed = some (c, effs) ∧
    (answersOfBoth.map Answer.srcRef).Perm ((c.wanting 20).map Prod.fst) ∧
    exec session3789.step c (.updateWaitForCountsQueue 20 :: sending [(20, 32), (20, 32)]) =
      some (c1, e1) ∧
    exec session3789.step c1 countsOfBoth = some (c2, e2) ∧
    callbacks e2 = answersOfBoth.flatMap c.sources.report := by
  have hrun : (session3789.run twoDescribed).map (fun x =>
      (x.1.entries, (x.1.wanting 20).map Prod.fst)) = some (0, [7, 9]) := by decide
  obtain ⟨⟨c, effs⟩, h, he⟩ := Option.map_eq_some_iff.mp hrun
  obtain ⟨hidle, hkeys⟩ := Prod.mk.inj he
  have hlen : [((20 : UInt32), (32 : Int)), (20, 32)].length = (c.wanting 20).length := by
    have hlen := congrArg List.length hkeys
    rw [List.length_map] at hlen
    exact hlen.symm
  have hperm : (answersOfBoth.map Answer.srcRef).Perm ((c.wanting 20).map Prod.fst) := by
    rw [hkeys]
    exact .swap 7 9 []
  obtain ⟨c1, e1, c2, e2, h1, h2, -, -, h3⟩ :=
    poll_round h hidle hlen countsOfBoth_inputs hperm
  exact ⟨c, effs, c1, e1, c2, e2, h, hperm, h1, h2, h3⟩

end Session

end Ntstat
