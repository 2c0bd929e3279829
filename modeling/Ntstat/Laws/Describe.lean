import Ntstat.Laws.Poll

/-!
# A round of descriptions

The calls of `sendNextMsg` that ask for descriptions, and the answers of the kernel.

* `Sources.announce`    what the listener is told of the first description of a source;
* `described_waiting`   a description makes nobody wait;
* `describe_round`      every source that waits is asked about once, and each that is then described
                        with ports is announced, whatever else there was to send and in whatever
                        order the answers come.
-/

namespace Ntstat
open Memory Machine Std

/-- a SRC_DESC message as the tracker sees it -/
structure Description where
  srcRef : UInt64
  read : NTStatStream → Option (Bool × NTStatStream)

def Description.input (d : Description) : Input := .message d.srcRef (.desc d.read)

/-- its source, and what it does to it -/
def Description.message (d : Description) : UInt64 × SrcEvent := (d.srcRef, .desc d.read)

namespace Sources
variable {s : Sources} {d : Description} {p : Ptr}

/-- what the listener is told of the first description of a source -/
def announce (s : Sources) (d : Description) : List Shown :=
  match s.map d.srcRef with
  | none => []
  | some p =>
    match d.read (s.heap p).obj with
    | some (true, obj) =>
      if (NetstatSource.fixName obj).key.noPorts then []
      else [(p, .onStreamAdded, NetstatSource.fixName obj)]
    | _ => []

theorem told_description (hm : s.map d.srcRef = some p)
    (hn : (s.heap p).haveNotifiedAdded = false) : s.told d.message = s.announce d := by
  unfold told announce Description.message SrcEvent.apply
  dsimp only
  rw [hm]
  dsimp only
  cases hr : d.read (s.heap p).obj with
  | none => rfl
  | some r =>
    obtain ⟨b, obj⟩ := r
    cases b with
    | false => rfl
    | true =>
      rw [Option.map_some, Option.map_some, Option.getD_some]
      dsimp only [NetstatSource.described]
      rw [hn]
      cases (NetstatSource.fixName obj).key.noPorts <;> rfl

/-- a source takes what it can read -/
theorem takes_description (hm : s.map d.srcRef = some p) (hr : (d.read (s.heap p).obj).isSome) :
    ∃ t, s.Takes d.message p t ∧
      ∀ obj, d.read (s.heap p).obj = some (true, obj) → t.haveDesc = true := by
  obtain ⟨⟨b, obj⟩, hr⟩ := Option.isSome_iff_exists.mp hr
  unfold Takes Description.message SrcEvent.apply
  dsimp only
  rw [hr, Option.map_some]
  cases b with
  | false =>
    refine ⟨_, ⟨hm, _, rfl⟩, fun obj' he => ?_⟩
    cases he
  | true => exact ⟨_, ⟨hm, _, rfl⟩, fun _ _ => rfl⟩

end Sources

/-! ## who waits after a description -/

/-- **A description makes nobody wait, and leaves the queue as it is.** -/
theorem described_waiting {H : NTStatKernelStructHandler} {c c' : Client} {st : Step}
    {effs : List Effect} {d : Description} (hc : c.sources.Coherent)
    (hi : st.input H = d.input) (h : step H c st = some (c', effs)) :
    c'.outq = c.outq ∧ c'.mapWaitingForCount = c.mapWaitingForCount ∧
      (c.mapWaitingForDesc = ∅ → c'.mapWaitingForDesc = ∅) := by
  cases turn_of_step h with
  | nothing hn => exact ⟨rfl, rfl, id⟩
  | @message now timestamp buf n x hn hx =>
    have hmsg : messageInput H now buf n.toNat = d.input := by
      unfold Step.input at hi
      dsimp only at hi
      rwa [if_neg (Int.not_le.mpr hn)] at hi
    obtain ⟨hcount, hdesc⟩ := Client.handleResponseMessage_waiting hc hx
    refine ⟨?_, hcount, fun hempty => ?_⟩
    · have htake := (Client.still_takeRequest c (hdrContext buf)).outq
      rcases Client.handleResponseMessage_cases hx with ⟨-, ht, -⟩ | ⟨-, hcalm⟩
      · have hother : messageInput H now buf n.toNat = .other := by
          unfold messageInput
          rcases ht with ht | ht <;> rw [ht]
        rw [hother] at hmsg
        cases hmsg
      · exact hcalm.still.outq.trans htake
    · refine ExtTreeMap.ext_getElem? fun k => ?_
      have hnone : c.mapWaitingForDesc[k]? = none := by
        rw [hempty]
        exact ExtTreeMap.getElem?_empty
      rw [hdesc k, hmsg, hnone, ExtTreeMap.getElem?_empty]
      unfold Description.input Sources.waitsDesc
      dsimp only
      split <;> rfl
  | updateWaitForCountsQueue now => cases hi
  | removeOldSources now => cases hi
  | sendNextMsg timestamp rc => cases hi

/-- after descriptions alone, nothing waits if nothing did -/
theorem described_entries {H : NTStatKernelStructHandler} (hH : H.Lawful) {c c' : Client}
    {answers : List Step} {ds : List Description} {effs : List Effect}
    (hc : c.sources.Coherent) (hin : answers.map (Step.input H) = ds.map Description.input)
    (h : exec (step H) c answers = some (c', effs)) (hidle : c.entries = 0) : c'.entries = 0 := by
  induction answers generalizing ds c effs with
  | nil =>
    obtain ⟨rfl, -⟩ := Prod.mk.inj (Option.some.inj h)
    exact hidle
  | cons st answers ih =>
    obtain ⟨c1, e1, e2, h1, h2, rfl⟩ := exec_cons.mp h
    cases ds with
    | nil => cases hin
    | cons d ds =>
      obtain ⟨hi, hin⟩ := List.cons.inj hin
      obtain ⟨ho, hcount, hdesc⟩ := described_waiting hc hi h1
      refine ih (Sources.step_coherent hc (input_lawful hH st) (sources_of_step h1)) hin h2 ?_
      unfold Client.entries at hidle ⊢
      have hempty : c.mapWaitingForDesc = ∅ := ExtTreeMap.eq_empty_iff_size_eq_zero.mpr (by omega)
      rw [ho, hcount, hdesc hempty, ← hempty]
      exact hidle

namespace Session
variable {S : Session} {steps : List Step} {c : Client} {effs : List Effect}

/-- **A round of descriptions.**  As many calls of `sendNextMsg` as there are entries ask about
every source that waits, once; and whatever the order of the answers, the listener is told of each
source that is described with ports, and of nothing else.  Then nothing waits, and every source
whose description was accepted has it. -/
theorem describe_round (h : S.run steps = some (c, effs)) (hpos : Positive steps)
    {sends : List (UInt32 × Int)} (hn : sends.length = c.entries)
    {answers : List Step} {ds : List Description}
    (hin : answers.map (Step.input S.handler) = ds.map Description.input)
    (hperm : (ds.map Description.srcRef).Perm (c.mapWaitingForDesc.toList.map Prod.fst))
    (hread : ∀ d ∈ ds, ∀ p, c.map[d.srcRef]? = some p → (d.read (c.heap p).obj).isSome) :
    ∃ c1 e1 c2 e2,
      exec S.step c (sending sends) = some (c1, e1) ∧
      exec S.step c1 answers = some (c2, e2) ∧
      written e1 = c.outq.map QMsg.msgbytes ++
        numbered c.seqnum (c.descRequests S.handler ++ c.countRequests S.handler) ∧
      callbacks e1 = [] ∧ callbacks e2 = ds.flatMap c.sources.announce ∧ c2.entries = 0 ∧
      ∀ d ∈ ds, ∀ p obj, c.map[d.srcRef]? = some p →
        d.read (c.heap p).obj = some (true, obj) → (c2.heap p).haveDesc = true := by
  obtain ⟨hc, hlife⟩ := session_life h
  have hwaits := (run_pending h hpos).desc
  obtain ⟨c1, e1, hx, hdrained⟩ := exists_drained h sends hn
  obtain ⟨hsources, hquiet⟩ := sending_sources hx
  -- who waits is found, and was not announced
  have hfound : ∀ d ∈ ds, ∃ p, c.sources.map d.srcRef = some p ∧
      (c.sources.heap p).haveNotifiedAdded = false := by
    intro d hd
    have hm := hperm.mem_iff.mp (List.mem_map_of_mem hd)
    obtain ⟨x, hx, he⟩ := List.mem_map.mp hm
    have hw : c.mapWaitingForDesc[x.1]? = some x.2 :=
      ExtTreeMap.mem_toList_iff_getElem?_eq_some.mp hx
    obtain ⟨hp, -, hdesc⟩ := hwaits x.1 x.2 hw
    refine ⟨x.2, he ▸ hp, ?_⟩
    rw [← (hlife x.2).described]
    exact hdesc
  have htakes : ∀ m ∈ ds.map Description.message, ∃ p t, c.sources.Takes m p t := by
    intro m hm
    obtain ⟨d, hd, rfl⟩ := List.mem_map.mp hm
    obtain ⟨p, hp, -⟩ := hfound d hd
    obtain ⟨t, ht, -⟩ := Sources.takes_description hp (hread d hd p hp)
    exact ⟨p, t, ht⟩
  have hkeys : (ds.map Description.message).map Prod.fst = ds.map Description.srcRef :=
    List.map_map ..
  have hnd : ((ds.map Description.message).map Prod.fst).Nodup := by
    rw [hkeys, hperm.nodup_iff]
    exact (keys_ascending _).imp fun hlt he => absurd (he ▸ hlt) (UInt64.lt_irrefl _)
  have hinputs : (ds.map Description.message).map (fun m => Input.message m.1 m.2) =
      answers.map (Step.input S.handler) := by
    rw [hin]
    exact List.map_map ..
  have hl : ∀ m ∈ ds.map Description.message, m.2.Lawful := by
    intro m hm
    have hmem : Input.message m.1 m.2 ∈ answers.map (Step.input S.handler) :=
      hinputs ▸ List.mem_map_of_mem hm
    obtain ⟨st, -, he⟩ := List.mem_map.mp hmem
    have hlawful := input_lawful S.version.lawful st
    rw [show st.input S.version.handler = _ from he] at hlawful
    exact hlawful
  obtain ⟨s2, hs2, -, hin2, -⟩ := Sources.told_all hc hl hnd htakes
  rw [hinputs, ← hsources, ← run_refines] at hs2
  obtain ⟨⟨c2, e2⟩, hx2, he⟩ := Option.map_eq_some_iff.mp hs2
  obtain ⟨rfl, hshown⟩ := Prod.mk.inj he
  have hc1 : c1.sources.Coherent := hsources ▸ hc
  have hidle : c1.entries = 0 := by
    unfold Client.entries
    rw [hdrained.outq, hdrained.desc, hdrained.count]
    rfl
  refine ⟨c1, e1, c2, e2, hx, hx2, hdrained.sent, hquiet, ?_,
    described_entries S.version.lawful hc1 hin hx2 hidle, fun d hd p obj hp hr => ?_⟩
  · rw [show callbacks e2 = _ from hshown, List.flatMap_map, hsources]
    refine List.flatMap_congr fun d hd => ?_
    obtain ⟨p, hp, hnot⟩ := hfound d hd
    exact Sources.told_description hp hnot
  · have hm : c.sources.map d.srcRef = some p := hp
    obtain ⟨t, ht, hdesc⟩ := Sources.takes_description hm (hread d hd p hp)
    have ht2 := hin2 d.message (List.mem_map_of_mem hd) p t ht
    rw [show c2.heap p = t from ht2]
    exact hdesc obj hr

theorem input_of_desc {now : Time} {timestamp : UInt32} {buf : Mem} {n : Int} {r : UInt64}
    (hn : 0 < n) (ht : hdrType buf = .srcDesc)
    (hr : (S.handler.getSrcRef buf n.toNat (0, 0)).1 = r) :
    (Step.readNextMessage now timestamp buf n).input S.handler =
      Description.input ⟨r, S.handler.readSrcDesc buf n.toNat⟩ := by
  unfold Step.input messageInput Description.input
  dsimp only
  rw [if_neg (Int.not_le.mpr hn), ht]
  dsimp only
  rw [hr]

/-- two sources wait for their descriptions -/
def twoAdded : List Step :=
  [.sendNextMsg 1 24,
   .readNextMessage 1 1 (structs3789.addedMsg 7 4) 28,
   .readNextMessage 1 1 (structs3789.addedMsg 9 4) 28]

/-- the descriptions, in the other order; that of 7 has no ports -/
def descsOfBoth : List Step :=
  [.readNextMessage 2 2 (structs3789.udpDescMsg 9 4 82 83) 248,
   .readNextMessage 2 2 (structs3789.udpDescMsg 7 4 0 0) 248]

def descriptionsOfBoth : List Description :=
  [⟨9, session3789.handler.readSrcDesc (structs3789.udpDescMsg 9 4 82 83) 248⟩,
   ⟨7, session3789.handler.readSrcDesc (structs3789.udpDescMsg 7 4 0 0) 248⟩]

theorem descsOfBoth_inputs :
    descsOfBoth.map (Step.input session3789.handler) =
      descriptionsOfBoth.map Description.input := by
  have h9 : (Step.readNextMessage 2 2 (structs3789.udpDescMsg 9 4 82 83) 248).input
      session3789.handler = Description.input ⟨9, _⟩ :=
    input_of_desc (S := session3789) (by decide) (by decide) (by decide)
  have h7 : (Step.readNextMessage 2 2 (structs3789.udpDescMsg 7 4 0 0) 248).input
      session3789.handler = Description.input ⟨7, _⟩ :=
    input_of_desc (S := session3789) (by decide) (by decide) (by decide)
  show [_, _] = [_, _]
  rw [h9, h7]
  rfl

theorem describe_round_twoAdded : ∃ c effs c1 e1 c2 e2,
    session3789.run twoAdded = some (c, effs) ∧
    exec session3789.step c (sending [(2, 24), (2, 24)]) = some (c1, e1) ∧
    exec session3789.step c1 descsOfBoth = some (c2, e2) ∧
    callbacks e2 = descriptionsOfBoth.flatMap c.sources.announce ∧ c2.entries = 0 := by
  have hrun : (session3789.run twoAdded).map (fun x =>
      (x.1.entries, x.1.mapWaitingForDesc.toList.map Prod.fst,
        descriptionsOfBoth.all fun d => (x.1.map[d.srcRef]?).all fun p =>
          (d.read (x.1.heap p).obj).isSome)) = some (2, [7, 9], true) := by decide
  obtain ⟨⟨c, effs⟩, h, he⟩ := Option.map_eq_some_iff.mp hrun
  simp only [Prod.mk.injEq] at he
  obtain ⟨hentries, hkeys, hall⟩ := he
  have hperm : (descriptionsOfBoth.map Description.srcRef).Perm
      (c.mapWaitingForDesc.toList.map Prod.fst) := by
    rw [hkeys]
    exact .swap 7 9 []
  have hread : ∀ d ∈ descriptionsOfBoth, ∀ p, c.map[d.srcRef]? = some p →
      (d.read (c.heap p).obj).isSome := by
    intro d hd p hp
    have hd' := List.all_eq_true.mp hall d hd
    rwa [hp] at hd'
  have hn : [((2 : UInt32), (24 : Int)), (2, 24)].length = c.entries := hentries.symm
  obtain ⟨c1, e1, c2, e2, h1, h2, -, -, h3, h4, -⟩ :=
    describe_round h (by unfold Positive; decide) hn descsOfBoth_inputs hperm hread
  exact ⟨c, effs, c1, e1, c2, e2, h, h1, h2, h3, h4⟩

end Session

end Ntstat
