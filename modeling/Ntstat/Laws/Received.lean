import Ntstat.Kernel.Extent
import Ntstat.Laws.Announce

/-!
# Decoding received bytes only

`handleResponseMessage` gets the number of received bytes and, but for the error code, never looks
at it: the handlers cast the buffer to their structs.  `Determined` says that a message of `n` bytes
means the same to every client, whatever stands behind them in the buffer; `Received` that the bytes
its type makes the client read were received.

* `handle_agree`        a received message is handled alike in all buffers that hold it;
* `determined_iff`      and no other is.
-/

namespace Ntstat
open Memory KernelStructs

namespace KernelVersion
variable (v : KernelVersion) (n : Nat) (m : Mem)

/-- whatever stands behind the `n` bytes, the client does the same, and something defined -/
def Determined : Prop := ∀ (c : Client) (now : Time), ∃ r, ∀ m', Mem.Agree n m m' →
  c.handleResponseMessage v.handler now m' n = some r

/-- the context was received; and if the message may be one that is answered, its type was received
and the content that is read of it -/
def Received : Prop :=
  nstatMsgHdr.offsetOf .context + 8 ≤ n ∧
    ∀ t ∈ Client.responses, MayBe n m (nstatMsgHdr.offsetOf .type) t.code →
      nstatMsgHdr.offsetOf .type + 4 ≤ n ∧ v.ContentReceived n m t

end KernelVersion

/-! ## received bytes are enough -/

section
variable {v : KernelVersion} {n : Nat} {m m' : Mem} {c : Client} {now : Time}

theorem unknown_not_mem_responses : MsgType.unknown ∉ Client.responses := by decide

theorem mayBe_hdrType (h : hdrType m ∈ Client.responses) :
    MayBe n m (nstatMsgHdr.offsetOf .type) (hdrType m).code :=
  mayBe_of_u32 (MsgType.code_ofCode fun he => unknown_not_mem_responses (he ▸ h)).symm

theorem getAndLogError_agree (h : Mem.Agree n m m') (c : Client) :
    c.getAndLogError m' n = c.getAndLogError m n := by
  unfold Client.getAndLogError msgErrorOf
  by_cases hn : n < clientMsgError.sizeOf
  · rw [if_pos hn, if_pos hn]
  · have hend : clientMsgError.offsetOf .error + 4 ≤ n :=
      Nat.le_trans (show clientMsgError.offsetOf .error + 4 ≤ clientMsgError.sizeOf by decide)
        (Nat.le_of_not_lt hn)
    rw [if_neg hn, if_neg hn, u32_agree h hend]

theorem handleState_agree (h : Mem.Agree n m m') (ht : hdrType m' = hdrType m) (c : Client)
    (reqMsg : QMsg) : c.handleState v.handler m' n reqMsg = c.handleState v.handler m n reqMsg := by
  unfold Client.handleState
  rw [ht, getAndLogError_agree h]

/-- the type that was received decides what else has to be -/
theorem received_of_content {t : MsgType} (ht : hdrType m = t) (hn : 12 ≤ n)
    (hc : v.ContentReceived n m t) : v.Received n m := by
  refine ⟨by rw [hdr_offsets.1]; omega, fun t' _ hmay => ?_⟩
  have hn' : nstatMsgHdr.offsetOf .type + 4 ≤ n := by
    rw [hdr_offsets.2.1]
    exact hn
  obtain rfl : t' = t := by rw [← ht, hdrType, u32_of_mayBe hmay hn', MsgType.ofCode_code]
  exact ⟨hn', hc⟩

theorem readProvider_agree {s : CStruct MsgMember} (h : Mem.Agree n m m')
    (hn : s.offsetOf .provider + 4 ≤ n) : readProvider s m = readProvider s m' := u32_agree h hn

theorem handleSrcDesc_agree (h : Mem.Agree n m m') (hr : v.DescReceived n m) (c : Client)
    (r : UInt64) : c.handleSrcDesc v.handler m' n r = c.handleSrcDesc v.handler m n r ∧
      (c.handleSrcDesc v.handler m n r).isSome := by
  unfold Client.handleSrcDesc
  cases c.lookupSource r with
  | none => exact ⟨rfl, rfl⟩
  | some p =>
    obtain ⟨he, hs⟩ := readSrcDesc_agree h hr (c.heap p).obj
    dsimp only
    rw [← he, Option.isSome_map]
    exact ⟨rfl, hs⟩

theorem handleSrcCounts_agree (h : Mem.Agree n m m')
    (hr : ∀ i ∈ v.countersRead, v.structs.countsOff i + 8 ≤ n) (c : Client) (now : Time)
    (r : UInt64) :
    c.handleSrcCounts v.handler now m' n r = c.handleSrcCounts v.handler now m n r := by
  have hread : ∀ dest, v.handler.readCounts m n dest = v.handler.readCounts m' n dest :=
    fun _ => readCounts_eq_iff.mpr fun i hi => u64_agree h (hr i hi)
  unfold Client.handleSrcCounts
  simp only [hread]

/-- **A received message is handled alike in all buffers that hold it.** -/
theorem handle_agree (hr : v.Received n m) (h : Mem.Agree n m m') :
    c.handleResponseMessage v.handler now m' n = c.handleResponseMessage v.handler now m n ∧
      (c.handleResponseMessage v.handler now m n).isSome := by
  obtain ⟨hctx, hty⟩ := hr
  have hc : hdrContext m' = hdrContext m := (u64_agree h hctx).symm
  -- a type that one of the buffers has was received, so both have it
  have hboth : ∀ {a b : Mem}, Mem.Agree n m a → Mem.Agree n m b →
      hdrType a ∈ Client.responses → hdrType b = hdrType a := by
    intro a b ha hb hm
    have hn := (hty _ hm ((mayBe_hdrType hm).agree ha.symm)).1
    exact congrArg MsgType.ofCode (u32_agree (fun i hi => (hb i hi).symm.trans (ha i hi)) hn)
  have hself : Mem.Agree n m m := fun _ _ => rfl
  by_cases hm : hdrType m ∈ Client.responses
  · have hcont := (hty _ hm (mayBe_hdrType hm)).2
    have ht' := hboth hself h hm
    have hcases := hm
    simp only [Client.responses, List.mem_cons, List.not_mem_nil, or_false] at hcases
    rcases hcases with ht | ht | ht | ht | ht | ht <;> rw [ht] at ht' hcont
    · rw [Client.handle_success ht, Client.handle_success ht', hc,
        handleState_agree h (ht'.trans ht.symm)]
      exact ⟨rfl, rfl⟩
    · rw [Client.handle_error ht, Client.handle_error ht', hc, getAndLogError_agree h,
        handleState_agree h (ht'.trans ht.symm)]
      exact ⟨rfl, rfl⟩
    · rw [Client.handle_added ht, Client.handle_added ht', hc, v.getSrcRef_added n _ ht,
        v.getSrcRef_added n _ ht', ← readSrcref_agree h hcont.1, ← readProvider_agree h hcont.2]
      exact ⟨rfl, rfl⟩
    · rw [Client.handle_removed ht, Client.handle_removed ht', hc, v.getSrcRef_removed n _ ht,
        v.getSrcRef_removed n _ ht', ← readSrcref_agree h hcont]
      exact ⟨rfl, rfl⟩
    · rw [Client.handle_desc ht, Client.handle_desc ht', hc, v.getSrcRef_desc n _ ht,
        v.getSrcRef_desc n _ ht', ← readSrcref_agree h hcont.1]
      obtain ⟨he, hs⟩ := handleSrcDesc_agree h hcont.2 (c.takeRequest (hdrContext m)).2
        (v.structs.readSrcref v.structs.srcDescription m)
      rw [he, Option.isSome_map]
      exact ⟨rfl, hs⟩
    · rw [Client.handle_counts ht, Client.handle_counts ht', hc, v.getSrcRef_counts n _ ht,
        v.getSrcRef_counts n _ ht', ← readSrcref_agree h hcont.1, handleSrcCounts_agree h hcont.2]
      exact ⟨rfl, rfl⟩
  · have hm' : hdrType m' ∉ Client.responses := fun hm' => hm (by rwa [hboth h hself hm'])
    rw [Client.handle_other hm, Client.handle_other hm', hc]
    exact ⟨rfl, rfl⟩

theorem determined_of_received (hr : v.Received n m) : v.Determined n m := by
  intro c now
  have hs : (c.handleResponseMessage v.handler now m n).isSome := (handle_agree hr fun _ _ => rfl).2
  obtain ⟨r, he⟩ := Option.isSome_iff_exists.mp hs
  exact ⟨r, fun m' h => (handle_agree hr h).1.trans he⟩

end

/-! ## and they are needed -/

/-- a running client that knows the source `r` only and waits for its description -/
def knowing (r : UInt64) : Client where
  heap := fun _ => { srcRef := r, providerId := 0 }
  map := (∅ : Std.ExtTreeMap UInt64 Ptr).insert r 0
  state := .running
  mapWaitingForDesc := (∅ : Std.ExtTreeMap UInt64 Ptr).insert r 0

theorem knowing_self (r : UInt64) : (knowing r).lookupSource r = some 0 := by
  simp [knowing, Client.lookupSource]

theorem knowing_other {r r' : UInt64} (h : r' ≠ r) : (knowing r).lookupSource r' = none := by
  simp [knowing, Client.lookupSource, h.symm]

theorem takeRequest_none {c : Client} (h : c.qmsgMap = ∅) (context : UInt64) :
    c.takeRequest context = ({}, c) := by
  simp [Client.takeRequest, h]

section
variable {v : KernelVersion} {n : Nat} {m m' : Mem} {c : Client} {now : Time}

theorem srcrefReceived_of_mutant {s : CStruct MsgMember}
    (h : v.structs.readSrcref s m = v.structs.readSrcref s (m.mutant 0 n)) :
    v.SrcrefReceived n s :=
  Mem.end_of_mutant v.layout.srcRefSize.1 (readSrcref_inj v.layout.srcRefSize.2 h)

/-! ### the header -/

/-- a message that is not answered shows its context: a request filed under it is dropped -/
theorem context_received (h : v.Determined n m) : nstatMsgHdr.offsetOf .context + 8 ≤ n := by
  by_contra hn
  rw [hdr_offsets.1, Nat.zero_add] at hn
  let blank (m : Mem) : Mem := m.poke (nstatMsgHdr.offsetOf .type) 4 MsgType.unknown.code.toNat
  have htype : ∀ m, hdrType (blank m) ∉ Client.responses := fun m => by
    rw [hdrType, Mem.u32_poke, MsgType.ofCode_code]
    exact unknown_not_mem_responses
  have hlow : ∀ m i, i < 8 → blank m i = m i := fun m i hi =>
    Mem.poke_of_lt (Or.inl (by rw [hdr_offsets.2.1]; exact hi))
  have hctx : ∀ m, hdrContext (blank m) = hdrContext m := fun m =>
    u64_agree (hlow m) (by rw [hdr_offsets.1])
  let c : Client :=
    { state := .running, qmsgMap := (∅ : Std.ExtTreeMap UInt64 QMsg).insert (hdrContext m) {} }
  obtain ⟨r, hr⟩ := h c 1
  have h1 := hr (blank m) fun i hi => (hlow m i (by omega)).symm
  have h2 := hr (blank (m.mutant 0 n)) fun i hi =>
    (Mem.agree_mutant 0 n m i hi).trans (hlow _ i (by omega)).symm
  rw [Client.handle_other (htype _), hctx, Client.takeRequest] at h1 h2
  have hne : hdrContext m ≠ hdrContext (m.mutant 0 n) := fun he => by
    have := Mem.end_of_mutant (by decide) (u64_inj he)
    rw [hdr_offsets.1] at this
    omega
  have hq := congrArg (fun x => x.2.1.qmsgMap[hdrContext m]?) (Option.some.inj (h1.trans h2.symm))
  simp [c, hne] at hq

/-- the new client answers 0 to what it answers -/
theorem answer_zero (ht : hdrType m ∈ Client.responses) {r : Int × Client × List Effect}
    (h : ({} : Client).handleResponseMessage v.handler now m n = some r) : r.1 = 0 := by
  simp only [Client.responses, List.mem_cons, List.not_mem_nil, or_false] at ht
  rcases ht with ht | ht | ht | ht | ht | ht
  · rw [Client.handle_success ht] at h
    exact (congrArg Prod.fst (Option.some.inj h)).symm
  · rw [Client.handle_error ht, takeRequest_none rfl, if_pos (by decide)] at h
    exact (congrArg Prod.fst (Option.some.inj h)).symm
  · rw [Client.handle_added ht] at h
    exact (congrArg Prod.fst (Option.some.inj h)).symm
  · rw [Client.handle_removed ht] at h
    exact (congrArg Prod.fst (Option.some.inj h)).symm
  · rw [Client.handle_desc ht] at h
    obtain ⟨x, -, rfl⟩ := Option.map_eq_some_iff.mp h
    rfl
  · rw [Client.handle_counts ht] at h
    exact (congrArg Prod.fst (Option.some.inj h)).symm

/-- a type that may be an answered one may also be an unknown one until its last byte is there -/
theorem type_received (h : v.Determined n m) {t : MsgType} (ht : t ∈ Client.responses)
    (hmay : MayBe n m (nstatMsgHdr.offsetOf .type) t.code) :
    nstatMsgHdr.offsetOf .type + 4 ≤ n := by
  by_contra hn
  rw [hdr_offsets.2.1] at hn
  set m1 := m.poke (nstatMsgHdr.offsetOf .type) 4 t.code.toNat with hm1
  have ht1 : hdrType m1 = t := by rw [hdrType, hm1, Mem.u32_poke, MsgType.ofCode_code]
  have ht2 : hdrType (m1.poke 11 1 1) ∉ Client.responses := by
    intro hmem
    have hzero : ∀ t ∈ Client.responses, byteOf t.code.toNat 3 = 0 := by decide
    have hb := mayBe_hdrType (n := 12) hmem 3 (by decide) (by decide)
    have hone : m1.poke 11 1 1 (8 + 3) = 1 := Mem.poke_at (i := 0) (by decide)
    rw [hzero _ hmem, hdr_offsets.2.1, hone] at hb
    exact absurd hb (by decide)
  obtain ⟨r, hr⟩ := h {} 1
  have h1 := hr m1 hmay.agree_poke
  have h2 := hr (m1.poke 11 1 1) fun i hi => by
    rw [Mem.poke_of_lt (Or.inl (by omega))]
    exact hmay.agree_poke i hi
  have hzero := answer_zero (ht1 ▸ ht) h1
  rw [Client.handle_other ht2] at h2
  rw [← Option.some.inj h2] at hzero
  exact absurd (show (-1 : Int) = 0 from hzero) (by decide)

/-! ### the content -/

theorem added_received (h : v.Determined n m)
    (ht : ∀ m', Mem.Agree n m m' → hdrType m' = .srcAdded) : v.ContentReceived n m .srcAdded := by
  obtain ⟨r, hr⟩ := h { state := .running } 1
  have hheap : ∀ m', Mem.Agree n m m' → r.2.1.heap 0 =
      { srcRef := v.structs.readSrcref v.structs.srcAdded m'
        providerId := readProvider v.structs.srcAdded m'
        obj := { id := v.structs.readSrcref v.structs.srcAdded m' }
        tsAdded := 1 } := by
    intro m' ha
    have he := hr m' ha
    rw [Client.handle_added (ht m' ha), takeRequest_none rfl,
      v.getSrcRef_added n _ (ht m' ha)] at he
    rw [← Option.some.inj he]
    simp [Client.handleSrcAdded, Client.resetSource, Client.newSource,
      Client.addToWaitingForDescQueue]
  have he := (hheap m fun _ _ => rfl).symm.trans (hheap _ (Mem.agree_mutant 0 n m))
  exact ⟨srcrefReceived_of_mutant (congrArg NetstatSource.srcRef he),
    Mem.end_of_mutant (by decide) (u32_inj (congrArg NetstatSource.providerId he))⟩

theorem removed_received (h : v.Determined n m)
    (ht : ∀ m', Mem.Agree n m m' → hdrType m' = .srcRemoved) :
    v.ContentReceived n m .srcRemoved := by
  set r := v.structs.readSrcref v.structs.srcRemoved m with hr0
  obtain ⟨x, hx⟩ := h (knowing r) 1
  have hstep : ∀ m', Mem.Agree n m m' → x.2 = (knowing r).handleSrcRemoved 1
      (v.structs.readSrcref v.structs.srcRemoved m') := by
    intro m' ha
    have he := hx m' ha
    rw [Client.handle_removed (ht m' ha), takeRequest_none rfl,
      v.getSrcRef_removed n _ (ht m' ha)] at he
    exact congrArg Prod.snd (Option.some.inj he).symm
  refine srcrefReceived_of_mutant (m := m) ?_
  by_contra hne
  have h1 := hstep m fun _ _ => rfl
  have h2 := hstep _ (Mem.agree_mutant 0 n m)
  rw [Client.handleSrcRemoved, ← hr0, knowing_self] at h1
  rw [Client.handleSrcRemoved, knowing_other (Ne.symm hne)] at h2
  have hw := congrArg (fun y => y.1.mapWaitingForDesc[r]?) (h1.symm.trans h2)
  simp [knowing, Client.updateSource, Client.setSource, Client.removeFromWaitingForDescQueue] at hw

/-- what a description leaves behind -/
theorem handleSrcDesc_leaves {r : UInt64} {p : Ptr} {x : Client × List Effect}
    (hp : c.lookupSource r = some p) (h : c.handleSrcDesc v.handler m n r = some x) :
    x.1.mapWaitingForDesc = c.mapWaitingForDesc.erase (c.heap p).srcRef ∧
      ∃ b d, v.handler.readSrcDesc m n (c.heap p).obj = some (b, d) ∧
        d.key = (x.1.heap p).obj.key ∧ d.states = (x.1.heap p).obj.states := by
  unfold Client.handleSrcDesc at h
  rw [hp] at h
  obtain ⟨⟨b, d⟩, hd, rfl⟩ := Option.map_eq_some_iff.mp h
  cases b with
  | true =>
    refine ⟨rfl, true, d, hd, ?_⟩
    simp [Client.updateSource, Client.setSource, NetstatSource.described]
  | false =>
    refine ⟨rfl, false, d, hd, ?_⟩
    simp [Client.setSource]

theorem desc_received (h : v.Determined n m)
    (ht : ∀ m', Mem.Agree n m m' → hdrType m' = .srcDesc) : v.ContentReceived n m .srcDesc := by
  set r := v.structs.readSrcref v.structs.srcDescription m with hr0
  obtain ⟨x, hx⟩ := h (knowing r) 1
  have hstep : ∀ m', Mem.Agree n m m' → (knowing r).handleSrcDesc v.handler m' n
      (v.structs.readSrcref v.structs.srcDescription m') = some x.2 := by
    intro m' ha
    have he := hx m' ha
    rw [Client.handle_desc (ht m' ha), takeRequest_none rfl, v.getSrcRef_desc n _ (ht m' ha)] at he
    obtain ⟨y, hy, rfl⟩ := Option.map_eq_some_iff.mp he
    exact hy
  have hsrc : v.SrcrefReceived n v.structs.srcDescription := by
    refine srcrefReceived_of_mutant (m := m) ?_
    by_contra hne
    have h1 := (handleSrcDesc_leaves (hr0 ▸ knowing_self r) (hstep m fun _ _ => rfl)).1
    have h2 := hstep _ (Mem.agree_mutant 0 n m)
    rw [Client.handleSrcDesc, knowing_other (Ne.symm hne)] at h2
    rw [← Option.some.inj h2] at h1
    have hw := congrArg (fun q => q[r]?) h1
    simp [knowing] at hw
  have hread : ∀ m', Mem.Agree n m m' → ∃ b d, v.handler.readSrcDesc m' n {} = some (b, d) ∧
      d.key = (x.2.1.heap 0).obj.key ∧ d.states = (x.2.1.heap 0).obj.states := by
    intro m' ha
    have hself : (knowing r).lookupSource
        (v.structs.readSrcref v.structs.srcDescription m') = some 0 := by
      rw [← readSrcref_agree ha hsrc]
      exact knowing_self r
    exact (handleSrcDesc_leaves hself (hstep m' ha)).2
  exact ⟨hsrc, received_of_readSrcDesc hread⟩

theorem counts_received (h : v.Determined n m)
    (ht : ∀ m', Mem.Agree n m m' → hdrType m' = .srcCounts) : v.ContentReceived n m .srcCounts := by
  set r := v.structs.readSrcref v.structs.srcCounts m with hr0
  obtain ⟨x, hx⟩ := h (knowing r) 1
  have hstep : ∀ m', Mem.Agree n m m' → x.2 = (knowing r).handleSrcCounts v.handler 1 m' n
      (v.structs.readSrcref v.structs.srcCounts m') := by
    intro m' ha
    have he := hx m' ha
    rw [Client.handle_counts (ht m' ha), takeRequest_none rfl,
      v.getSrcRef_counts n _ (ht m' ha)] at he
    exact congrArg Prod.snd (Option.some.inj he).symm
  have h1 := hstep m fun _ _ => rfl
  have h2 := hstep _ (Mem.agree_mutant 0 n m)
  rw [Client.handleSrcCounts, ← hr0, knowing_self] at h1
  have hsrc : v.structs.readSrcref v.structs.srcCounts m =
      v.structs.readSrcref v.structs.srcCounts (m.mutant 0 n) := by
    by_contra hne
    rw [Client.handleSrcCounts, knowing_other (Ne.symm hne)] at h2
    have hw := congrArg (fun y => (y.1.heap 0).tsLastUpdate) (h1.symm.trans h2)
    simp [knowing, Client.updateSource, Client.setSource, NetstatSource.counted] at hw
  rw [Client.handleSrcCounts, ← hsrc, ← hr0, knowing_self] at h2
  have hstats := congrArg (fun y => (y.1.heap 0).obj.stats) (h1.symm.trans h2)
  simp only [Client.updateSource, Client.setSource, NetstatSource.counted, Function.update_self]
    at hstats
  exact ⟨srcrefReceived_of_mutant hsrc, fun i hi =>
    Mem.end_of_mutant (by decide) (u64_inj (readCounts_eq_iff.mp hstats i hi))⟩

theorem received_of_determined (h : v.Determined n m) : v.Received n m := by
  refine ⟨context_received h, fun t ht hmay => ?_⟩
  have hn := type_received h ht hmay
  have htype : ∀ m', Mem.Agree n m m' → hdrType m' = t := by
    intro m' ha
    rw [hdrType, ← u32_agree ha hn, u32_of_mayBe hmay hn, MsgType.ofCode_code]
  refine ⟨hn, ?_⟩
  simp only [Client.responses, List.mem_cons, List.not_mem_nil, or_false] at ht
  rcases ht with rfl | rfl | rfl | rfl | rfl | rfl
  · trivial
  · trivial
  · exact added_received h htype
  · exact removed_received h htype
  · exact desc_received h htype
  · exact counts_received h htype

end

/-- **A message means the same to every client, whatever stands behind it in the buffer, exactly if
everything that its type makes the client read was received.** -/
theorem KernelVersion.determined_iff (v : KernelVersion) (n : Nat) (m : Mem) :
    v.Determined n m ↔ v.Received n m :=
  ⟨received_of_determined, determined_of_received⟩

/-- counts of which only the reference was received: the counters are what the buffer happens to
hold behind it -/
theorem counts_cut_short :
    Mem.Agree 24 (structs3789.countsMsg 7 0) (structs3789.countsMsg 7 5) ∧
      ∃ c effs, Session.session3789.run [.readNextMessage 1 1 (structs3789.addedMsg 7 4) 28] =
          some (c, effs) ∧
        c.handleResponseMessage ntStatKernel3789 2 (structs3789.countsMsg 7 0) 24 ≠
          c.handleResponseMessage ntStatKernel3789 2 (structs3789.countsMsg 7 5) 24 := by
  let run := Session.session3789.run [.readNextMessage 1 1 (structs3789.addedMsg 7 4) 28]
  let rx (x : Client × List Effect) (rxpackets : UInt64) : Option UInt64 :=
    (x.1.handleResponseMessage ntStatKernel3789 2 (structs3789.countsMsg 7 rxpackets) 24).map
      fun r => (r.2.1.heap 0).obj.stats.rxpackets
  have hrun : run.isSome = true := by decide
  have hne : (run.map fun x => rx x 0) ≠ run.map fun x => rx x 5 := by decide
  obtain ⟨⟨c, effs⟩, he⟩ := Option.isSome_iff_exists.mp hrun
  refine ⟨by decide, c, effs, he, fun heq => hne ?_⟩
  rw [he]
  exact congrArg (fun r => some (r.map fun r => (r.2.1.heap 0).obj.stats.rxpackets)) heq

/-! ### messages that were received -/

theorem addedMsg_received : KernelVersion.Received .xnu3789 28 (structs3789.addedMsg 7 4) :=
  received_of_content (t := .srcAdded) (by decide) (by decide)
    ⟨by unfold KernelVersion.SrcrefReceived; decide, by decide⟩

theorem removedMsg_received : KernelVersion.Received .xnu3789 24 (structs3789.removedMsg 7) :=
  received_of_content (t := .srcRemoved) (by decide) (by decide)
    (by unfold KernelVersion.ContentReceived KernelVersion.SrcrefReceived; decide)

theorem udpDescMsg_received :
    KernelVersion.Received .xnu3789 248 (structs3789.udpDescMsg 7 4 80 81) := by
  have hdesc : KernelVersion.DescReceived .xnu3789 248 (structs3789.udpDescMsg 7 4 80 81) := by
    intro p hp
    obtain rfl := (u32_of_mayBe hp (by decide)).symm
    exact ⟨fun hm => absurd hm (by decide), fun _ =>
      ⟨⟨by decide, by decide⟩, by decide, Or.inl (by decide)⟩⟩
  exact received_of_content (t := .srcDesc) (by decide) (by decide)
    ⟨by unfold KernelVersion.SrcrefReceived; decide, hdesc⟩

end Ntstat
