import Ntstat.Laws.Pending

/-!
# Draining the queue and the waiting sources

A call of `sendNextMsg` sends one request, or passes over one source whose counts are no longer
wanted.

* `Client.backlog`          the requests that are still to go out, with their contexts;
* `Forwards`, `forwards_sendNextMsg`   a call takes the next of them off it;
* `exists_drained`          as many calls as there are entries send all of it;
* `sendNextMsg_drains`      in order.
-/

namespace Ntstat
open Memory Machine Std

/-- without its first key, a map has the rest of its entries -/
theorem toList_erase_head {α β : Type*} {cmp : α → α → Ordering} [TransCmp cmp] [LawfulEqCmp cmp]
    {m : ExtTreeMap α β cmp} {k : α} {p : β} {rest : List (α × β)}
    (h : m.toList = (k, p) :: rest) : (m.erase k).toList = rest := by
  have hord := ExtTreeMap.ordered_keys_toList (t := m)
  rw [h] at hord
  have hne : ∀ x ∈ rest, cmp k x.1 ≠ .eq := by
    intro x hx he
    have hlt : cmp k x.1 = .lt := (List.pairwise_cons.mp hord).1 x hx
    rw [he] at hlt
    cases hlt
  have herase : m.erase k = m.filter fun x _ => cmp k x != .eq := by
    refine ExtTreeMap.ext_getElem? fun x => ?_
    rw [ExtTreeMap.getElem?_erase, ExtTreeMap.getElem?_filter']
    cases cmp k x <;> cases m[x]? <;> rfl
  rw [herase, ExtTreeMap.toList_filter, h, List.filter_cons_of_neg (by simp)]
  exact List.filter_eq_self.mpr fun x hx => by simp [hne x hx]

theorem size_erase_head {m : ExtTreeMap UInt64 Ptr} {k : UInt64} {p : Ptr}
    {rest : List (UInt64 × Ptr)} (h : m.toList = (k, p) :: rest) :
    (m.erase k).size + 1 = m.size := by
  rw [← ExtTreeMap.length_toList, ← ExtTreeMap.length_toList, h, toList_erase_head h]
  rfl

/-- the requests, under the contexts from `seqnum` on -/
def numbered : UInt16 → List (UInt64 → List UInt8) → List (List UInt8)
  | _, [] => []
  | seqnum, write :: writes => write seqnum.toUInt64 :: numbered (seqnum + 1) writes

namespace Client
variable (H : NTStatKernelStructHandler) (c : Client)

/-- the counts of the source are still wanted -/
def Wanted (p : Ptr) : Prop := (c.heap p).tsRemoved = 0 ∧ (c.heap p).requestedCount = true

instance (p : Ptr) : Decidable (c.Wanted p) := inferInstanceAs (Decidable (_ ∧ _))

/-- one GET_SRC_DESC per reference, in ascending order -/
def descRequests : List (UInt64 → List UInt8) :=
  c.mapWaitingForDesc.toList.map fun x context =>
    H.writeSrcDesc context (c.heap x.2).providerId.toUInt64 x.1

/-- one QUERY_SRC per reference whose counts are still wanted, in ascending order -/
def countRequests : List (UInt64 → List UInt8) :=
  (c.mapWaitingForCount.toList.filter fun x => c.Wanted x.2).map fun x context =>
    H.writeQuerySrc context x.1

def requestsToSend : List (UInt64 → List UInt8) := c.descRequests H ++ c.countRequests H

/-- what is still to go out -/
def backlog : List (List UInt8) :=
  c.outq.map QMsg.msgbytes ++ numbered c.seqnum (c.requestsToSend H)

/-- the entries of the queue and of the maps of waiting sources -/
def entries : Nat := c.outq.length + c.mapWaitingForDesc.size + c.mapWaitingForCount.size

/-- `c'` is `c` after a call of `sendNextMsg` that wrote `msgs` -/
structure Forwards (c c' : Client) (msgs : List (List UInt8)) : Prop where
  entries : c'.entries + 1 = c.entries
  backlog : c.backlog H = msgs ++ c'.backlog H
  seqnum : c'.seqnum + UInt16.ofNat (c'.requestsToSend H).length =
    c.seqnum + UInt16.ofNat (c.requestsToSend H).length
  map : c'.map = c.map
  heap : c'.heap = c.heap
  next : c'.next = c.next

variable {H c} {timestamp : UInt32} {rc : Int}

/-- the three parts of `sendNextMsg` -/
theorem sendNextMsg_parts (timestamp : UInt32) (rc : Int) {c1 c2 : Client} {e1 e2 : List Effect}
    (h1 : c.sendWaitingDesc H = (c1, e1)) (h2 : c1.sendWaitingCount H = (c2, e2)) :
    c.sendNextMsg H timestamp rc =
      ((c2.sendFirst timestamp rc).1, e1 ++ e2 ++ (c2.sendFirst timestamp rc).2) := by
  unfold sendNextMsg
  rw [h1]
  dsimp only
  rw [h2]

theorem forwards_first {qm : QMsg} {outq : List QMsg} (ho : c.outq = qm :: outq) :
    c.Forwards H (c.sendNextMsg H timestamp rc).1 (written (c.sendNextMsg H timestamp rc).2) := by
  have hne : c.outq ≠ [] := ho ▸ List.cons_ne_nil _ _
  have hw := (sendFirst_effects ho timestamp rc).2
  have hsend := sendNextMsg_parts timestamp rc
    (sendWaitingDesc_of_outq (H := H) c hne) (sendWaitingCount_of_outq c hne)
  rw [hsend]
  show c.Forwards H _ (written (c.sendFirst timestamp rc).2)
  rw [hw, sendFirst_cons ho]
  refine ⟨?_, ?_, rfl, rfl, rfl, rfl⟩
  · unfold entries
    rw [ho, List.length_cons]
    dsimp only
    omega
  · unfold backlog
    rw [ho]
    rfl

/-- a request was made and sent at once -/
theorem forwards_request {c1 : Client} {qm : QMsg} {workingMsg : QMsg}
    {d n : ExtTreeMap UInt64 Ptr} (write : UInt64 → List UInt8)
    (hc1 : c1 = { c with
      seqnum := c.seqnum + 1
      outq := [qm]
      workingMsg
      mapWaitingForDesc := d
      mapWaitingForCount := n })
    (ho : c.outq = []) (hq : qm.msgbytes = write c.seqnum.toUInt64)
    (hreq : c.requestsToSend H = write :: c1.requestsToSend H)
    (hsize : d.size + n.size + 1 = c.mapWaitingForDesc.size + c.mapWaitingForCount.size) :
    c.Forwards H (c1.sendFirst timestamp rc).1 (written (c1.sendFirst timestamp rc).2) := by
  have ho1 : c1.outq = [qm] := by rw [hc1]
  rw [(sendFirst_effects ho1 timestamp rc).2, sendFirst_cons ho1]
  dsimp only
  have hreq1 : requestsToSend H { c1 with qmsgMap := c1.qmsgMap.insert qm.seqnum qm, outq := [] } =
    c1.requestsToSend H := rfl
  subst hc1
  refine ⟨?_, ?_, ?_, rfl, rfl, rfl⟩
  · unfold entries
    rw [ho]
    dsimp only [List.length_nil]
    omega
  · unfold backlog
    rw [ho, hreq, hq]
    rfl
  · rw [hreq, hreq1, List.length_cons, UInt16.ofNat_add]
    dsimp only
    rw [UInt16.add_assoc, UInt16.add_comm 1]
    rfl

/-- the first source that waits for a description -/
theorem forwards_desc (hl : c.inReplayMode = false) (hk : Session.Keyed c) (ho : c.outq = [])
    {k : UInt64} {p : Ptr} {rest : List (UInt64 × Ptr)}
    (hd : c.mapWaitingForDesc.toList = (k, p) :: rest) :
    c.Forwards H (c.sendNextMsg H timestamp rc).1 (written (c.sendNextMsg H timestamp rc).2) := by
  have hsrc := (hk.desc k p (head_some hd)).2
  obtain ⟨qm, workingMsg, h1, hb⟩ := sendWaitingDesc_asks (H := H) hl ho hd
  rw [hsrc] at hb
  rw [sendNextMsg_parts _ _ h1 (sendWaitingCount_of_outq _ (List.cons_ne_nil _ _))]
  show c.Forwards H _ (written (sendFirst _ timestamp rc).2)
  refine forwards_request
    (fun context => H.writeSrcDesc context (c.heap p).providerId.toUInt64 k) rfl ho hb ?_ ?_
  · unfold requestsToSend descRequests
    rw [hd, toList_erase_head hd]
    rfl
  · have := size_erase_head hd
    omega

theorem descRequests_nil (hd : c.mapWaitingForDesc.toList = []) : c.descRequests H = [] := by
  unfold descRequests
  rw [hd, List.map_nil]

/-- then the first one that waits for counts, if they are still wanted -/
theorem forwards_count (hl : c.inReplayMode = false) (hk : Session.Keyed c) (ho : c.outq = [])
    (hd : c.mapWaitingForDesc.toList = []) {k : UInt64} {p : Ptr} {rest : List (UInt64 × Ptr)}
    (hn : c.mapWaitingForCount.toList = (k, p) :: rest) (hw : c.Wanted p) :
    c.Forwards H (c.sendNextMsg H timestamp rc).1 (written (c.sendNextMsg H timestamp rc).2) := by
  have hdesc := descRequests_nil (H := H) hd
  have hsize := size_erase_head hn
  have hsrc := (hk.count k p (head_some hn)).2
  obtain ⟨ht, hr⟩ := hw
  obtain ⟨qm, workingMsg, h2, hb⟩ :=
    sendWaitingCount_asks (H := H) hl ho hn (by rw [ht, hr]; rfl)
  rw [hsrc] at hb
  rw [sendNextMsg_parts _ _ (sendWaitingDesc_idle hd) h2]
  show c.Forwards H _ (written (sendFirst _ timestamp rc).2)
  refine forwards_request (fun context => H.writeQuerySrc context k) rfl ho hb ?_ (by omega)
  unfold requestsToSend
  rw [hdesc]
  show c.countRequests H = _ :: (c.descRequests H ++ _)
  rw [hdesc]
  unfold countRequests
  rw [hn, toList_erase_head hn, List.filter_cons_of_pos (by simp [Wanted, ht, hr])]
  rfl

/-- if they are not, it is passed over -/
theorem forwards_stale (ho : c.outq = []) (hd : c.mapWaitingForDesc.toList = []) {k : UInt64}
    {p : Ptr} {rest : List (UInt64 × Ptr)} (hn : c.mapWaitingForCount.toList = (k, p) :: rest)
    (hw : ¬ c.Wanted p) :
    c.Forwards H (c.sendNextMsg H timestamp rc).1 (written (c.sendNextMsg H timestamp rc).2) := by
  have hsize := size_erase_head hn
  have hstale : ¬ ((c.heap p).tsRemoved == 0 && (c.heap p).requestedCount) = true := by
    intro h
    obtain ⟨ht, hr⟩ := Bool.and_eq_true_iff.mp h
    exact hw ⟨beq_iff_eq.mp ht, hr⟩
  have ho' : ({ c with mapWaitingForCount := c.mapWaitingForCount.erase k } : Client).outq = [] :=
    ho
  rw [sendNextMsg_parts _ _ (sendWaitingDesc_idle hd) (sendWaitingCount_stale ho hn hstale),
    sendFirst_nil ho']
  have hreq : requestsToSend H { c with mapWaitingForCount := c.mapWaitingForCount.erase k } =
      c.requestsToSend H := by
    unfold requestsToSend countRequests
    rw [hn, toList_erase_head hn, List.filter_cons_of_neg (by simp [hw])]
    rfl
  refine ⟨?_, ?_, ?_, rfl, rfl, rfl⟩
  · unfold entries
    dsimp only
    omega
  · unfold backlog
    rw [hreq]
    rfl
  · rw [hreq]

/-- **A call of `sendNextMsg` with something to send takes one entry off.** -/
theorem forwards_sendNextMsg (timestamp : UInt32) (rc : Int) (hl : c.inReplayMode = false)
    (hk : Session.Keyed c) (hpos : 0 < c.entries) : c.Forwards H (c.sendNextMsg H timestamp rc).1
      (written (c.sendNextMsg H timestamp rc).2) := by
  by_cases ho : c.outq = []
  · cases hd : c.mapWaitingForDesc.toList with
    | cons kp rest => exact forwards_desc hl hk ho hd
    | nil =>
      cases hn : c.mapWaitingForCount.toList with
      | nil =>
        -- there is nothing to send
        unfold entries at hpos
        rw [ho, ← ExtTreeMap.length_toList, ← ExtTreeMap.length_toList, hd, hn] at hpos
        exact absurd hpos (lt_irrefl _)
      | cons kp rest =>
        by_cases hw : c.Wanted kp.2
        · exact forwards_count hl hk ho hd hn hw
        · exact forwards_stale ho hd hn hw
  · obtain ⟨qm, outq, ho⟩ := List.exists_cons_of_ne_nil ho
    exact forwards_first ho

end Client

namespace Session
variable {S : Session} {steps : List Step} {c c' c1 : Client} {effs : List Effect}
  {msgs msgs' : List (List UInt8)}

/-- in `c'` everything has gone out that waited in `c`, as the messages `msgs` -/
structure Drained (S : Session) (c c' : Client) (msgs : List (List UInt8)) : Prop where
  outq : c'.outq = []
  desc : c'.mapWaitingForDesc = ∅
  count : c'.mapWaitingForCount = ∅
  sent : msgs = c.outq.map QMsg.msgbytes ++
    numbered c.seqnum (c.descRequests S.handler ++ c.countRequests S.handler)
  seqnum : c'.seqnum = c.seqnum +
    UInt16.ofNat (c.descRequests S.handler ++ c.countRequests S.handler).length
  map : c'.map = c.map
  heap : c'.heap = c.heap
  next : c'.next = c.next

theorem drained_of_empty (h : c.entries = 0) : S.Drained c c [] := by
  unfold Client.entries at h
  have ho : c.outq = [] := List.length_eq_zero_iff.mp (by omega)
  have hd : c.mapWaitingForDesc = ∅ := ExtTreeMap.eq_empty_iff_size_eq_zero.mpr (by omega)
  have hn : c.mapWaitingForCount = ∅ := ExtTreeMap.eq_empty_iff_size_eq_zero.mpr (by omega)
  have hreq : c.descRequests S.handler ++ c.countRequests S.handler = [] := by
    unfold Client.descRequests Client.countRequests
    rw [hd, hn]
    rfl
  refine ⟨ho, hd, hn, ?_, ?_, rfl, rfl, rfl⟩
  · rw [ho, hreq]
    rfl
  · rw [hreq]
    exact (UInt16.add_zero _).symm

theorem Drained.cons (h : S.Drained c1 c' msgs') (hf : c.Forwards S.handler c1 msgs) :
    S.Drained c c' (msgs ++ msgs') := by
  refine ⟨h.outq, h.desc, h.count, ?_, h.seqnum.trans hf.seqnum, h.map.trans hf.map,
    h.heap.trans hf.heap, h.next.trans hf.next⟩
  rw [h.sent]
  exact hf.backlog.symm

/-- the references come in ascending order -/
theorem keys_ascending (m : ExtTreeMap UInt64 Ptr) : (m.toList.map Prod.fst).Pairwise (· < ·) := by
  rw [List.pairwise_map]
  have hord := ExtTreeMap.ordered_keys_toList (t := m)
  exact hord.imp fun {x y} h => Std.compare_eq_lt.mp h

/-- the calls of `sendNextMsg` -/
def sending (calls : List (UInt32 × Int)) : List Step := calls.map fun x => .sendNextMsg x.1 x.2

/-- as many calls as there are entries drain the client -/
theorem exists_drained (h : S.run steps = some (c, effs)) (calls : List (UInt32 × Int))
    (hn : calls.length = c.entries) :
    ∃ c' e', exec S.step c (sending calls) = some (c', e') ∧ S.Drained c c' (written e') := by
  induction calls generalizing steps c effs with
  | nil => exact ⟨c, [], rfl, drained_of_empty hn.symm⟩
  | cons x calls ih =>
    have hpos : 0 < c.entries := hn ▸ Nat.succ_pos _
    have hf := Client.forwards_sendNextMsg (H := S.handler) x.1 x.2
      (run_numbered h).live (run_keyed h) hpos
    have hst : S.step c (.sendNextMsg x.1 x.2) = some (c.sendNextMsg S.handler x.1 x.2) := rfl
    generalize c.sendNextMsg S.handler x.1 x.2 = y at hf hst
    have hleft : calls.length = y.1.entries := by
      have h1 := hf.entries
      rw [List.length_cons] at hn
      omega
    obtain ⟨c', e', hx, hd⟩ := ih (run_concat h hst) hleft
    refine ⟨c', y.2 ++ e', exec_cons.mpr ⟨y.1, y.2, e', hst, hx, rfl⟩, ?_⟩
    rw [written_append]
    exact hd.cons hf

/-- **As many calls of `sendNextMsg` as there are entries send all of them, in order.** -/
theorem sendNextMsg_drains (h : S.run steps = some (c, effs)) (calls : List (UInt32 × Int))
    (hn : calls.length =
      c.outq.length + c.mapWaitingForDesc.size + c.mapWaitingForCount.size) :
    (∃ c' e', exec S.step c (calls.map fun x => .sendNextMsg x.1 x.2) = some (c', e') ∧
      S.Drained c c' (written e')) ∧
    (c.mapWaitingForDesc.toList.map Prod.fst).Pairwise (· < ·) ∧
    (c.mapWaitingForCount.toList.map Prod.fst).Pairwise (· < ·) :=
  ⟨exists_drained h calls hn, keys_ascending _, keys_ascending _⟩

/-- the subscription, a description and counts wait to be asked for -/
def unsent : List Step :=
  [.readNextMessage 1 1 (structs3789.addedMsg 7 4) 28,
   .readNextMessage 1 1 (structs3789.addedMsg 8 4) 28,
   .readNextMessage 2 2 (structs3789.udpDescMsg 8 4 80 81) 248,
   .updateWaitForCountsQueue 20]

/-- none of the three writes succeeds -/
theorem sendNextMsg_drains_unsent : ∃ c effs, session3789.run unsent = some (c, effs) ∧
    c.outq.length = 1 ∧ c.mapWaitingForDesc.size = 1 ∧ c.mapWaitingForCount.size = 1 ∧
    ∃ c' e', exec session3789.step c
        [.sendNextMsg 21 (-1), .sendNextMsg 21 (-1), .sendNextMsg 22 (-1)] = some (c', e') ∧
      session3789.Drained c c' (written e') := by
  have hrun : (session3789.run unsent).map (fun x => (x.1.outq.length,
      x.1.mapWaitingForDesc.size, x.1.mapWaitingForCount.size)) = some (1, 1, 1) := by
    decide
  obtain ⟨⟨c, effs⟩, h, he⟩ := Option.map_eq_some_iff.mp hrun
  simp only [Prod.mk.injEq] at he
  obtain ⟨ho, hd, hn⟩ := he
  have hdrain := sendNextMsg_drains h [(21, -1), (21, -1), (22, -1)] (by rw [ho, hd, hn]; rfl)
  exact ⟨c, effs, h, ho, hd, hn, hdrain.1⟩

end Session

end Ntstat
