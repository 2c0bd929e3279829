import Mathlib.Data.List.Perm.Subperm
import Ntstat.Laws.Subscription
import Ntstat.Laws.Budget

/-!
# How long a source waits to be asked about

A call of `sendNextMsg` sends one request: subscriptions first, then descriptions, then counts, each
in the order of their references.

* `upTo`            the sources that wait in front of one, and that one;
* `subscribing_le`  at most two subscriptions come first;
* `desc_served`     only announcements of smaller references put off the request for a description;
* `count_served`    only announcements put off the request for counts, between two sweeps.
-/

namespace Ntstat
open Memory Machine Std

section
variable {α β : Type*} {m : ExtTreeMap UInt64 α} {m' : ExtTreeMap UInt64 β}

theorem countP_keys (m : ExtTreeMap UInt64 α) (q : UInt64 → Bool) :
    m.toList.countP (fun x => q x.1) = ((m.toList.map Prod.fst).filter q).length := by
  rw [← List.countP_eq_length_filter, List.countP_map]
  rfl

theorem mem_map_fst {x : UInt64} : x ∈ m.toList.map Prod.fst ↔ m[x]?.isSome := by
  rw [Option.isSome_iff_exists, List.mem_map]
  constructor
  · intro hex
    obtain ⟨⟨y, p⟩, hy, rfl⟩ := hex
    exact ⟨p, ExtTreeMap.mem_toList_iff_getElem?_eq_some.mp hy⟩
  · intro hex
    obtain ⟨p, hp⟩ := hex
    exact ⟨(x, p), ExtTreeMap.mem_toList_iff_getElem?_eq_some.mpr hp, rfl⟩

/-- the keys that are new are in `l` -/
theorem keys_le (q : UInt64 → Bool) (l : List UInt64)
    (h : ∀ x, q x = true → m'[x]?.isSome → m[x]?.isSome ∨ x ∈ l) :
    m'.toList.countP (fun x => q x.1) ≤ m.toList.countP (fun x => q x.1) + l.length := by
  have hnodup : ((m'.toList.map Prod.fst).filter q).Nodup := by
    refine List.Nodup.filter _ ((List.pairwise_map.mpr ?_).imp fun hlt => UInt64.ne_of_lt hlt)
    exact ExtTreeMap.ordered_keys_toList.imp fun hlt => Std.compare_eq_lt.mp hlt
  rw [countP_keys, countP_keys, ← List.length_append]
  refine (hnodup.subperm fun x hx => ?_).length_le
  rw [List.mem_filter, mem_map_fst] at hx
  obtain ⟨hs, hq⟩ := hx
  rw [List.mem_append, List.mem_filter, mem_map_fst]
  exact (h x hq hs).imp_left fun hs => ⟨hs, hq⟩

theorem size_le (l : List UInt64) (h : ∀ x, m'[x]?.isSome → m[x]?.isSome ∨ x ∈ l) :
    m'.size ≤ m.size + l.length := by
  have hle : m'.toList.countP (fun _ => true) ≤ m.toList.countP (fun _ => true) + l.length :=
    keys_le (fun _ => true) l fun x _ => h x
  rwa [List.countP_true, List.countP_true, ExtTreeMap.length_toList, ExtTreeMap.length_toList]
    at hle

end

/-- the keys of the map up to `k` -/
def upTo (m : ExtTreeMap UInt64 Ptr) (k : UInt64) : Nat := m.toList.countP fun x => x.1 ≤ k

section
variable {m m' : ExtTreeMap UInt64 Ptr} {k k' : UInt64} {p : Ptr} {rest : List (UInt64 × Ptr)}

theorem upTo_pos (h : m[k]?.isSome) : 0 < upTo m k := by
  obtain ⟨p, hp⟩ := Option.isSome_iff_exists.mp h
  refine List.countP_pos_iff.mpr ⟨(k, p), ?_, ?_⟩
  · exact ExtTreeMap.mem_toList_iff_getElem?_eq_some.mpr hp
  · exact decide_eq_true (UInt64.le_refl k)

/-- the first key is the smallest -/
theorem head_le (h : m.toList = (k', p) :: rest) (hk : m[k]?.isSome) : k' ≤ k := by
  obtain ⟨q, hq⟩ := Option.isSome_iff_exists.mp hk
  have hmem := ExtTreeMap.mem_toList_iff_getElem?_eq_some.mpr hq
  have hord := ExtTreeMap.ordered_keys_toList (t := m)
  rw [h] at hmem hord
  rcases List.mem_cons.mp hmem with he | hmem
  · obtain ⟨rfl, -⟩ := Prod.mk.inj he
    exact UInt64.le_refl k
  · have hlt : compare k' k = .lt := (List.pairwise_cons.mp hord).1 (k, q) hmem
    exact UInt64.le_of_lt (Std.compare_eq_lt.mp hlt)

theorem exists_head (hk : m[k]?.isSome) : ∃ k' p rest, m.toList = (k', p) :: rest := by
  cases h : m.toList with
  | nil =>
    have hpos := upTo_pos hk
    unfold upTo at hpos
    rw [h] at hpos
    cases hpos
  | cons kp rest => exact ⟨kp.1, kp.2, rest, rfl⟩

theorem upTo_erase_head (h : m.toList = (k', p) :: rest) (hle : k' ≤ k) :
    upTo (m.erase k') k + 1 = upTo m k := by
  unfold upTo
  rw [toList_erase_head h, h, List.countP_cons, if_pos (decide_eq_true hle)]

theorem upTo_le (l : List UInt64)
    (h : ∀ x, x ≤ k → m'[x]?.isSome → m[x]?.isSome ∨ x ∈ l) : upTo m' k ≤ upTo m k + l.length :=
  keys_le (· ≤ k) l fun x hx => h x (of_decide_eq_true hx)

end

/-! ## the turns of `sendNextMsg` -/

namespace Client
variable {v : KernelVersion} {c : Client}

/-- the subscriptions that wait, and the one that the answer to the first one can add -/
def subscribing (c : Client) : Nat := c.outq.length + if c.state = .requestTcpSrc then 1 else 0

/-- the first request of the queue goes out -/
theorem turn_first {qm : QMsg} {outq : List QMsg} (ho : c.outq = qm :: outq) (timestamp : UInt32)
    (rc : Int) : c.sendNextMsg v.handler timestamp rc = ({ c with
      qmsgMap := c.qmsgMap.insert qm.seqnum qm
      outq }, c.record timestamp qm.msgbytes ++ [.socketWrite qm.msgbytes]) := by
  have hne : c.outq ≠ [] := ho ▸ List.cons_ne_nil _ _
  rw [sendNextMsg_parts timestamp rc (sendWaitingDesc_of_outq c hne)
    (sendWaitingCount_of_outq c hne), sendFirst_cons ho]
  rfl

/-- with nothing in the queue, the first source that waits for a description is asked about -/
theorem turn_desc (hl : c.inReplayMode = false) (ho : c.outq = []) {k : UInt64} {p : Ptr}
    {rest : List (UInt64 × Ptr)} (hd : c.mapWaitingForDesc.toList = (k, p) :: rest)
    (timestamp : UInt32) (rc : Int) :
    (c.sendNextMsg v.handler timestamp rc).1.outq = [] ∧
      (c.sendNextMsg v.handler timestamp rc).1.mapWaitingForDesc = c.mapWaitingForDesc.erase k ∧
      (c.sendNextMsg v.handler timestamp rc).1.mapWaitingForCount = c.mapWaitingForCount := by
  obtain ⟨qm, workingMsg, h1, -⟩ := sendWaitingDesc_asks (H := v.handler) hl ho hd
  rw [sendNextMsg_parts _ _ h1 (sendWaitingCount_of_outq _ (List.cons_ne_nil _ _)),
    sendFirst_cons rfl]
  exact ⟨rfl, rfl, rfl⟩

/-- then the first one that waits for counts is asked about or passed over -/
theorem turn_count (hl : c.inReplayMode = false) (ho : c.outq = [])
    (hd : c.mapWaitingForDesc.toList = []) {k : UInt64} {p : Ptr} {rest : List (UInt64 × Ptr)}
    (hn : c.mapWaitingForCount.toList = (k, p) :: rest) (timestamp : UInt32) (rc : Int) :
    (c.sendNextMsg v.handler timestamp rc).1.outq = [] ∧
      (c.sendNextMsg v.handler timestamp rc).1.mapWaitingForDesc = c.mapWaitingForDesc ∧
      (c.sendNextMsg v.handler timestamp rc).1.mapWaitingForCount =
        c.mapWaitingForCount.erase k := by
  by_cases hw : ((c.heap p).tsRemoved == 0 && (c.heap p).requestedCount) = true
  · obtain ⟨qm, workingMsg, h2, -⟩ := sendWaitingCount_asks (H := v.handler) hl ho hn hw
    rw [sendNextMsg_parts _ _ (sendWaitingDesc_idle hd) h2, sendFirst_cons rfl]
    exact ⟨rfl, rfl, rfl⟩
  · have ho' : ({ c with mapWaitingForCount := c.mapWaitingForCount.erase k } : Client).outq = [] :=
      ho
    rw [sendNextMsg_parts _ _ (sendWaitingDesc_idle hd) (sendWaitingCount_stale ho hn hw),
      sendFirst_nil ho']
    exact ⟨ho, rfl, rfl⟩

/-- what such a call sends it writes as well -/
theorem Sends.length_le {d n : ExtTreeMap UInt64 Ptr} {enq wr : List (List UInt8)}
    (h : c.Sends v d n enq wr) : enq.length ≤ wr.length := by
  cases h with
  | first => exact Nat.zero_le _
  | _ => exact Nat.le_refl _

end Client

/-- the calls of `sendNextMsg` -/
def Step.isSend : Step → Bool
  | sendNextMsg _ _ => true
  | _ => false

/-- a message that ends the wait of `k` for a description -/
def Input.settles (k : UInt64) : Input → Prop
  | message r e => r = k ∧ e.endsWait = true
  | _ => False

/-- a SRC_ADDED for a smaller reference -/
def Input.addsBelow (k : UInt64) : Input → Bool
  | added _ r _ => r < k
  | _ => false

def Input.isAdded : Input → Bool
  | added _ _ _ => true
  | _ => false

/-- the counts of `k` arrive, or it is removed -/
def Input.ends (k : UInt64) : Input → Prop
  | message r (.removed _) => r = k
  | message r (.counts _ _) => r = k
  | _ => False

def sendsIn (steps : List Step) : Nat := steps.countP Step.isSend

theorem sendsIn_append (steps steps' : List Step) :
    sendsIn (steps ++ steps') = sendsIn steps + sendsIn steps' := List.countP_append

theorem sendsIn_other {st : Step} (hs : ∀ timestamp rc, st ≠ .sendNextMsg timestamp rc) :
    sendsIn [st] = 0 := by
  cases st with
  | sendNextMsg timestamp rc => exact absurd rfl (hs timestamp rc)
  | _ => rfl

namespace Session
variable {S : Session} {steps more : List Step} {c c' : Client} {effs effs' : List Effect}
  {st : Step} {k : UInt64}

/-- a state of a run whose readings of the clock are positive -/
def Reached (S : Session) (c : Client) : Prop :=
  ∃ steps effs, S.run steps = some (c, effs) ∧ Positive steps

theorem Reached.step (h : S.Reached c) (hst : S.step c st = some (c', effs'))
    (hpos : ∀ t, st.reading = some t → 0 < t) : S.Reached c' := by
  obtain ⟨steps, effs, h, hp⟩ := h
  refine ⟨_, _, run_concat h hst, positive_iff.mpr fun st' hm => ?_⟩
  rcases List.mem_append.mp hm with hm | hm
  · exact positive_iff.mp hp st' hm
  · obtain rfl := List.mem_singleton.mp hm
    exact hpos

theorem state_of_send {timestamp : UInt32} {rc : Int}
    (hst : S.step c (.sendNextMsg timestamp rc) = some (c', effs')) : c'.state = c.state := by
  obtain rfl := congrArg Prod.fst (Option.some.inj hst)
  exact (c.sendNextMsg_unsubscribed (v := S.version) timestamp rc).state

/-! ## subscriptions -/

/-- only `sendNextMsg` writes to the socket -/
theorem written_other (hst : S.step c st = some (c', effs'))
    (hs : ∀ timestamp rc, st ≠ .sendNextMsg timestamp rc) : written effs' = [] := by
  have hw := Client.unwritten_composed S.handler
  cases turn_of_step hst with
  | sendNextMsg timestamp rc => exact absurd rfl (hs timestamp rc)
  | @message now timestamp buf n x hn hx =>
    rw [written_append, (c.quiet_record_effects timestamp _).2, hw.handleResponseMessage hx]
    rfl
  | _ => rfl

/-- the queue takes what was sent and not written -/
theorem outq_length (h : S.run steps = some (c, effs)) (hst : S.step c st = some (c', effs')) :
    c'.outq.length + (written effs').length = c.outq.length + (enqueued effs').length := by
  have h1 := congrArg List.length (run_queued h).order
  have h2 := congrArg List.length (run_queued (run_concat h hst)).order
  rw [← List.append_assoc, enqueued_append _ effs', written_append _ effs'] at h2
  simp only [List.length_append, List.length_map] at h1 h2
  omega

/-- an answer adds a subscription at most in the place of one -/
theorem advance_le (s : ClientState) (wantUdp : Bool) (answer : Option Bool) :
    (s.advance wantUdp answer).2.length +
        (if (s.advance wantUdp answer).1 = .requestTcpSrc then 1 else 0) ≤
      if s = .requestTcpSrc then 1 else 0 := by
  cases answer with
  | none => exact Nat.le_of_eq (Nat.zero_add _)
  | some ok =>
    cases s with
    | requestTcpSrc =>
      cases h : ok && wantUdp <;> simp [ClientState.advance, h]
    | _ => simp [ClientState.advance]

theorem subscribing_other (h : S.run steps = some (c, effs)) (hst : S.step c st = some (c', effs'))
    (hs : ∀ timestamp rc, st ≠ .sendNextMsg timestamp rc) : c'.subscribing ≤ c.subscribing := by
  have hlen := outq_length h hst
  rw [written_other hst hs, List.length_nil, Nat.add_zero] at hlen
  obtain ⟨-, hstate, hsub⟩ := step_subscription hst S.cfg (run_phase h).subscribing
  dsimp only at hstate hsub
  have henq : (enqueued effs').length = (c.state.advance S.cfg.wantUdp st.answer).2.length := by
    have hall : (S.version.subscriptions effs').length = (enqueued effs').length := by
      refine List.filterMap_length_eq_length.mpr fun msg hm => ?_
      obtain ⟨context, rfl | rfl⟩ := subscribes_other hst hs msg hm
      · rw [(S.version.subscription_addAll context).1]
        rfl
      · rw [(S.version.subscription_addAll context).2]
        rfl
    rw [← hall, hsub, List.length_map]
  have hle := advance_le c.state S.cfg.wantUdp st.answer
  unfold Client.subscribing
  rw [hstate, hlen, henq]
  omega

theorem subscribing_step (h : S.run steps = some (c, effs)) (hst : S.step c st = some (c', effs')) :
    c'.subscribing ≤ c.subscribing := by
  by_cases hsend : ∃ timestamp rc, st = .sendNextMsg timestamp rc
  · obtain ⟨timestamp, rc, rfl⟩ := hsend
    have hlen := outq_length h hst
    have hx := (Client.sends_sendNextMsg (v := S.version) (run_numbered h).live timestamp rc
      (Option.some.inj hst)).1
    have hle : (enqueued effs').length ≤ (written effs').length := hx.length_le
    unfold Client.subscribing
    rw [state_of_send hst]
    omega
  · exact subscribing_other h hst fun timestamp rc he => hsend ⟨timestamp, rc, he⟩

/-- **At most two requests are in the queue, and with the first subscription in it at most one.** -/
theorem subscribing_le (h : S.run steps = some (c, effs)) : c.subscribing ≤ 2 := by
  refine exec_inv (P := fun _ c _ => c.subscribing ≤ 2) ?_ ?_ h
  · obtain ⟨_, -, hsub⟩ := start_subscribed S
    obtain ⟨msg, he, -⟩ := hsub.effects
    have horder := congrArg List.length (start_queued S).order
    rw [show S.prologue = [.enqueue msg] from he] at horder
    have hlen : 1 = S.start.outq.length := by
      rw [List.length_append, List.length_map] at horder
      exact horder.trans (Nat.zero_add _)
    unfold Client.subscribing
    rw [← hlen]
    split <;> simp
  · intro steps c1 e1 st c2 e2 hx hP hst
    exact Nat.le_trans (subscribing_step hx hst) hP

theorem Reached.subscribing_le (h : S.Reached c) : c.subscribing ≤ 2 := by
  obtain ⟨_, _, h, -⟩ := h
  exact Session.subscribing_le h

/-! ## descriptions -/

/-- the step asks for something about `k` -/
def AsksFor (S : Session) (type : MsgType) (k : UInt64) (c : Client) (st : Step) : Prop :=
  ∃ c' effs, S.step c st = some (c', effs) ∧ 0 < S.requestsFor type k effs

theorem asksFor_of_mem {type : MsgType} (hst : S.step c st = some (c', effs'))
    (h : ∃ msg ∈ enqueued effs', hdrType (Mem.ofList msg) = type ∧
      S.version.srcrefIn (Mem.ofList msg) = k) : S.AsksFor type k c st := by
  obtain ⟨msg, hm, ht, hk⟩ := h
  refine ⟨c', effs', hst, List.countP_pos_iff.mpr ⟨msg, hm, ?_⟩⟩
  rw [ht, hk, beq_self_eq_true, beq_self_eq_true]
  rfl

/-- the announcements of smaller references -/
def addsBelow (S : Session) (k : UInt64) (steps : List Step) : Nat :=
  steps.countP fun st => (st.input S.handler).addsBelow k

theorem addsBelow_append (S : Session) (k : UInt64) (steps steps' : List Step) :
    S.addsBelow k (steps ++ steps') = S.addsBelow k steps + S.addsBelow k steps' :=
  List.countP_append

/-- only an announced source is new among those that wait -/
theorem added_of_waited {i : Input} (hw : Waited c c' i) (x : UInt64)
    (hx : c'.mapWaitingForDesc[x]?.isSome) :
    c.mapWaitingForDesc[x]?.isSome ∨ ∃ now prov, i = .added now x prov := by
  cases ha : i.adds x with
  | false => exact Or.inl (waits_of_waited hw ha hx)
  | true =>
    cases i with
    | added now r prov =>
      obtain rfl : r = x := beq_iff_eq.mp ha
      exact Or.inr ⟨now, prov, rfl⟩
    | _ => cases ha

/-- so a step that sends nothing puts only announced sources in front of `k` -/
theorem upTo_waited (hw : Waited c c' (st.input S.handler)) (hk : c.mapWaitingForDesc[k]?.isSome) :
    upTo c'.mapWaitingForDesc k ≤ upTo c.mapWaitingForDesc k + S.addsBelow k [st] := by
  unfold addsBelow
  rw [List.countP_singleton]
  generalize st.input S.handler = i at hw ⊢
  cases hi : i.addsBelow k with
  | true =>
    cases i with
    | added now r prov =>
      rw [if_pos rfl]
      refine upTo_le [r] fun x _ hx => (added_of_waited hw x hx).imp_right fun hex => ?_
      obtain ⟨_, _, he⟩ := hex
      exact List.mem_singleton.mpr (Input.added.inj he).2.1.symm
    | _ => cases hi
  | false =>
    refine upTo_le [] fun x hle hx => Or.inl ?_
    rcases added_of_waited hw x hx with hx | ⟨now, prov, rfl⟩
    · exact hx
    · -- only `k` itself, which waits already
      obtain rfl := UInt64.le_antisymm hle (UInt64.not_lt.mp (of_decide_eq_false hi))
      exact hk

/-- a source goes on waiting until a message settles it -/
theorem waits_waited (hw : Waited c c' (st.input S.handler)) (hk : c.mapWaitingForDesc[k]?.isSome)
    (hn : ¬ (st.input S.handler).settles k) : c'.mapWaitingForDesc[k]?.isSome := by
  rw [hw.desc k]
  generalize st.input S.handler = i at hn ⊢
  unfold Sources.waitsDesc
  cases i with
  | added now r prov =>
    dsimp only
    split
    · rw [Option.isSome_or, hk, Bool.or_true]
    · exact hk
  | message r e =>
    dsimp only
    rw [if_neg fun he => hn ⟨he.1.symm, he.2.2⟩]
    exact hk
  | _ => exact hk

/-- a call of `sendNextMsg` asks about `k` or takes a turn in front of it -/
theorem desc_turn_send (h : S.run steps = some (c, effs)) (hpos : Positive steps)
    {timestamp : UInt32} {rc : Int} (hst : S.step c (.sendNextMsg timestamp rc) = some (c', effs'))
    (hk : c.mapWaitingForDesc[k]?.isSome) : S.AsksFor .getSrcDesc k c (.sendNextMsg timestamp rc) ∨
      c'.mapWaitingForDesc[k]?.isSome ∧
        c'.subscribing + upTo c'.mapWaitingForDesc k + 1 ≤
          c.subscribing + upTo c.mapWaitingForDesc k := by
  have hl := (run_numbered h).live
  have hx := Option.some.inj hst
  obtain ⟨p, hp⟩ := Option.isSome_iff_exists.mp hk
  have hsends := (Client.sends_sendNextMsg hl timestamp rc hx).1
  rcases desc_of_sends (session_life h).1 (run_pending h hpos) hsends hp with hd' | hasked
  · right
    have hk' : c'.mapWaitingForDesc[k]?.isSome := Option.isSome_iff_exists.mpr ⟨p, hd'⟩
    refine ⟨hk', ?_⟩
    unfold Client.subscribing
    rw [state_of_send hst]
    cases ho : c.outq with
    | cons qm outq =>
      obtain ⟨rfl, -⟩ := Prod.mk.inj ((Client.turn_first ho timestamp rc).symm.trans hx)
      rw [List.length_cons]
      dsimp only
      omega
    | nil =>
      obtain ⟨k', p', rest, hd⟩ := exists_head hk
      have hturn := Client.turn_desc (v := S.version) hl ho hd timestamp rc
      rw [show c.sendNextMsg S.version.handler timestamp rc = (c', effs') from hx] at hturn
      obtain ⟨ho', he, -⟩ := hturn
      have hup := upTo_erase_head hd (head_le hd hk)
      rw [ho', he]
      omega
  · exact Or.inl (asksFor_of_mem hst hasked)

theorem desc_turn (h : S.Reached c) (hst : S.step c st = some (c', effs'))
    (hk : c.mapWaitingForDesc[k]?.isSome) :
    (S.AsksFor .getSrcDesc k c st ∨ (st.input S.handler).settles k) ∨
      c'.mapWaitingForDesc[k]?.isSome ∧
        c'.subscribing + upTo c'.mapWaitingForDesc k + sendsIn [st] ≤
          c.subscribing + upTo c.mapWaitingForDesc k + S.addsBelow k [st] := by
  obtain ⟨steps, effs, h, hpos⟩ := h
  by_cases hsend : ∃ timestamp rc, st = .sendNextMsg timestamp rc
  · obtain ⟨timestamp, rc, rfl⟩ := hsend
    exact (desc_turn_send h hpos hst hk).imp_left Or.inl
  · have hs : ∀ timestamp rc, st ≠ .sendNextMsg timestamp rc :=
      fun timestamp rc he => hsend ⟨timestamp, rc, he⟩
    have hw := step_waited (session_life h).1 hst hs
    by_cases hset : (st.input S.handler).settles k
    · exact Or.inl (Or.inr hset)
    · have h1 := subscribing_other h hst hs
      have h2 := upTo_waited hw hk
      have h0 := sendsIn_other hs
      exact Or.inr ⟨waits_waited hw hk hset, by omega⟩

/-- **Only announcements of smaller references put off the request for a description.** -/
theorem desc_served (h : S.Reached c) (hk : c.mapWaitingForDesc[k]?.isSome)
    (hx : exec S.step c more = some (c', effs')) (hpos : Positive more)
    (hn : 2 + upTo c.mapWaitingForDesc k + S.addsBelow k more ≤ sendsIn more) :
    Sometime S.step c more fun _ c1 st =>
      S.AsksFor .getSrcDesc k c1 st ∨ (st.input S.handler).settles k := by
  have hle := h.subscribing_le
  refine exec_served (P := fun c => S.Reached c ∧ c.mapWaitingForDesc[k]?.isSome)
    (m := fun c => c.subscribing + upTo c.mapWaitingForDesc k) sendsIn_append
    (S.addsBelow_append k) ?_ ?_ ⟨h, hk⟩ (positive_iff.mp hpos) hx (by omega)
  · intro c1 hP
    exact Nat.lt_of_lt_of_le (upTo_pos hP.2) (Nat.le_add_left _ _)
  · intro c1 st c2 e2 hP hQ hst
    exact (desc_turn hP.1 hst hP.2).imp_right fun hw => ⟨⟨hP.1.step hst hQ, hw.1⟩, hw.2⟩

/-! ## counts -/

/-- the announcements -/
def addsIn (S : Session) (steps : List Step) : Nat :=
  steps.countP fun st => (st.input S.handler).isAdded

theorem addsIn_append (S : Session) (steps steps' : List Step) :
    S.addsIn (steps ++ steps') = S.addsIn steps + S.addsIn steps' := List.countP_append

/-- the counts of `p` are wanted, and it waits under `k` to be asked for them -/
structure WaitsForCounts (c : Client) (k : UInt64) (p : Ptr) : Prop where
  waits : c.mapWaitingForCount[k]? = some p
  found : c.map[k]? = some p
  wanted : c.Wanted p

/-- a step that neither sends nor sweeps leaves those alone that wait for their counts -/
theorem count_other (hc : c.sources.Coherent) (hst : S.step c st = some (c', effs'))
    (hs : ∀ timestamp rc, st ≠ .sendNextMsg timestamp rc)
    (hu : st.sweep = none) : c'.mapWaitingForCount = c.mapWaitingForCount := by
  cases turn_of_step hst with
  | nothing hn => rfl
  | message hn hx => exact (Client.handleResponseMessage_waiting hc hx).1
  | updateWaitForCountsQueue now => cases hu
  | removeOldSources now => rfl
  | sendNextMsg timestamp rc => exact absurd rfl (hs timestamp rc)

/-- one more waits for a description if one is announced -/
theorem size_waited (hw : Waited c c' (st.input S.handler)) :
    c'.mapWaitingForDesc.size ≤ c.mapWaitingForDesc.size + S.addsIn [st] := by
  unfold addsIn
  rw [List.countP_singleton]
  generalize st.input S.handler = i at hw ⊢
  cases i with
  | added now r prov =>
    refine size_le [r] fun x hx => (added_of_waited hw x hx).imp_right fun hex => ?_
    obtain ⟨_, _, he⟩ := hex
    exact List.mem_singleton.mpr (Input.added.inj he).2.1.symm
  | _ => exact size_le [] fun x hx => Or.inl (waits_of_waited hw rfl hx)

/-- the counts of a source are wanted until they arrive or it is removed -/
theorem wanted_step (hc : c.sources.Coherent) (hst : S.step c st = some (c', effs')) {p : Ptr}
    (hm : c.map[k]? = some p) (hw : c.Wanted p) (hn : ¬ (st.input S.handler).ends k) :
    c'.map[k]? = some p ∧ c'.Wanted p := by
  have hs := step_sources hst
  obtain ⟨h0, hr⟩ := hw
  have hkey : ∀ {e}, c.sources.Handles (st.input S.handler) p e →
      st.input S.handler = .message k e := by
    intro e hh
    obtain ⟨r, hi, hr⟩ := hh
    obtain rfl : r = k := (hc.srcRef hr).symm.trans (hc.srcRef hm)
    exact hi
  have hnr : ¬ c.sources.Removes (st.input S.handler) p := by
    intro hr
    obtain ⟨now, hh⟩ := hr
    exact hn (hkey hh ▸ rfl)
  refine ⟨Sources.map_keeps hs hm h0, (Sources.tsRemoved_step hc hs p hnr).trans h0, ?_⟩
  have ht := Sources.touch_of_step hs p
  show (c'.sources.heap p).requestedCount = true
  generalize c'.sources.heap p = t at ht ⊢
  generalize callsOf p _ = calls at ht
  cases ht with
  | alloc _ hp => exact absurd (hc.lt_next hm) (by rw [hp]; exact Nat.lt_irrefl _)
  | mark => rfl
  | counted hh => exact absurd rfl (hkey hh ▸ hn)
  | _ => exact hr

theorem count_turn_send (h : S.run steps = some (c, effs)) (hpos : Positive steps)
    {timestamp : UInt32} {rc : Int} (hst : S.step c (.sendNextMsg timestamp rc) = some (c', effs'))
    {p : Ptr} (hw : WaitsForCounts c k p) : S.AsksFor .querySrc k c (.sendNextMsg timestamp rc) ∨
      WaitsForCounts c' k p ∧
        c'.subscribing + c'.mapWaitingForDesc.size + upTo c'.mapWaitingForCount k + 1 ≤
          c.subscribing + c.mapWaitingForDesc.size + upTo c.mapWaitingForCount k := by
  have hl := (run_numbered h).live
  have hx := Option.some.inj hst
  obtain ⟨hm, hw'⟩ := wanted_step (session_life h).1 hst hw.found hw.wanted id
  have hsends := (Client.sends_sendNextMsg hl timestamp rc hx).1
  rcases count_of_sends (run_pending h hpos) hsends hw.waits hw.found hw.wanted.1 hw.wanted.2 with
    hn' | hasked
  · refine Or.inr ⟨⟨hn', hm, hw'⟩, ?_⟩
    unfold Client.subscribing
    rw [state_of_send hst]
    cases ho : c.outq with
    | cons qm outq =>
      obtain ⟨rfl, -⟩ := Prod.mk.inj ((Client.turn_first ho timestamp rc).symm.trans hx)
      rw [List.length_cons]
      dsimp only
      omega
    | nil =>
      cases hd : c.mapWaitingForDesc.toList with
      | cons kp rest =>
        have hturn := Client.turn_desc (v := S.version) hl ho hd timestamp rc
        rw [show c.sendNextMsg S.version.handler timestamp rc = (c', effs') from hx] at hturn
        obtain ⟨ho', he, hne⟩ := hturn
        have hsize := size_erase_head hd
        rw [ho', he, hne]
        omega
      | nil =>
        have hk : c.mapWaitingForCount[k]?.isSome := Option.isSome_iff_exists.mpr ⟨p, hw.waits⟩
        obtain ⟨k', p', rest, hn⟩ := exists_head hk
        have hturn := Client.turn_count (v := S.version) hl ho hd hn timestamp rc
        rw [show c.sendNextMsg S.version.handler timestamp rc = (c', effs') from hx] at hturn
        obtain ⟨ho', he, hne⟩ := hturn
        have hup := upTo_erase_head hn (head_le hn hk)
        rw [ho', he, hne]
        omega
  · exact Or.inl (asksFor_of_mem hst hasked)

theorem count_turn (h : S.Reached c) (hst : S.step c st = some (c', effs'))
    (hu : st.sweep = none) {p : Ptr} (hw : WaitsForCounts c k p) :
    (S.AsksFor .querySrc k c st ∨ (st.input S.handler).ends k) ∨
      WaitsForCounts c' k p ∧
        c'.subscribing + c'.mapWaitingForDesc.size + upTo c'.mapWaitingForCount k + sendsIn [st] ≤
          c.subscribing + c.mapWaitingForDesc.size + upTo c.mapWaitingForCount k +
            S.addsIn [st] := by
  obtain ⟨steps, effs, h, hpos⟩ := h
  by_cases hsend : ∃ timestamp rc, st = .sendNextMsg timestamp rc
  · obtain ⟨timestamp, rc, rfl⟩ := hsend
    exact (count_turn_send h hpos hst hw).imp_left Or.inl
  · have hs : ∀ timestamp rc, st ≠ .sendNextMsg timestamp rc :=
      fun timestamp rc he => hsend ⟨timestamp, rc, he⟩
    have hc := (session_life h).1
    by_cases hend : (st.input S.handler).ends k
    · exact Or.inl (Or.inr hend)
    · obtain ⟨hm, hw'⟩ := wanted_step hc hst hw.found hw.wanted hend
      have hn := count_other hc hst hs hu
      have h1 := subscribing_other h hst hs
      have h2 := size_waited (step_waited hc hst hs)
      have h0 := sendsIn_other hs
      exact Or.inr ⟨⟨hn ▸ hw.waits, hm, hw'⟩, by rw [hn]; omega⟩

/-- **Between two sweeps only announcements put off the request for counts.** -/
theorem count_served (h : S.Reached c) {p : Ptr} (hw : WaitsForCounts c k p)
    (hx : exec S.step c more = some (c', effs')) (hpos : Positive more)
    (hu : more.filterMap Step.sweep = [])
    (hn : 2 + c.mapWaitingForDesc.size + upTo c.mapWaitingForCount k + S.addsIn more ≤
      sendsIn more) :
    Sometime S.step c more fun _ c1 st =>
      S.AsksFor .querySrc k c1 st ∨ (st.input S.handler).ends k := by
  have hle := h.subscribing_le
  refine exec_served (P := fun c => S.Reached c ∧ WaitsForCounts c k p)
    (Q := fun st => (∀ t, st.reading = some t → 0 < t) ∧ st.sweep = none)
    (m := fun c => c.subscribing + c.mapWaitingForDesc.size + upTo c.mapWaitingForCount k)
    sendsIn_append S.addsIn_append ?_ ?_ ⟨h, hw⟩ ?_ hx (by omega)
  · intro c1 hP
    have hk : c1.mapWaitingForCount[k]?.isSome := Option.isSome_iff_exists.mpr ⟨p, hP.2.waits⟩
    exact Nat.lt_of_lt_of_le (upTo_pos hk) (Nat.le_add_left _ _)
  · intro c1 st c2 e2 hP hQ hst
    exact (count_turn hP.1 hst hQ.2 hP.2).imp_right fun hw => ⟨⟨hP.1.step hst hQ.1, hw.1⟩, hw.2⟩
  · intro st hst
    exact ⟨positive_iff.mp hpos st hst, List.filterMap_eq_nil_iff.mp hu st hst⟩

/-- source 7 waits for a description, 8 was described and waits for its counts -/
def bothWait : List Step :=
  [.readNextMessage 1 1 (structs3789.addedMsg 7 4) 28,
   .readNextMessage 1 1 (structs3789.addedMsg 8 4) 28,
   .readNextMessage 2 2 (structs3789.udpDescMsg 8 4 80 81) 248,
   .updateWaitForCountsQueue 20]

/-- a smaller reference comes in between -/
def overtaken : List Step :=
  [.sendNextMsg 21 24, .readNextMessage 21 21 (structs3789.addedMsg 3 4) 28, .sendNextMsg 21 24,
   .sendNextMsg 21 24, .sendNextMsg 21 24, .sendNextMsg 21 24]

theorem desc_served_overtaken : ∃ c effs, session3789.run bothWait = some (c, effs) ∧
    Sometime session3789.step c overtaken fun _ c1 st =>
      session3789.AsksFor .getSrcDesc 7 c1 st ∨ (st.input session3789.handler).settles 7 := by
  have hrun : (session3789.run bothWait).map (fun x => (x.1.mapWaitingForDesc[(7 : UInt64)]?.isSome,
      upTo x.1.mapWaitingForDesc 7, (exec session3789.step x.1 overtaken).isSome)) =
        some (true, 1, true) := by decide
  obtain ⟨⟨c, effs⟩, h, he⟩ := Option.map_eq_some_iff.mp hrun
  simp only [Prod.mk.injEq] at he
  obtain ⟨hk, hup, hx⟩ := he
  obtain ⟨⟨c', effs'⟩, hx⟩ := Option.isSome_iff_exists.mp hx
  have hadds : session3789.addsBelow 7 overtaken = 1 := by decide
  refine ⟨c, effs, h, desc_served ⟨_, _, h, by unfold Positive; decide⟩ hk hx
    (by unfold Positive; decide) ?_⟩
  rw [hup, hadds]
  decide

theorem count_served_overtaken : ∃ c effs, session3789.run bothWait = some (c, effs) ∧
    Sometime session3789.step c overtaken fun _ c1 st =>
      session3789.AsksFor .querySrc 8 c1 st ∨ (st.input session3789.handler).ends 8 := by
  have hrun : (session3789.run bothWait).map (fun x => (x.1.mapWaitingForCount[(8 : UInt64)]?,
      x.1.map[(8 : UInt64)]?, decide (x.1.Wanted 1), x.1.mapWaitingForDesc.size,
      upTo x.1.mapWaitingForCount 8, (exec session3789.step x.1 overtaken).isSome)) =
        some (some 1, some 1, true, 1, 1, true) := by decide
  obtain ⟨⟨c, effs⟩, h, he⟩ := Option.map_eq_some_iff.mp hrun
  simp only [Prod.mk.injEq] at he
  obtain ⟨hk, hm, hw, hsize, hup, hx⟩ := he
  obtain ⟨⟨c', effs'⟩, hx⟩ := Option.isSome_iff_exists.mp hx
  have hadds : session3789.addsIn overtaken = 1 := by decide
  refine ⟨c, effs, h, count_served ⟨_, _, h, by unfold Positive; decide⟩
    ⟨hk, hm, of_decide_eq_true hw⟩ hx (by unfold Positive; decide) rfl ?_⟩
  rw [hsize, hup, hadds]
  decide

end Session

end Ntstat
