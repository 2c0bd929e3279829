import Ntstat.Laws.Interval
import Ntstat.Laws.Drain
import Ntstat.Machine.Contract

/-!
# What the client asks of the kernel

* `desc_budget`    no more requests for the description of a source than the kernel announced it;
* `query_budget`   no more requests for its counts than there were sweeps;
* `query_rate`     so the loop asks for the counts of a source at most once in an interval.
-/

namespace Ntstat
open Memory Machine Std

/-- a SRC_ADDED for `k` -/
def Input.adds (k : UInt64) : Input → Bool
  | added _ r _ => r == k
  | _ => false

namespace Session
variable (S : Session)

/-- the requests of a type about `k` that were passed to `send` -/
def requestsFor (type : MsgType) (k : UInt64) (effs : List Effect) : Nat :=
  (enqueued effs).countP fun msg =>
    hdrType (Mem.ofList msg) == type && S.version.srcrefIn (Mem.ofList msg) == k

theorem requestsFor_append (type : MsgType) (k : UInt64) (e e' : List Effect) :
    S.requestsFor type k (e ++ e') = S.requestsFor type k e + S.requestsFor type k e' := by
  unfold requestsFor
  rw [enqueued_append, List.countP_append]

/-- the steps that handle a SRC_ADDED for `k` -/
def addsFor (k : UInt64) (steps : List Step) : Nat :=
  steps.countP fun st => (st.input S.handler).adds k

/-- one if something waits under `k` -/
def waiting (m : ExtTreeMap UInt64 Ptr) (k : UInt64) : Nat := if m[k]?.isSome then 1 else 0

variable {S} {steps : List Step} {c c' : Client} {effs effs' : List Effect} {st : Step}
  {k : UInt64}

theorem waiting_le_one (m : ExtTreeMap UInt64 Ptr) (k : UInt64) : waiting m k ≤ 1 := by
  unfold waiting
  split
  · exact Nat.le_refl 1
  · exact Nat.zero_le 1

/-- a key that is taken out of a map waited -/
theorem waiting_erase {m : ExtTreeMap UInt64 Ptr} {k' : UInt64} {p : Ptr} (h : m[k']? = some p)
    (k : UInt64) : waiting (m.erase k') k + (if k' = k then 1 else 0) = waiting m k := by
  unfold waiting
  rw [ExtTreeMap.getElem?_erase]
  by_cases he : k' = k
  · subst he
    simp [h]
  · simp [he]

/-- steps other than `sendNextMsg` only subscribe -/
theorem subscribes_other (hst : S.step c st = some (c', effs'))
    (hs : ∀ timestamp rc, st ≠ .sendNextMsg timestamp rc) :
    ∀ msg ∈ enqueued effs', Client.Subscribes S.handler msg := by
  intro msg hm
  cases turn_of_step hst with
  | sendNextMsg timestamp rc => exact absurd rfl (hs timestamp rc)
  | @message now timestamp buf n x hn hx =>
    rw [enqueued_append, (c.quiet_record_effects timestamp _).1, List.nil_append] at hm
    exact subscribes_of_handle hx (mem_enqueued.mp hm)
  | _ => cases hm

/-- so they ask for nothing about a source -/
theorem requestsFor_other (hst : S.step c st = some (c', effs'))
    (hs : ∀ timestamp rc, st ≠ .sendNextMsg timestamp rc) {type : MsgType}
    (ht : type ≠ .addAllSrcs) : S.requestsFor type k effs' = 0 := by
  refine List.countP_eq_zero.mpr fun msg hm => ?_
  rw [S.version.subscribes_type (subscribes_other hst hs msg hm)]
  simp [ht.symm]

/-! ## descriptions -/

/-- `sendNextMsg` asks about a source that waits, and takes it off the wait -/
theorem desc_of_send (hc : c.sources.Coherent) (hp : S.Pending c) {d n : ExtTreeMap UInt64 Ptr}
    {wr : List (List UInt8)} (hx : c.Sends S.version d n (enqueued effs') wr) :
    waiting d k + S.requestsFor .getSrcDesc k effs' = waiting c.mapWaitingForDesc k := by
  unfold requestsFor
  generalize enqueued effs' = enq at hx
  cases hx with
  | @desc k' p _ context providerId _ hk' =>
    have hw := Client.head_some hk'
    obtain ⟨h1, -, -⟩ := hp.desc k' p hw
    have hsrc : (c.heap p).srcRef = k' := hc.srcRef h1
    rw [← waiting_erase hw k, hsrc, List.countP_singleton, S.version.hdrType_srcDesc,
      S.version.srcrefIn_srcDesc _ _ (hp.fits k' p h1)]
    simp
  | @count _ _ _ context =>
    rw [List.countP_singleton, S.version.hdrType_querySrc]
    simp
  | _ => simp

/-- only a SRC_ADDED for `k` makes it wait -/
theorem waits_of_waited {i : Input} (hw : Waited c c' i) (ha : i.adds k = false)
    (hs : c'.mapWaitingForDesc[k]?.isSome) : c.mapWaitingForDesc[k]?.isSome := by
  rw [hw.desc] at hs
  unfold Sources.waitsDesc at hs
  cases i with
  | added now r prov =>
    have hr : k ≠ r := fun he => by simp [Input.adds, he] at ha
    dsimp only at hs
    rwa [if_neg hr] at hs
  | message r e =>
    dsimp only at hs
    split at hs
    · cases hs
    · exact hs
  | _ => exact hs

theorem waiting_waited (hw : Waited c c' (st.input S.handler)) :
    waiting c'.mapWaitingForDesc k ≤ waiting c.mapWaitingForDesc k + S.addsFor k [st] := by
  have hle := waiting_le_one c'.mapWaitingForDesc k
  unfold addsFor
  rw [List.countP_singleton]
  cases ha : (st.input S.handler).adds k with
  | true =>
    rw [if_pos rfl]
    omega
  | false =>
    rw [if_neg Bool.false_ne_true, Nat.add_zero]
    unfold waiting
    split
    · next hs => rw [if_pos (waits_of_waited hw ha hs)]
    · exact Nat.zero_le _

theorem addsFor_append (k : UInt64) (steps steps' : List Step) :
    S.addsFor k (steps ++ steps') = S.addsFor k steps + S.addsFor k steps' := List.countP_append

/-- before the loop nothing is asked about a source, and nothing waits -/
theorem start_waiting (S : Session) (type : MsgType) (k : UInt64) (ht : type ≠ .addAllSrcs) :
    S.requestsFor type k S.prologue = 0 ∧ waiting S.start.mapWaitingForDesc k = 0 ∧
      waiting S.start.mapWaitingForCount k = 0 := by
  obtain ⟨_, _, _, ⟨_, _, _, _, _, _, he, -⟩, -⟩ := Client.live_resubscribed S.handler S.cfg S.fd
  have hstart : S.start = _ := he
  have hempty : waiting ∅ k = 0 := if_neg (by rw [ExtTreeMap.getElem?_empty]; decide)
  refine ⟨List.countP_eq_zero.mpr fun msg hm => ?_, ?_, ?_⟩
  · rw [S.version.subscribes_type (prologue_subscribes S (mem_enqueued.mp hm))]
    simp [ht.symm]
  · rw [hstart]
    exact hempty
  · rw [hstart]
    exact hempty

theorem desc_step (h : S.run steps = some (c, effs)) (hpos : Positive steps)
    (hst : S.step c st = some (c', effs')) (k : UInt64) :
    waiting c'.mapWaitingForDesc k + S.requestsFor .getSrcDesc k effs' ≤
      waiting c.mapWaitingForDesc k + S.addsFor k [st] := by
  have hc := (session_life h).1
  by_cases hsend : ∃ timestamp rc, st = .sendNextMsg timestamp rc
  · obtain ⟨timestamp, rc, rfl⟩ := hsend
    have hx := (Client.sends_sendNextMsg (run_numbered h).live timestamp rc
      (Option.some.inj hst)).1
    rw [desc_of_send hc (run_pending h hpos) hx]
    exact Nat.le_add_right _ _
  · have hs : ∀ timestamp rc, st ≠ .sendNextMsg timestamp rc :=
      fun timestamp rc he => hsend ⟨timestamp, rc, he⟩
    rw [requestsFor_other hst hs (by decide), Nat.add_zero]
    exact waiting_waited (step_waited hc hst hs)

/-- **No more requests for the description of a source than the kernel announced it.** -/
theorem desc_budget (h : S.run steps = some (c, effs)) (hpos : Positive steps) (k : UInt64) :
    waiting c.mapWaitingForDesc k + S.requestsFor .getSrcDesc k (S.prologue ++ effs) ≤
      S.addsFor k steps := by
  obtain ⟨hp, hd, -⟩ := start_waiting S .getSrcDesc k (by decide)
  rw [requestsFor_append, hp, Nat.zero_add, ← Nat.zero_add (S.addsFor k steps), ← hd]
  refine exec_account (m := fun c : Client => waiting c.mapWaitingForDesc k)
    (S.requestsFor_append .getSrcDesc k) (addsFor_append k) ?_ (positive_iff.mp hpos) h
  intro pre c1 e1 st c2 e2 hQ hx hst
  exact desc_step hx (positive_concat (positive_iff.mpr hQ)).1 hst k

/-! ## counts -/

/-- the sweeps among the steps -/
def sweepsIn (steps : List Step) : Nat := (steps.filterMap Step.sweep).length

theorem sweepsIn_append (steps steps' : List Step) :
    sweepsIn (steps ++ steps') = sweepsIn steps + sweepsIn steps' := by
  unfold sweepsIn
  rw [List.filterMap_append, List.length_append]

/-- `sendNextMsg` asks for counts at most once for each time that a source waits for them -/
theorem count_of_send (hp : S.Pending c) {d n : ExtTreeMap UInt64 Ptr} {wr : List (List UInt8)}
    (hx : c.Sends S.version d n (enqueued effs') wr) :
    waiting n k + S.requestsFor .querySrc k effs' ≤ waiting c.mapWaitingForCount k := by
  unfold requestsFor
  generalize enqueued effs' = enq at hx
  cases hx with
  | @count k' p _ context ho hd hk' ht hr =>
    have hw := Client.head_some hk'
    obtain ⟨hlt, hsrc⟩ := hp.count k' p hw
    have hmap : c.map[(c.heap p).srcRef]? = some p := hp.kept.found p hlt ht
    rw [← waiting_erase hw k, List.countP_singleton, S.version.hdrType_querySrc,
      S.version.srcrefIn_querySrc _ (hp.fits _ p hmap), hsrc]
    simp
  | @stale k' p _ hk' hn =>
    rw [← waiting_erase (Client.head_some hk') k, List.countP_nil]
    omega
  | @desc _ _ _ context providerId =>
    rw [List.countP_singleton, S.version.hdrType_srcDesc]
    simp
  | _ => simp

/-- only a sweep makes a source wait for its counts -/
theorem waiting_swept (hc : c.sources.Coherent) (hst : S.step c st = some (c', effs'))
    (hs : ∀ timestamp rc, st ≠ .sendNextMsg timestamp rc) :
    waiting c'.mapWaitingForCount k ≤ waiting c.mapWaitingForCount k + sweepsIn [st] := by
  cases turn_of_step hst with
  | sendNextMsg timestamp rc => exact absurd rfl (hs timestamp rc)
  | @message now timestamp buf n x hn hx =>
    rw [(Client.handleResponseMessage_waiting hc hx).1]
    exact Nat.le_add_right _ _
  | updateWaitForCountsQueue now =>
    have hle := waiting_le_one (c.updateWaitForCountsQueue now).mapWaitingForCount k
    have hone : sweepsIn [.updateWaitForCountsQueue now] = 1 := rfl
    omega
  | _ => exact Nat.le_add_right _ _

theorem count_step (h : S.run steps = some (c, effs)) (hpos : Positive steps)
    (hst : S.step c st = some (c', effs')) (k : UInt64) :
    waiting c'.mapWaitingForCount k + S.requestsFor .querySrc k effs' ≤
      waiting c.mapWaitingForCount k + sweepsIn [st] := by
  by_cases hsend : ∃ timestamp rc, st = .sendNextMsg timestamp rc
  · obtain ⟨timestamp, rc, rfl⟩ := hsend
    have hx := (Client.sends_sendNextMsg (run_numbered h).live timestamp rc
      (Option.some.inj hst)).1
    exact Nat.le_trans (count_of_send (run_pending h hpos) hx) (Nat.le_add_right _ _)
  · have hs : ∀ timestamp rc, st ≠ .sendNextMsg timestamp rc :=
      fun timestamp rc he => hsend ⟨timestamp, rc, he⟩
    rw [requestsFor_other hst hs (by decide), Nat.add_zero]
    exact waiting_swept (session_life h).1 hst hs

/-- **No more requests for the counts of a source than there were sweeps.** -/
theorem query_budget (h : S.run steps = some (c, effs)) (hpos : Positive steps) (k : UInt64) :
    waiting c.mapWaitingForCount k + S.requestsFor .querySrc k (S.prologue ++ effs) ≤
      sweepsIn steps := by
  obtain ⟨hp, -, hn⟩ := start_waiting S .querySrc k (by decide)
  rw [requestsFor_append, hp, Nat.zero_add, ← Nat.zero_add (sweepsIn steps), ← hn]
  refine exec_account (m := fun c : Client => waiting c.mapWaitingForCount k)
    (S.requestsFor_append .querySrc k) sweepsIn_append ?_ (positive_iff.mp hpos) h
  intro pre c1 e1 st c2 e2 hQ hx hst
  exact count_step hx (positive_concat (positive_iff.mpr hQ)).1 hst k

/-! ## the loop -/

/-- the last sweep of the loop is at least as many intervals after its first timer as it swept -/
theorem sweeps_time {interval : UInt32} (t : Timers) (rounds : List Round) :
    t.tLastUpdate + ((sweepsIn (t.steps interval rounds) * interval.toNat : Nat) : Int) ≤
      (t.ticks interval rounds).tLastUpdate := by
  induction rounds generalizing t with
  | nil =>
    have h0 : sweepsIn (t.steps interval []) = 0 := rfl
    rw [h0, Nat.zero_mul]
    exact Int.le_of_eq (Int.add_zero _)
  | cons r rounds ih =>
    have hcons : sweepsIn (t.steps interval (r :: rounds)) =
        (if t.UpdateDue interval r then 1 else 0) +
          sweepsIn ((t.tick interval r).steps interval rounds) := by
      show (t.sweeps interval (r :: rounds)).length = _
      rw [Timers.sweeps_cons, List.length_append]
      split <;> rfl
    refine Int.le_trans ?_ (ih (t.tick interval r))
    rw [hcons, Nat.add_mul]
    by_cases hu : t.UpdateDue interval r
    · have htick : (t.tick interval r).tLastUpdate = r.now := if_pos hu
      have hnow : t.tLastUpdate + interval.toNat ≤ r.now := le_sub_iff_add_le'.mp hu.2
      rw [if_pos hu, htick, Nat.one_mul, Int.natCast_add, ← Int.add_assoc]
      exact Int.add_le_add_right hnow _
    · have htick : (t.tick interval r).tLastUpdate = t.tLastUpdate := if_neg hu
      rw [if_neg hu, htick, Nat.zero_mul, Nat.zero_add]

/-- **The loop asks for the counts of a source at most once in an interval.** -/
theorem query_rate {t t' : Timers} {rounds : List Round}
    (h : exec (round S.handler) (t, S.start) rounds = some ((t', c), effs))
    (hpos : Positive (t.steps S.cfg.interval rounds)) (k : UInt64) :
    t.tLastUpdate +
        ((S.requestsFor .querySrc k (S.prologue ++ effs) * S.cfg.interval.toNat : Nat) : Int) ≤
      t'.tLastUpdate := by
  rw [rounds_eq, start_interval] at h
  obtain ⟨x, hrun, hx⟩ := Option.map_eq_some_iff.mp h
  obtain ⟨hx1, rfl⟩ := Prod.mk.inj hx
  obtain ⟨rfl, -⟩ := Prod.mk.inj hx1
  have hbudget := query_budget hrun hpos k
  refine Int.le_trans ?_ (sweeps_time t rounds)
  exact Int.add_le_add_left (Int.ofNat_le.mpr (Nat.mul_le_mul_right S.cfg.interval.toNat
    (Nat.le_trans (Nat.le_add_left _ _) hbudget))) _

/-- source 7 is added twice before it is described, and its counts arrive -/
def askedTwice : List Round :=
  [⟨1, 1, 1, 24, [⟨1, 1, structs3789.addedMsg 7 4, 28⟩]⟩,
   ⟨1, 1, 1, 24, [⟨1, 1, structs3789.addedMsg 7 4, 28⟩]⟩,
   ⟨1, 1, 1, 24, [⟨1, 1, structs3789.udpDescMsg 7 4 80 81, 248⟩]⟩,
   ⟨31, 31, 31, 24, [⟨31, 31, structs3789.countsMsg 7 5, 136⟩]⟩]

theorem desc_budget_askedTwice : ∃ c effs,
    session3789.run ((⟨1, 1⟩ : Timers).steps 30 askedTwice) = some (c, effs) ∧
    session3789.requestsFor .getSrcDesc 7 effs = 2 ∧
    waiting c.mapWaitingForDesc 7 +
        session3789.requestsFor .getSrcDesc 7 (session3789.prologue ++ effs) ≤
      session3789.addsFor 7 ((⟨1, 1⟩ : Timers).steps 30 askedTwice) := by
  have hrun : (session3789.run ((⟨1, 1⟩ : Timers).steps 30 askedTwice)).map (fun x =>
      session3789.requestsFor .getSrcDesc 7 x.2) = some 2 := by decide
  obtain ⟨⟨c, effs⟩, h, hn⟩ := Option.map_eq_some_iff.mp hrun
  exact ⟨c, effs, h, hn, desc_budget h (by unfold Positive; decide) 7⟩

theorem query_rate_askedTwice : ∃ t' c effs,
    exec (round session3789.handler) (⟨1, 1⟩, session3789.start) askedTwice =
      some ((t', c), effs) ∧
    session3789.requestsFor .querySrc 7 effs = 1 ∧
    1 + ((session3789.requestsFor .querySrc 7 (session3789.prologue ++ effs) * 30 : Nat) : Int) ≤
      t'.tLastUpdate := by
  have hrun : (exec (round session3789.handler) (⟨1, 1⟩, session3789.start) askedTwice).map
      (fun x => session3789.requestsFor .querySrc 7 x.2) = some 1 := by decide
  obtain ⟨⟨⟨t', c⟩, effs⟩, h, hn⟩ := Option.map_eq_some_iff.mp hrun
  exact ⟨t', c, effs, h, hn, query_rate h (by unfold Positive; decide) 7⟩

end Session

end Ntstat
