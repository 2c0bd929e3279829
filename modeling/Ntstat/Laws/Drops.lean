import Ntstat.Client.Traffic
import Ntstat.Laws.Announce

/-!
# Drop accounting

* `step_numDrops`   which step counts a drop: an ERROR message with ENOBUFS that is not shorter than
                    the client's own `nstat_msg_error`, in whatever state it arrives;
* `drops_iff`       the count is right in every state of a run exactly when no ENOBUFS message of
                    the run is shorter than that.
-/

namespace Ntstat
open Memory Machine

/-- the client's `nstat_msg_error` has the error where the headers have it, but more padding than
`pack(4)` leaves -/
theorem clientMsgError_layout :
    clientMsgError.offsetOf .error = 16 ∧ clientMsgError.sizeOf = 24 := by decide

theorem msgError_layout {v : KernelVersion} {s : CStruct MsgMember}
    (h : v.structs.msgError = some s) : s.offsetOf .error = 16 := by
  cases v <;> cases h <;> decide

namespace Client
variable {H : NTStatKernelStructHandler} {c : Client}

/-- the drops that a message counts as -/
def dropsOf (msg : Mem) (n : Nat) : UInt32 :=
  if hdrType msg = .error ∧ 24 ≤ n ∧ msgErrorOf msg = eNOBUFS then 1 else 0

theorem getAndLogError_numDrops (msg : Mem) (n : Nat) (ht : hdrType msg = .error) :
    (c.getAndLogError msg n).2.numDrops = c.numDrops + dropsOf msg n := by
  unfold getAndLogError dropsOf
  rw [clientMsgError_layout.2]
  dsimp only
  split
  · next hn => simp [show ¬ 24 ≤ n by omega]
  · next hn =>
    by_cases he : msgErrorOf msg = eNOBUFS <;> simp [ht, show 24 ≤ n by omega, he]

theorem send_numDrops (msg : List UInt8) : (c.send msg).1.numDrops = c.numDrops := by
  unfold send
  split <;> rfl

theorem takeRequest_numDrops (context : UInt64) :
    (c.takeRequest context).2.numDrops = c.numDrops := by
  unfold takeRequest
  split <;> rfl

theorem handleState_numDrops (msg : Mem) (n : Nat) (reqMsg : QMsg) :
    (c.handleState H msg n reqMsg).1.numDrops = c.numDrops + dropsOf msg n := by
  have he : (if hdrType msg = .error then c.getAndLogError msg n else (0, c)).2.numDrops
      = c.numDrops + dropsOf msg n := by
    split
    · next ht => exact getAndLogError_numDrops msg n ht
    · next ht => simp [dropsOf, ht]
  unfold handleState
  rw [← he]
  generalize (if hdrType msg = .error then c.getAndLogError msg n else (0, c)) = e
  dsimp only
  split
  · split <;> exact send_numDrops _
  · split
    · split
      · exact send_numDrops _
      · rfl
    · rfl
  · rfl
  · rfl

theorem handleSrcAdded_numDrops (now : Time) (r : UInt64) (prov : UInt32) :
    (c.handleSrcAdded now r prov).numDrops = c.numDrops := by
  unfold handleSrcAdded resetSource newSource
  dsimp only
  split
  · split <;> split <;> rfl
  · split <;> rfl

/-- **A message counts as a drop in every state alike.** -/
theorem handleResponseMessage_numDrops {now : Time} {msg : Mem} {n : Nat}
    {x : Int × Client × List Effect} (h : c.handleResponseMessage H now msg n = some x) :
    x.2.1.numDrops = c.numDrops + dropsOf msg n := by
  rw [← takeRequest_numDrops (c := c) (hdrContext msg)]
  unfold handleResponseMessage at h
  generalize c.takeRequest (hdrContext msg) = q at h ⊢
  have hz : hdrType msg ≠ .error → q.2.numDrops = q.2.numDrops + dropsOf msg n := fun ht => by
    simp [dropsOf, ht]
  dsimp only at h
  split at h
  · obtain rfl := Option.some.inj h
    exact handleState_numDrops msg n q.1
  · split at h
    · next ht =>
      obtain rfl := Option.some.inj h
      exact (handleSrcAdded_numDrops now _ _).trans (hz (by simp [ht]))
    · next ht =>
      obtain rfl := Option.some.inj h
      refine Eq.trans ?_ (hz (by simp [ht]))
      unfold handleSrcRemoved
      split <;> rfl
    · next ht =>
      obtain ⟨y, hy, rfl⟩ := Option.map_eq_some_iff.mp h
      refine Eq.trans ?_ (hz (by simp [ht]))
      unfold handleSrcDesc at hy
      split at hy
      · obtain rfl := Option.some.inj hy
        rfl
      · obtain ⟨⟨b, obj⟩, _, rfl⟩ := Option.map_eq_some_iff.mp hy
        cases b <;> rfl
    · next ht =>
      obtain rfl := Option.some.inj h
      refine Eq.trans ?_ (hz (by simp [ht]))
      unfold handleSrcCounts
      split <;> rfl
    · next ht =>
      obtain rfl := Option.some.inj h
      exact hz (by simp [ht])
    · next ht =>
      obtain rfl := Option.some.inj h
      exact getAndLogError_numDrops msg n ht
    · next ht =>
      obtain rfl := Option.some.inj h
      exact hz ht

end Client

/-- the drops that a step counts -/
def Step.dropsOf : Step → UInt32
  | readNextMessage _ _ buf n => if n ≤ 0 then 0 else Client.dropsOf buf n.toNat
  | _ => 0

theorem step_numDrops {H : NTStatKernelStructHandler} {c c' : Client} {st : Step}
    {effs : List Effect} (h : step H c st = some (c', effs)) :
    c'.numDrops = c.numDrops + st.dropsOf := by
  unfold Step.dropsOf
  cases turn_of_step h with
  | nothing hn => simp [hn]
  | message hn hx =>
    dsimp only
    rw [if_neg (Int.not_le.mpr hn)]
    exact Client.handleResponseMessage_numDrops hx
  | updateWaitForCountsQueue now =>
    obtain ⟨_, _, he⟩ := c.updateWaitForCountsQueue_changes now
    simp [he]
  | removeOldSources now => simp [Client.removeOldSources]
  | sendNextMsg timestamp rc =>
    obtain ⟨_, _, _, _, _, _, he⟩ := c.sendNextMsg_changes (H := H) timestamp rc
    simp [he]

namespace Session
variable {S : Session} {steps : List Step} {c : Client} {effs : List Effect}

/-- an ERROR message whose error field, at the place where the struct `s` has it, is ENOBUFS -/
def IsDrop (s : CStruct MsgMember) : Step → Bool
  | .readNextMessage _ _ buf n =>
    0 < n && hdrType buf == .error && u32 buf (s.offsetOf .error) == eNOBUFS
  | _ => false

/-- an incoming message shorter than the client's `nstat_msg_error` -/
def Short : Step → Bool
  | .readNextMessage _ _ _ n => n < 24
  | _ => false

theorem dropsOf_eq {s : CStruct MsgMember} (hs : S.version.structs.msgError = some s) (st : Step) :
    st.dropsOf = if IsDrop s st && !Short st then 1 else 0 := by
  cases st with
  | readNextMessage now timestamp buf n =>
    unfold Step.dropsOf Client.dropsOf IsDrop Short msgErrorOf
    rw [clientMsgError_layout.1, msgError_layout hs]
    dsimp only
    by_cases hn : n < 24
    · have h24 : ¬ 24 ≤ n.toNat := by omega
      simp [hn, h24]
    · have h24 : 24 ≤ n.toNat := by omega
      have h0 : ¬ n ≤ 0 := by omega
      have h1 : 0 < n := by omega
      by_cases ht : hdrType buf = .error <;> by_cases he : u32 buf 16 = eNOBUFS <;>
        simp [h0, h1, h24, hn, ht, he]
  | _ => rfl

theorem start_numDrops : S.start.numDrops = 0 := by
  have h0 : (Client.configured S.cfg).numDrops = 0 := by
    obtain ⟨_, _, _, he, -⟩ := Client.configured_changes S.cfg
    rw [he]
  unfold start Client.live Client.beginRun
  dsimp only
  split
  · exact (Client.send_numDrops _).trans h0
  · exact (Client.send_numDrops _).trans h0

/-- the count is right as long as no drop is short -/
theorem run_numDrops {s : CStruct MsgMember} (hs : S.version.structs.msgError = some s)
    (h : S.run steps = some (c, effs)) (hn : ∀ st ∈ steps, IsDrop s st → ¬ Short st) :
    c.numDrops = UInt32.ofNat (steps.countP (IsDrop s)) := by
  refine exec_inv (P := fun steps c _ => (∀ st ∈ steps, IsDrop s st → ¬ Short st) →
    c.numDrops = UInt32.ofNat (steps.countP (IsDrop s))) (fun _ => start_numDrops) ?_ h hn
  intro steps c1 e1 st c2 e2 _ hP hst hn
  rw [step_numDrops hst, hP fun st' h' => hn st' (List.mem_append_left _ h'), dropsOf_eq hs,
    List.countP_append, UInt32.ofNat_add]
  congr 1
  have hst' := hn st (by simp)
  cases hd : IsDrop s st <;> simp_all

/-- **The drops are counted right in every state of a run exactly when none of them is short.** -/
theorem drops_iff {s : CStruct MsgMember} (hs : S.version.structs.msgError = some s)
    (h : S.run steps = some (c, effs)) :
    (∀ pre post c1 e1, steps = pre ++ post → S.run pre = some (c1, e1) →
      c1.numDrops = UInt32.ofNat (pre.countP (IsDrop s))) ↔
      ∀ st ∈ steps, IsDrop s st → ¬ Short st := by
  constructor
  · refine exec_inv (P := fun steps _ _ => (∀ pre post c1 e1, steps = pre ++ post →
      S.run pre = some (c1, e1) → c1.numDrops = UInt32.ofNat (pre.countP (IsDrop s))) →
      ∀ st ∈ steps, IsDrop s st → ¬ Short st) (fun _ st hst => by cases hst) ?_ h
    intro steps c1 e1 st c2 e2 hx hP hst hall st' hm hd hshort
    rcases List.mem_append.mp hm with hm | hm
    · have hpre : ∀ pre post c3 e3, steps = pre ++ post → S.run pre = some (c3, e3) →
          c3.numDrops = UInt32.ofNat (pre.countP (IsDrop s)) := fun pre post c3 e3 he =>
        hall pre (post ++ [st]) c3 e3 (by rw [he, List.append_assoc])
      exact hP hpre st' hm hd hshort
    · obtain rfl := List.mem_singleton.mp hm
      have h1 := hall steps [st'] c1 e1 rfl hx
      have h2 := hall (steps ++ [st']) [] c2 (e1 ++ e2) (by simp) (run_concat hx hst)
      rw [step_numDrops hst, h1, dropsOf_eq hs, hd, hshort, List.countP_append,
        UInt32.ofNat_add] at h2
      simp [hd] at h2
  · rintro hn pre post c1 e1 rfl hp
    exact run_numDrops hs hp fun st hst => hn st (List.mem_append_left _ hst)

/-- an ERROR message with ENOBUFS -/
def dropMsg : Mem := (Mem.poke (fun _ => 0) 8 4 1).poke 16 4 eNOBUFS.toNat

/-- one ENOBUFS message, as long as kernel 2422 lays it out -/
def shortDrop : List Step := [.readNextMessage 1 1 dropMsg 20]

def session2422 : Session := { session3789 with version := .xnu2422 }

theorem shortDrop_not_counted :
    session2422.version.structs.msgError = some msgErrorPacked ∧ msgErrorPacked.sizeOf = 20 ∧
      ∃ c effs, session2422.run shortDrop = some (c, effs) ∧
        c.numDrops ≠ UInt32.ofNat (shortDrop.countP (IsDrop msgErrorPacked)) := by
  have h : (session2422.run shortDrop).map (fun x => x.1.numDrops) = some 0 := by decide
  obtain ⟨⟨c, effs⟩, hr, hd⟩ := Option.map_eq_some_iff.mp h
  refine ⟨rfl, by decide, c, effs, hr, fun he => ?_⟩
  rw [show shortDrop.countP (IsDrop msgErrorPacked) = 1 by decide] at he
  rw [show c.numDrops = 0 from hd] at he
  exact absurd he (by decide)

def session4570 : Session := { session3789 with version := .xnu4570 }

/-- an ERROR message with EINVAL -/
def invalidMsg : Mem := (Mem.poke (fun _ => 0) 8 4 1).poke 16 4 22

/-- two ENOBUFS messages, as long as kernel 4570 lays them out, and another error between them -/
def droppedTwice : List Step :=
  [.readNextMessage 1 1 dropMsg 24, .readNextMessage 2 2 invalidMsg 24,
   .readNextMessage 3 3 dropMsg 24]

theorem drops_droppedTwice : ∃ s c effs, session4570.version.structs.msgError = some s ∧
    session4570.run droppedTwice = some (c, effs) ∧ c.numDrops = 2 ∧
    (∀ st ∈ droppedTwice, IsDrop s st → ¬ Short st) ∧
    ∀ pre post c1 e1, droppedTwice = pre ++ post → session4570.run pre = some (c1, e1) →
      c1.numDrops = UInt32.ofNat (pre.countP (IsDrop s)) := by
  have hrun : (session4570.run droppedTwice).map (fun x => x.1.numDrops) = some 2 := by
    decide
  obtain ⟨⟨c, effs⟩, h, hd⟩ := Option.map_eq_some_iff.mp hrun
  have hfull : ∀ st ∈ droppedTwice, ¬ Short st := by decide
  exact ⟨_, c, effs, rfl, h, hd, fun st hst _ => hfull st hst,
    (drops_iff rfl h).mpr fun st hst _ => hfull st hst⟩

end Session

end Ntstat
