import Ntstat.Client.Traffic
import Ntstat.Machine.Exec

/-!
# The loop of `run`

`round` is one round of `while (_keepRunning)`: the two timed sweeps, `sendNextMsg`, and the
messages that wait.

* `Timers.steps`   the steps of some rounds, which the readings of the clock decide;
* `rounds_eq`      the loop is the run of these steps.
-/

namespace Ntstat
open Memory Machine Std

/-- a message that waits, and what `_readNextMessage` reads for it -/
structure Incoming where
  now : Time
  timestamp : UInt32
  buf : Mem
  numBytes : Int

/-- what one round of the loop reads -/
structure Round where
  now : Time
  /-- the clock in `_removeOldSources` -/
  removeNow : Time
  timestamp : UInt32
  rc : Int
  /-- as long as `haveIncomingMessage` -/
  incoming : List Incoming

/-- the local variables of `run` -/
structure Timers where
  tLastCleanup : Time
  tLastUpdate : Time

/-- `CLEANUP_SOURCE_LIST_SECONDS` -/
def cleanupSourceListSeconds : Time := 60

def Client.readIncoming (H : NTStatKernelStructHandler) (c : Client) (m : Incoming) :
    Option (Client × List Effect) := c.readNextMessage H m.now m.timestamp m.buf m.numBytes

/-- one round of the loop -/
def round (H : NTStatKernelStructHandler) :
    Timers × Client → Round → Option ((Timers × Client) × List Effect)
  | (t, c), r =>
    let x := if r.now - t.tLastCleanup > cleanupSourceListSeconds then
      ({ t with tLastCleanup := r.now }, c.removeOldSources r.removeNow) else (t, c)
    let y := if 0 < x.2.updateIntervalSeconds ∧
        r.now - x.1.tLastUpdate ≥ x.2.updateIntervalSeconds.toNat then
      ({ x.1 with tLastUpdate := r.now }, x.2.updateWaitForCountsQueue r.now) else x
    let z := y.2.sendNextMsg H r.timestamp r.rc
    (exec (Client.readIncoming H) z.1 r.incoming).map fun w => ((y.1, w.1), z.2 ++ w.2)

/-! ## the steps of a round -/

namespace Timers
variable (interval : UInt32) (t : Timers) (r : Round)

def CleanupDue : Prop := r.now - t.tLastCleanup > cleanupSourceListSeconds

def UpdateDue : Prop := 0 < interval ∧ r.now - t.tLastUpdate ≥ interval.toNat

instance : Decidable (t.CleanupDue r) := inferInstanceAs (Decidable (_ > _))
instance : Decidable (t.UpdateDue interval r) := inferInstanceAs (Decidable (_ ∧ _))

/-- the timers after the round -/
def tick : Timers where
  tLastCleanup := if t.CleanupDue r then r.now else t.tLastCleanup
  tLastUpdate := if t.UpdateDue interval r then r.now else t.tLastUpdate

/-- the steps of the round -/
def roundSteps : List Step :=
  (if t.CleanupDue r then [.removeOldSources r.removeNow] else []) ++
  (if t.UpdateDue interval r then [.updateWaitForCountsQueue r.now] else []) ++
  .sendNextMsg r.timestamp r.rc ::
    r.incoming.map fun m => .readNextMessage m.now m.timestamp m.buf m.numBytes

/-- the steps of some rounds -/
def steps (t : Timers) : List Round → List Step
  | [] => []
  | r :: rs => t.roundSteps interval r ++ (t.tick interval r).steps rs

/-- the timers after some rounds -/
def ticks (t : Timers) : List Round → Timers
  | [] => t
  | r :: rs => (t.tick interval r).ticks rs

end Timers

/-! ## the loop is the run of its steps -/

namespace Client
variable {H : NTStatKernelStructHandler} {c : Client}

theorem handleResponseMessage_interval {now : Time} {msg : Mem} {n : Nat}
    {x : Int × Client × List Effect} (h : c.handleResponseMessage H now msg n = some x) :
    x.2.1.updateIntervalSeconds = c.updateIntervalSeconds := by
  have htake : (c.takeRequest (hdrContext msg)).2.updateIntervalSeconds =
      c.updateIntervalSeconds := by
    unfold takeRequest
    split <;> rfl
  rw [← htake]
  rcases handleResponseMessage_cases h with ⟨-, -, he⟩ | ⟨-, ⟨_, _, _, _, _, _, he⟩, -⟩
  · obtain ⟨_, _, _, _, _, _, hr, -⟩ := handleState_resubscribed (H := H)
      (c.takeRequest (hdrContext msg)).2 msg n (c.takeRequest (hdrContext msg)).1
    rw [he, hr]
  · rw [he]

end Client

variable {H : NTStatKernelStructHandler} {c c' : Client} {effs : List Effect}

/-- no step changes the interval -/
theorem step_interval {st : Step} (h : step H c st = some (c', effs)) :
    c'.updateIntervalSeconds = c.updateIntervalSeconds := by
  cases turn_of_step h with
  | nothing hn => rfl
  | message hn hx => exact Client.handleResponseMessage_interval hx
  | updateWaitForCountsQueue now =>
    obtain ⟨_, _, he⟩ := c.updateWaitForCountsQueue_changes now
    rw [he]
  | removeOldSources now => rfl
  | sendNextMsg timestamp rc =>
    obtain ⟨_, _, _, _, _, _, he⟩ := c.sendNextMsg_changes (H := H) timestamp rc
    rw [he]

theorem exec_interval {steps : List Step} (h : exec (step H) c steps = some (c', effs)) :
    c'.updateIntervalSeconds = c.updateIntervalSeconds :=
  exec_inv (P := fun _ c' _ => c'.updateIntervalSeconds = c.updateIntervalSeconds) rfl
    (fun _ _ _ _ _ _ _ hP hst => (step_interval hst).trans hP) h

theorem exec_incoming (c : Client) (ms : List Incoming) :
    exec (Client.readIncoming H) c ms = exec (step H) c
      (ms.map fun m => .readNextMessage m.now m.timestamp m.buf m.numBytes) := by
  induction ms generalizing c with
  | nil => rfl
  | cons m ms ih =>
    rw [List.map_cons]
    simp only [exec, ih]
    rfl

/-- what follows the sweeps of a round -/
theorem exec_sent (c : Client) (r : Round) :
    exec (step H) c (.sendNextMsg r.timestamp r.rc ::
        r.incoming.map fun m => .readNextMessage m.now m.timestamp m.buf m.numBytes) =
      (exec (Client.readIncoming H) (c.sendNextMsg H r.timestamp r.rc).1 r.incoming).map fun w =>
        (w.1, (c.sendNextMsg H r.timestamp r.rc).2 ++ w.2) := by
  rw [exec_incoming]
  rfl

/-- **A round of the loop is the run of its steps.** -/
theorem round_eq (t : Timers) (r : Round) : round H (t, c) r =
    (exec (step H) c (t.roundSteps c.updateIntervalSeconds r)).map fun x =>
      ((t.tick c.updateIntervalSeconds r, x.1), x.2) := by
  have hsilent : ∀ (c c1 : Client) st is, step H c st = some (c1, []) →
      exec (step H) c ([st] ++ is) = exec (step H) c1 is := by
    intro c c1 st is h
    simp only [List.cons_append, List.nil_append, exec, h, Option.bind_some, Option.map_id']
  unfold round
  dsimp only
  -- the cleanup
  generalize hx : (if r.now - t.tLastCleanup > cleanupSourceListSeconds then
    ({ t with tLastCleanup := r.now }, c.removeOldSources r.removeNow) else (t, c)) = x
  have h1 : x.1 = ⟨if t.CleanupDue r then r.now else t.tLastCleanup, t.tLastUpdate⟩ ∧
      x.2.updateIntervalSeconds = c.updateIntervalSeconds ∧ ∀ is, exec (step H) c
        ((if t.CleanupDue r then [.removeOldSources r.removeNow] else []) ++ is) =
          exec (step H) x.2 is := by
    subst hx
    by_cases h : t.CleanupDue r
    · rw [if_pos (show r.now - t.tLastCleanup > cleanupSourceListSeconds from h), if_pos h,
        if_pos h]
      exact ⟨rfl, rfl, fun is => hsilent _ _ _ _ rfl⟩
    · rw [if_neg (show ¬ r.now - t.tLastCleanup > cleanupSourceListSeconds from h), if_neg h,
        if_neg h]
      exact ⟨rfl, rfl, fun is => rfl⟩
  obtain ⟨h1, h2, h3⟩ := h1
  -- the update
  generalize hy : (if 0 < x.2.updateIntervalSeconds ∧
      r.now - x.1.tLastUpdate ≥ x.2.updateIntervalSeconds.toNat then
    ({ x.1 with tLastUpdate := r.now }, x.2.updateWaitForCountsQueue r.now) else x) = y
  have h4 : y.1 = t.tick c.updateIntervalSeconds r ∧ ∀ is, exec (step H) x.2
      ((if t.UpdateDue c.updateIntervalSeconds r then [.updateWaitForCountsQueue r.now] else []) ++
        is) = exec (step H) y.2 is := by
    subst hy
    rw [h1, h2]
    unfold Timers.tick
    by_cases h : t.UpdateDue c.updateIntervalSeconds r
    · rw [if_pos (show 0 < c.updateIntervalSeconds ∧ _ from h), if_pos h, if_pos h]
      exact ⟨rfl, fun is => hsilent _ _ _ _ rfl⟩
    · rw [if_neg (show ¬ (0 < c.updateIntervalSeconds ∧ _) from h), if_neg h, if_neg h]
      exact ⟨h1, fun is => rfl⟩
  obtain ⟨h4, h5⟩ := h4
  unfold Timers.roundSteps
  rw [List.append_assoc, h3, h5, exec_sent, h4, Option.map_map]
  rfl

/-- **The loop is the run of its steps.** -/
theorem rounds_eq (t : Timers) (rounds : List Round) : exec (round H) (t, c) rounds =
    (exec (step H) c (t.steps c.updateIntervalSeconds rounds)).map fun x =>
      ((t.ticks c.updateIntervalSeconds rounds, x.1), x.2) := by
  induction rounds generalizing t c with
  | nil => rfl
  | cons r rounds ih =>
    rw [exec, round_eq, Timers.steps, exec_append_bind]
    cases hr : exec (step H) c (t.roundSteps c.updateIntervalSeconds r) with
    | none => rfl
    | some x =>
      simp only [Option.map_some, Option.bind_some, ih]
      rw [exec_interval hr, Option.map_map, Option.map_map]
      rfl

end Ntstat
