import Ntstat.Client.Loop
import Ntstat.Machine.Loop

/-!
# Reading messages, and the end of `run`

`receiveLoop` is the inner loop of `run`, which `select` ends; what the application stops by `stop`
is the outer one.

* `LiveRound`, `runLoop`   the loop of `run` on a socket, up to a call of `stop`;
* `runLoop_returned`       a loop that returned was made of rounds as they stand in `round`;
* `runLoop_cut`            a loop that was cut off was to go on reading in some round.
-/

namespace Ntstat
open Memory Machine Std

/-- what `select` and `read` on the control socket give in each iteration of the loop that reads -/
structure ControlSocket where
  select : Nat → Int
  read : Nat → Incoming

/-- `haveIncomingMessage`, `rc` the result of `select` -/
def haveIncomingMessage (rc : Int) : Bool := 0 < rc

def ControlSocket.readable (s : ControlSocket) (n : Nat) : Bool := haveIncomingMessage (s.select n)

namespace Client

/-- `while (haveIncomingMessage()) _readNextMessage();` -/
def receiveLoop (H : NTStatKernelStructHandler) (s : ControlSocket) (fuel : Nat) (c : Client) :
    Option ((Bool × Client) × List Effect) :=
  loop (readIncoming H) s.readable s.read fuel 0 c

/-- it ends -/
def Receives (H : NTStatKernelStructHandler) (s : ControlSocket) (c : Client) : Prop :=
  ∃ fuel c' effs, c.receiveLoop H s fuel = some ((true, c'), effs)

def stop (c : Client) : Client := { c with keepRunning := false }

/-- after the loop of `run` the socket is closed -/
def endRun (c : Client) : Client := { c with fd := 0 }

end Client

/-- what one round of the loop reads from the clock, from `write`, and from the socket -/
structure LiveRound where
  now : Time
  removeNow : Time
  timestamp : UInt32
  rc : Int
  socket : ControlSocket

/-- the round in which `n` messages are read -/
def LiveRound.heard (r : LiveRound) (n : Nat) : Round where
  now := r.now
  removeNow := r.removeNow
  timestamp := r.timestamp
  rc := r.rc
  incoming := inputs r.socket.read 0 n

/-- one round on the socket: what comes before the messages, and the loop that reads them -/
def liveRound (H : NTStatKernelStructHandler) (fuel : Nat) (x : Timers × Client) (r : LiveRound) :
    Option ((Bool × Timers × Client) × List Effect) :=
  (round H x (r.heard 0)).bind fun y =>
    (y.1.2.receiveLoop H r.socket fuel).map fun z => ((z.1.1, y.1.1, z.1.2), y.2 ++ z.2)

/-- `while (_keepRunning)` and what follows it; `stop` is called before the test that follows the
rounds, the flag tells that `run` returned -/
def runLoop (H : NTStatKernelStructHandler) (fuel : Nat) :
    Timers × Client → List LiveRound → Option ((Bool × Client) × List Effect)
  | x, [] => some ((true, x.2.stop.endRun), [])
  | x, r :: rounds =>
    (liveRound H fuel x r).bind fun y =>
      if y.1.1 then (runLoop H fuel y.1.2 rounds).map fun z => (z.1, y.2 ++ z.2)
      else some ((false, y.1.2.2), y.2)

/-- `run` returns -/
def Returns (H : NTStatKernelStructHandler) (x : Timers × Client) (rounds : List LiveRound) :
    Prop :=
  ∃ fuel c' effs, runLoop H fuel x rounds = some ((true, c'), effs)

variable {H : NTStatKernelStructHandler} {x : Timers × Client} {fuel : Nat} {c' : Client}
  {effs : List Effect}

/-- the messages come last in a round -/
theorem round_heard (x : Timers × Client) (r : LiveRound) (n : Nat) : round H x (r.heard n) =
    (round H x (r.heard 0)).bind fun y =>
      (exec (Client.readIncoming H) y.1.2 (inputs r.socket.read 0 n)).map fun w =>
        ((y.1.1, w.1), y.2 ++ w.2) := by
  unfold round LiveRound.heard
  simp [inputs]

/-- the round as the loop makes it -/
def Heard (fuel : Nat) (r : LiveRound) (r' : Round) : Prop :=
  ∃ n < fuel, Stops r.socket.readable 0 n ∧ r' = r.heard n

theorem liveRound_ended {r : LiveRound} {y : Timers × Client} :
    liveRound H fuel x r = some ((true, y), effs) ↔
      ∃ r', Heard fuel r r' ∧ round H x r' = some (y, effs) := by
  constructor
  · intro h
    obtain ⟨⟨⟨t, c⟩, e1⟩, h1, h2⟩ := Option.bind_eq_some_iff.mp h
    obtain ⟨⟨⟨b, c'⟩, e2⟩, h3, h4⟩ := Option.map_eq_some_iff.mp h2
    obtain ⟨hy, rfl⟩ := Prod.mk.inj h4
    obtain ⟨rfl, rfl⟩ := Prod.mk.inj hy
    obtain ⟨n, hn, hs, hx⟩ := loop_ended.mp h3
    refine ⟨r.heard n, ⟨n, hn, hs, rfl⟩, ?_⟩
    rw [round_heard, h1, Option.bind_some, hx]
    rfl
  · intro hex
    obtain ⟨_, ⟨n, hn, hs, rfl⟩, h⟩ := hex
    rw [round_heard] at h
    obtain ⟨⟨⟨t, c⟩, e1⟩, h1, h2⟩ := Option.bind_eq_some_iff.mp h
    obtain ⟨⟨c', e2⟩, hx, h4⟩ := Option.map_eq_some_iff.mp h2
    obtain ⟨rfl, rfl⟩ := Prod.mk.inj h4
    have h3 : c.receiveLoop H r.socket fuel = _ := loop_ended.mpr ⟨n, hn, hs, hx⟩
    unfold liveRound
    rw [h1, Option.bind_some, h3]
    rfl

/-- **A loop that returned was made of rounds.** -/
theorem runLoop_returned {rounds : List LiveRound} :
    runLoop H fuel x rounds = some ((true, c'), effs) ↔
      ∃ rs t c, List.Forall₂ (Heard fuel) rounds rs ∧ exec (round H) x rs = some ((t, c), effs) ∧
        c' = c.stop.endRun := by
  induction rounds generalizing x effs with
  | nil =>
    constructor
    · intro h
      obtain ⟨hc, rfl⟩ := Prod.mk.inj (Option.some.inj h)
      obtain ⟨-, rfl⟩ := Prod.mk.inj hc
      exact ⟨[], x.1, x.2, .nil, rfl, rfl⟩
    · intro hex
      obtain ⟨rs, t, c, hrs, hx, rfl⟩ := hex
      cases hrs
      obtain ⟨rfl, rfl⟩ := Prod.mk.inj (Option.some.inj hx)
      rfl
  | cons r rounds ih =>
    rw [runLoop]
    constructor
    · intro h
      obtain ⟨⟨⟨b, y⟩, e1⟩, h1, h2⟩ := Option.bind_eq_some_iff.mp h
      cases b with
      | false => cases h2
      | true =>
        obtain ⟨⟨_, e2⟩, h3, h4⟩ := Option.map_eq_some_iff.mp h2
        obtain ⟨rfl, rfl⟩ := Prod.mk.inj h4
        obtain ⟨r', hr', hx⟩ := liveRound_ended.mp h1
        obtain ⟨rs, t, c, hrs, hx', hc⟩ := ih.mp h3
        exact ⟨r' :: rs, t, c, .cons hr' hrs, exec_cons.mpr ⟨y, e1, e2, hx, hx', rfl⟩, hc⟩
    · intro hex
      obtain ⟨_, t, c, hall, hx, hc⟩ := hex
      obtain ⟨r', rs, hr', hrs, rfl⟩ := List.forall₂_cons_left_iff.mp hall
      obtain ⟨y, e1, e2, h1, h2, rfl⟩ := exec_cons.mp hx
      have h3 := ih.mpr ⟨rs, t, c, hrs, h2, hc⟩
      rw [liveRound_ended.mpr ⟨r', hr', h1⟩, Option.bind_some]
      dsimp only
      rw [if_pos rfl, h3]
      rfl

/-! ## other fuel -/

/-- a round that was cut off was to go on reading -/
theorem liveRound_cut {r : LiveRound} {y : Timers × Client}
    (h : liveRound H fuel x r = some ((false, y), effs)) :
    ∀ j < fuel, r.socket.readable j = true := by
  obtain ⟨y1, -, h2⟩ := Option.bind_eq_some_iff.mp h
  obtain ⟨⟨⟨b, c1⟩, e2⟩, h3, h4⟩ := Option.map_eq_some_iff.mp h2
  obtain ⟨hy, -⟩ := Prod.mk.inj h4
  obtain ⟨rfl, -⟩ := Prod.mk.inj hy
  intro j hj
  rw [← Nat.zero_add j]
  exact loop_cut h3 j hj

/-- so a loop of `run` that was cut off was to go on reading in one of its rounds -/
theorem runLoop_cut {rounds : List LiveRound}
    (h : runLoop H fuel x rounds = some ((false, c'), effs)) :
    ∃ r ∈ rounds, ∀ j < fuel, r.socket.readable j = true := by
  induction rounds generalizing x effs with
  | nil => cases h
  | cons r rounds ih =>
    obtain ⟨⟨⟨b, y⟩, e1⟩, h1, h2⟩ := Option.bind_eq_some_iff.mp h
    cases b with
    | false => exact ⟨r, List.mem_cons_self, liveRound_cut h1⟩
    | true =>
      obtain ⟨⟨_, e2⟩, h3, h4⟩ := Option.map_eq_some_iff.mp h2
      obtain ⟨rfl, -⟩ := Prod.mk.inj h4
      obtain ⟨r', hr', hall⟩ := ih h3
      exact ⟨r', List.mem_cons_of_mem _ hr', hall⟩

/-- a round that ended has the same result with other fuel, if that is enough -/
theorem liveRound_fuel {r : LiveRound} {y : Timers × Client}
    (h : liveRound H fuel x r = some ((true, y), effs)) (fuel' : Nat) :
    liveRound H fuel' x r = some ((true, y), effs) ∨
      ∃ y1 e1, liveRound H fuel' x r = some ((false, y1), e1) := by
  obtain ⟨⟨⟨t, c⟩, e1⟩, h1, h2⟩ := Option.bind_eq_some_iff.mp h
  obtain ⟨⟨⟨b, c1⟩, e2⟩, h3, h4⟩ := Option.map_eq_some_iff.mp h2
  obtain ⟨hy, rfl⟩ := Prod.mk.inj h4
  obtain ⟨rfl, rfl⟩ := Prod.mk.inj hy
  unfold liveRound
  rw [h1, Option.bind_some]
  rcases loop_fuel h3 fuel' with he | ⟨c2, e3, he⟩
  · left
    rw [Client.receiveLoop, he]
    rfl
  · right
    rw [Client.receiveLoop, he]
    exact ⟨_, _, rfl⟩

/-- if `run` returns, it has a result with any fuel -/
theorem runLoop_fuel {rounds : List LiveRound}
    (h : runLoop H fuel x rounds = some ((true, c'), effs)) (fuel' : Nat) :
    runLoop H fuel' x rounds ≠ none := by
  induction rounds generalizing x effs with
  | nil => exact Option.some_ne_none _
  | cons r rounds ih =>
    obtain ⟨⟨⟨b, y⟩, e1⟩, h1, h2⟩ := Option.bind_eq_some_iff.mp h
    cases b with
    | false => cases h2
    | true =>
      obtain ⟨⟨_, e2⟩, h3, h4⟩ := Option.map_eq_some_iff.mp h2
      obtain ⟨rfl, -⟩ := Prod.mk.inj h4
      obtain ⟨z, hz⟩ := Option.ne_none_iff_exists'.mp (ih h3)
      rw [runLoop]
      rcases liveRound_fuel h1 fuel' with he | ⟨y1, e3, he⟩
      · rw [he, Option.bind_some]
        dsimp only
        rw [if_pos rfl, hz]
        exact Option.some_ne_none _
      · rw [he, Option.bind_some]
        exact Option.some_ne_none _

end Ntstat
