import Ntstat.Client.Receive
import Ntstat.Client.Replay
import Ntstat.Machine.Ledger

/-!
# The calls of an application

`connectToKernel` with the system calls that it makes, and every call of an application with what it
opens and closes.

* `connectToKernelBy`            the call, on what `socket`, `ioctl` and `connect` give it;
* `Use`, `Client.use`            the calls of an application, one after another;
* `descOps`, `Client.invoke`     what they open and close;
* `run_fd`, `runRecording_fd`    no session and no replay changes the socket.
-/

namespace Ntstat
open Memory Machine Std

/-- what is behind a descriptor -/
inductive DescKind where
  | socket
  | file
deriving DecidableEq

/-- opening and closing -/
abbrev DescOp := Op Int DescKind

/-- what the system calls of `connectToKernel` give -/
structure Attempt where
  socket : Int
  ioctl : Int
  connect : Int
deriving DecidableEq

/-- the length of `NET_STAT_CONTROL_NAME` -/
def netStatControlNameLength : Nat := "com.apple.network.statistics".toList.length

/-- `sizeof(ctlInfo.ctl_name)`, Darwin's `MAX_KCTL_NAME` -/
def maxKctlName : Nat := 96

namespace Client

/-- `connectToKernel`: what it returns, the client, and what it opens and closes -/
def connectToKernelBy (c : Client) (a : Attempt) : Bool × Client × List DescOp :=
  let c := c.connectToKernel a.socket
  if a.socket = -1 then (false, c, [])
  -- CONTROL NAME too long
  else if maxKctlName ≤ netStatControlNameLength then (false, c, [.take a.socket .socket])
  else if a.ioctl ≠ 0 then (false, c, [.take a.socket .socket, .drop a.socket])
  -- no dice
  else if a.connect ≠ 0 then (false, c, [.take a.socket .socket, .drop a.socket])
  else (true, c, [.take a.socket .socket])

theorem connectToKernelBy_client (c : Client) (a : Attempt) :
    (c.connectToKernelBy a).2.1 = c.connectToKernel a.socket := by
  unfold connectToKernelBy
  dsimp only
  split_ifs <;> rfl

/-- `open`, which gives -1 if it fails -/
def openFile (fd : Int) : List DescOp := if 0 ≤ fd then [.take fd .file] else []

end Client

/-- a call of a method of the client, with what it reads -/
inductive Use where
  | configure (wantTcp wantUdp : Bool) (updateIntervalSeconds : UInt32)
  /-- `fd` is the result of `open` -/
  | enableRecording (fd : Int)
  | connectToKernel (a : Attempt)
  /-- up to the call of `stop` -/
  | run (steps : List Step)
  /-- `fd` is the result of `open`, the version is the one that is given -/
  | runRecording (version : KernelVersion) (env : ReplayEnv) (fd : Int) (file : List UInt8)

namespace Client

/-- the call, on a kernel of version `v` -/
def use (v : KernelVersion) (c : Client) : Use → Option (Client × List Effect)
  | .configure wantTcp wantUdp updateIntervalSeconds =>
    some (c.configure wantTcp wantUdp updateIntervalSeconds, [])
  | .enableRecording fd => some (c.enableRecording fd, [])
  | .connectToKernel a => some ((c.connectToKernelBy a).2.1, [])
  | .run steps =>
    if c.isConnected then
      let x := c.beginRun v.handler
      (exec (step v.handler) x.1 steps).map fun y => (y.1.stop.endRun, x.2 ++ y.2)
    else some (c, [])
  | .runRecording version env fd file => c.runRecording version.handler env fd file

/-- what the call opens and closes -/
def descOps (v : KernelVersion) (c : Client) : Use → List DescOp
  | .configure _ _ _ => []
  | .enableRecording fd => openFile fd
  | .connectToKernel a => (c.connectToKernelBy a).2.2
  | .run steps =>
    if c.isConnected then
      -- `close(_fd)` after the loop
      ((exec (step v.handler) (c.beginRun v.handler).1 steps).map fun y => .drop y.1.fd).toList
    else []
  | .runRecording _ _ fd _ => openFile fd

/-- the call, seen from the descriptor table -/
def invoke (v : KernelVersion) (c : Client) (u : Use) : Option (Client × List DescOp) :=
  (c.use v u).map fun x => (x.1, c.descOps v u)

end Client

/-! ## the socket -/

namespace Client
variable {H : NTStatKernelStructHandler} {c c' : Client} {effs : List Effect}

theorem Resubscribed.fd {x : Client × List Effect} (h : Resubscribed H c x) : x.1.fd = c.fd := by
  obtain ⟨_, _, _, _, _, _, he, -⟩ := h
  rw [he]

theorem takeRequest_fd (c : Client) (context : UInt64) : (c.takeRequest context).2.fd = c.fd := by
  unfold takeRequest
  split <;> rfl

theorem handleResponseMessage_fd {now : Time} {msg : Mem} {n : Nat}
    {x : Int × Client × List Effect} (h : c.handleResponseMessage H now msg n = some x) :
    x.2.1.fd = c.fd := by
  rw [← takeRequest_fd c (hdrContext msg)]
  rcases handleResponseMessage_cases h with ⟨-, -, he⟩ | ⟨-, ⟨_, _, _, _, _, _, he⟩, -⟩
  · rw [he]
    exact (handleState_resubscribed _ _ _ _).fd
  · rw [he]

theorem step_fd {st : Step} (h : step H c st = some (c', effs)) : c'.fd = c.fd := by
  cases turn_of_step h with
  | nothing hn => rfl
  | message hn hx => exact handleResponseMessage_fd hx
  | updateWaitForCountsQueue now =>
    obtain ⟨_, _, he⟩ := c.updateWaitForCountsQueue_changes now
    rw [he]
  | removeOldSources now => rfl
  | sendNextMsg timestamp rc =>
    obtain ⟨_, _, _, _, _, _, he⟩ := c.sendNextMsg_changes (H := H) timestamp rc
    rw [he]

/-- **A session keeps its socket to its end.** -/
theorem run_fd {steps : List Step}
    (h : exec (step H) (c.beginRun H).1 steps = some (c', effs)) : c'.fd = c.fd := by
  refine exec_inv (P := fun _ c1 _ => c1.fd = c.fd) (beginRun_resubscribed c).fd ?_ h
  intro _ c1 _ st c2 _ _ hP hst
  exact (step_fd hst).trans hP

theorem replayRecord_fd {env : ReplayEnv} {s s' : Nat × Client} {r : Record}
    (h : replayRecord H env s r = some (s', effs)) : s'.2.fd = s.2.fd := by
  obtain ⟨k, c⟩ := s
  unfold replayRecord at h
  dsimp only at h
  have hfirst : (if k = 0 ∧ hdrType (vecData r.data (env.behind k)) = .addAllSrcs then
      { c with state := .start } else c).fd = c.fd := by
    split <;> rfl
  generalize (if k = 0 ∧ hdrType (vecData r.data (env.behind k)) = .addAllSrcs then
      { c with state := .start } else c) = c1 at h hfirst
  split at h
  case h_6 =>
    obtain ⟨x, hx, he⟩ := Option.map_eq_some_iff.mp h
    obtain ⟨rfl, -⟩ := Prod.mk.inj he
    exact (handleResponseMessage_fd hx).trans hfirst
  all_goals
    obtain ⟨rfl, -⟩ := Prod.mk.inj (Option.some.inj h)
    exact hfirst

theorem runRecording_fd {env : ReplayEnv} {fd : Int} {file : List UInt8}
    (h : c.runRecording H env fd file = some (c', effs)) : c'.fd = c.fd := by
  unfold runRecording at h
  split at h
  · obtain ⟨rfl, -⟩ := Prod.mk.inj (Option.some.inj h)
    rfl
  · obtain ⟨⟨⟨k, q⟩, o⟩, hx, he⟩ := Option.map_eq_some_iff.mp h
    obtain ⟨rfl, -⟩ := Prod.mk.inj he
    refine exec_inv (P := fun _ s _ => s.2.fd = c.fd) rfl ?_ hx
    intro _ s1 _ r s2 _ _ hP hr
    exact (replayRecord_fd hr).trans hP

end Client

end Ntstat
