import Ntstat.Client.Connect
import Ntstat.Laws.Lifetime

/-!
# Whose descriptors the client closes

The kernel gives no descriptor twice while it is open (`TakesNew`).

* `lastAttempt`      the attempt to connect that the next session will be run on;
* `Connected`        what is kept between the calls: the socket of the client is that of the
                     attempt, and it is open exactly if the attempt did not fail;
* `connected_iff`    so what `isConnected` tells;
* `closes_own_iff`   the client closes what is its own and leaves its files open, unless a session
                     is run after an attempt that failed.
-/

namespace Ntstat
open Machine

/-- the attempt fails, though it may have made a socket -/
def Attempt.Fails (a : Attempt) : Prop := a.ioctl ≠ 0 ∨ a.connect ≠ 0

instance (a : Attempt) : Decidable a.Fails := inferInstanceAs (Decidable (_ ∨ _))

/-- the attempt that the call makes; a session leaves none -/
def Use.attempt : Use → Option (Option Attempt)
  | connectToKernel a => some (some a)
  | run _ => some none
  | _ => none

/-- the last attempt, if no session came after it -/
def lastAttempt (us : List Use) : Option Attempt :=
  (us.filterMap Use.attempt).getLast?.join

theorem lastAttempt_concat (us : List Use) (u : Use) :
    lastAttempt (us ++ [u]) = u.attempt.getD (lastAttempt us) := by
  unfold lastAttempt
  rw [List.filterMap_append]
  cases h : u.attempt with
  | none => simp [h]
  | some a => simp [h]

section
variable {v : KernelVersion} {c c' : Client} {us : List Use} {u : Use} {a : Attempt}
  {ops o : List DescOp}

/-! ## what a call opens and closes -/

theorem controlName_fits : ¬ maxKctlName ≤ netStatControlNameLength := by decide

/-- the name is short enough: an attempt that made a socket fails in `ioctl` or in `connect` -/
theorem connectToKernelBy_ops (c : Client) (h : a.socket ≠ -1) :
    (c.connectToKernelBy a).2.2 =
      .take a.socket .socket :: if a.Fails then [.drop a.socket] else [] := by
  unfold Client.connectToKernelBy Attempt.Fails
  dsimp only
  rw [if_neg h, if_neg controlName_fits]
  split_ifs <;> simp_all

/-- **It returns true exactly if it leaves its socket open.** -/
theorem connectToKernelBy_true (c : Client) (a : Attempt) :
    (c.connectToKernelBy a).1 = true ↔ a.socket ≠ -1 ∧ ¬ a.Fails := by
  unfold Client.connectToKernelBy Attempt.Fails
  dsimp only
  rw [if_neg controlName_fits]
  split_ifs <;> simp_all

theorem connectToKernelBy_failed (c : Client) (h : a.socket = -1) :
    (c.connectToKernelBy a).2.2 = [] := by
  unfold Client.connectToKernelBy
  dsimp only
  rw [if_pos h]

theorem socket_openFile (s : Finset (Int × DescKind)) (fd x : Int) :
    (x, DescKind.socket) ∈ held s (Client.openFile fd) ↔ (x, DescKind.socket) ∈ s := by
  unfold Client.openFile
  split
  · rw [held_cons, held_nil, mem_take]
    simp
  · rfl

theorem invoke_use (hu : c.invoke v u = some (c', o)) :
    (∃ effs, c.use v u = some (c', effs)) ∧ o = c.descOps v u := by
  obtain ⟨⟨c1, effs⟩, hx, he⟩ := Option.map_eq_some_iff.mp hu
  obtain ⟨rfl, rfl⟩ := Prod.mk.inj he
  exact ⟨⟨effs, hx⟩, rfl⟩

/-- a session closes the socket that it was run on -/
theorem descOps_session {steps : List Step} (hc : c.isConnected = true)
    (hu : c.invoke v (.run steps) = some (c', o)) : c'.fd = 0 ∧ o = [.drop c.fd] := by
  obtain ⟨⟨effs, hx⟩, rfl⟩ := invoke_use hu
  unfold Client.use at hx
  dsimp only at hx
  rw [if_pos hc] at hx
  obtain ⟨⟨c1, e1⟩, hloop, he⟩ := Option.map_eq_some_iff.mp hx
  obtain ⟨rfl, -⟩ := Prod.mk.inj he
  refine ⟨rfl, ?_⟩
  unfold Client.descOps
  dsimp only
  rw [if_pos hc, hloop, ← Client.run_fd hloop]
  rfl

/-- without a socket nothing is run -/
theorem descOps_unconnected {steps : List Step} (hc : ¬ c.isConnected = true)
    (hu : c.invoke v (.run steps) = some (c', o)) : c' = c ∧ o = [] := by
  obtain ⟨⟨effs, hx⟩, rfl⟩ := invoke_use hu
  unfold Client.use at hx
  dsimp only at hx
  rw [if_neg hc] at hx
  obtain ⟨rfl, -⟩ := Prod.mk.inj (Option.some.inj hx)
  exact ⟨rfl, if_neg hc⟩

/-! ## between the calls -/

/-- the socket of the client between two calls -/
structure Connected (us : List Use) (c : Client) (ops : List DescOp) : Prop where
  fd : ∀ a ∈ lastAttempt us, c.fd = a.socket
  closed : lastAttempt us = none → c.fd ≤ 0
  own : Always TakesNew ∅ ops → ∀ a ∈ lastAttempt us, 0 < a.socket →
    ((a.socket, .socket) ∈ held ∅ ops ↔ ¬ a.Fails)

theorem Connected.keep (h : Connected us c ops) (hu : u.attempt = none) (hfd : c'.fd = c.fd)
    (ho : ∀ x, (x, DescKind.socket) ∈ held (held ∅ ops) o ↔ (x, DescKind.socket) ∈ held ∅ ops) :
    Connected (us ++ [u]) c' (ops ++ o) := by
  have hlast : lastAttempt (us ++ [u]) = lastAttempt us := by
    rw [lastAttempt_concat, hu]
    rfl
  refine ⟨fun a ha => ?_, fun hnone => ?_, fun hnew a ha hpos => ?_⟩
  · rw [hfd]
    exact h.fd a (hlast ▸ ha)
  · rw [hfd]
    exact h.closed (hlast ▸ hnone)
  · rw [held_append, ho]
    exact h.own (always_append.mp hnew).1 a (hlast ▸ ha) hpos

/-- **What a call leaves.** -/
theorem connected_step (h : Connected us c ops) (hu : c.invoke v u = some (c', o)) :
    Connected (us ++ [u]) c' (ops ++ o) := by
  cases u with
  | configure wantTcp wantUdp updateIntervalSeconds =>
    obtain ⟨rfl, rfl⟩ := Prod.mk.inj (Option.some.inj hu)
    exact h.keep rfl rfl fun _ => Iff.rfl
  | enableRecording fd =>
    obtain ⟨rfl, rfl⟩ := Prod.mk.inj (Option.some.inj hu)
    exact h.keep rfl rfl fun x => socket_openFile _ fd x
  | connectToKernel a =>
    have hlast : lastAttempt (us ++ [.connectToKernel a]) = some a := lastAttempt_concat _ _
    obtain ⟨rfl, rfl⟩ := Prod.mk.inj (Option.some.inj hu)
    refine ⟨fun b hb => ?_, fun hnone => ?_, fun hnew b hb hpos => ?_⟩
    · obtain rfl := Option.some.inj (hlast.symm.trans hb)
      exact congrArg Client.fd (Client.connectToKernelBy_client c _)
    · rw [hlast] at hnone
      cases hnone
    · obtain rfl := Option.some.inj (hlast.symm.trans hb)
      rw [held_append]
      show _ ∈ held _ (c.connectToKernelBy _).2.2 ↔ _
      rw [connectToKernelBy_ops c (by omega), held_cons]
      by_cases hf : a.Fails
      · rw [if_pos hf, held_cons, held_nil, mem_drop]
        exact iff_of_false (fun hm => hm.2 rfl) (not_not.mpr hf)
      · rw [if_neg hf, held_nil, mem_take]
        exact iff_of_true (Or.inl rfl) hf
  | run steps =>
    have hlast : lastAttempt (us ++ [.run steps]) = none := lastAttempt_concat _ _
    refine ⟨fun b hb => ?_, fun _ => ?_, fun _ b hb => ?_⟩
    · rw [hlast] at hb
      cases hb
    · by_cases hc : c.isConnected = true
      · exact le_of_eq (descOps_session hc hu).1
      · obtain ⟨rfl, -⟩ := descOps_unconnected hc hu
        exact Int.not_lt.mp fun hpos => hc (decide_eq_true hpos)
    · rw [hlast] at hb
      cases hb
  | runRecording version env fd file =>
    obtain ⟨⟨effs, hrun⟩, rfl⟩ := invoke_use hu
    exact h.keep rfl (Client.runRecording_fd hrun) fun x => socket_openFile _ fd x

theorem connected_run (h : exec (Client.invoke v) {} us = some (c, ops)) : Connected us c ops := by
  refine exec_inv (P := fun us c ops => Connected us c ops) ?_ ?_ h
  · have h0 : lastAttempt [] = none := rfl
    refine ⟨fun a ha => ?_, fun _ => le_rfl, fun _ a ha => ?_⟩
    · rw [h0] at ha
      cases ha
    · rw [h0] at ha
      cases ha
  · intro us c1 o1 u c2 o2 _ hP hu
    exact connected_step hP hu

theorem Connected.isConnected_iff (h : Connected us c ops) :
    c.isConnected = true ↔ ∃ a ∈ lastAttempt us, 0 < a.socket := by
  unfold Client.isConnected
  rw [decide_eq_true_iff]
  constructor
  · intro hpos
    cases ha : lastAttempt us with
    | none => exact absurd hpos (Int.not_lt.mpr (h.closed ha))
    | some a => exact ⟨a, rfl, h.fd a ha ▸ hpos⟩
  · intro hex
    obtain ⟨a, ha, hpos⟩ := hex
    exact (h.fd a ha).symm ▸ hpos

/-- **What `isConnected` tells**, after any calls: that the last attempt to connect made a socket
and no session was run since.  That socket is open exactly if the attempt did not fail. -/
theorem connected_iff (h : exec (Client.invoke v) {} us = some (c, ops))
    (hnew : Always TakesNew ∅ ops) :
    (c.isConnected = true ↔ ∃ a ∈ lastAttempt us, 0 < a.socket) ∧
      (c.isConnected = true →
        ((c.fd, .socket) ∈ held ∅ ops ↔ ∃ a ∈ lastAttempt us, ¬ a.Fails)) := by
  have hc := connected_run h
  refine ⟨hc.isConnected_iff, fun hcon => ?_⟩
  obtain ⟨a, ha, hpos⟩ := hc.isConnected_iff.mp hcon
  rw [hc.fd a ha, hc.own hnew a ha hpos]
  constructor
  · intro hf
    exact ⟨a, ha, hf⟩
  · intro hex
    obtain ⟨b, hb, hf⟩ := hex
    obtain rfl := Option.some.inj (ha.symm.trans hb)
    exact hf

theorem connected_iff_failed : ∃ c ops,
    exec (Client.invoke .xnu3789) {} [.connectToKernel ⟨5, 0, -1⟩] = some (c, ops) ∧
    c.isConnected = true ∧ (c.fd, .socket) ∉ held ∅ ops := by
  have hrun : (exec (Client.invoke .xnu3789) {} [.connectToKernel ⟨5, 0, -1⟩]).map
      (fun x => x.2) = some [.take 5 .socket, .drop 5] := by decide
  obtain ⟨⟨c, ops⟩, h, ho⟩ := Option.map_eq_some_iff.mp hrun
  obtain rfl : ops = _ := ho
  obtain ⟨h1, h2⟩ := connected_iff h (by decide)
  have hcon : c.isConnected = true := h1.mpr ⟨⟨5, 0, -1⟩, rfl, by decide⟩
  refine ⟨c, _, h, hcon, fun hm => ?_⟩
  obtain ⟨a, ha, hf⟩ := (h2 hcon).mp hm
  obtain rfl := Option.some.inj ha
  exact hf (by decide)

/-! ## what is closed -/

/-- a session is run after an attempt that failed with a socket -/
def StaleSession (us : List Use) (u : Use) : Prop :=
  (∃ steps, u = .run steps) ∧ ∃ a ∈ lastAttempt us, 0 < a.socket ∧ a.Fails

theorem not_stale (hu : ∀ steps, u ≠ .run steps) : ¬ StaleSession us u := by
  intro hstale
  obtain ⟨⟨steps, he⟩, -⟩ := hstale
  exact hu steps he

theorem drops_openFile (s : Finset (Int × DescKind)) (fd : Int) :
    Always (DropOf DescKind.socket) s (Client.openFile fd) := by
  unfold Client.openFile
  split
  · exact ⟨trivial, trivial⟩
  · trivial

theorem drops_connect (s : Finset (Int × DescKind)) (c : Client) (a : Attempt) :
    Always (DropOf DescKind.socket) s (c.connectToKernelBy a).2.2 := by
  by_cases h : a.socket = -1
  · rw [connectToKernelBy_failed c h]
    trivial
  · rw [connectToKernelBy_ops c h]
    refine ⟨trivial, ?_⟩
    split
    · exact ⟨mem_take.mpr (Or.inl rfl), trivial⟩
    · trivial

/-- **A call closes nothing but an open socket of the client, a session after an attempt that failed
excepted.** -/
theorem drops_step (h : Connected us c ops) (hnew : Always TakesNew ∅ ops)
    (hu : c.invoke v u = some (c', o)) :
    Always (DropOf .socket) (held ∅ ops) o ↔ ¬ StaleSession us u := by
  cases u with
  | configure wantTcp wantUdp updateIntervalSeconds =>
    obtain ⟨-, rfl⟩ := Prod.mk.inj (Option.some.inj hu)
    exact iff_of_true trivial (not_stale fun _ he => by cases he)
  | enableRecording fd =>
    obtain ⟨-, rfl⟩ := Prod.mk.inj (Option.some.inj hu)
    exact iff_of_true (drops_openFile _ fd) (not_stale fun _ he => by cases he)
  | connectToKernel a =>
    obtain ⟨-, rfl⟩ := Prod.mk.inj (Option.some.inj hu)
    exact iff_of_true (drops_connect _ c a) (not_stale fun _ he => by cases he)
  | run steps =>
    by_cases hcon : c.isConnected = true
    · obtain ⟨-, rfl⟩ := descOps_session hcon hu
      obtain ⟨a, ha, hpos⟩ := h.isConnected_iff.mp hcon
      have hown := h.own hnew a ha hpos
      rw [← h.fd a ha] at hown
      show (c.fd, DescKind.socket) ∈ held ∅ ops ∧ True ↔ _
      rw [and_true, hown]
      refine not_congr ⟨fun hf => ⟨⟨steps, rfl⟩, a, ha, hpos, hf⟩, fun hstale => ?_⟩
      obtain ⟨-, b, hb, -, hf⟩ := hstale
      obtain rfl := Option.some.inj (ha.symm.trans hb)
      exact hf
    · obtain ⟨-, rfl⟩ := descOps_unconnected hcon hu
      refine iff_of_true trivial fun hstale => ?_
      obtain ⟨-, a, ha, hpos, -⟩ := hstale
      exact hcon (h.isConnected_iff.mpr ⟨a, ha, hpos⟩)
  | runRecording version env fd file =>
    obtain ⟨-, rfl⟩ := invoke_use hu
    exact iff_of_true (drops_openFile _ fd) (not_stale fun _ he => by cases he)

theorem drops_run (h : exec (Client.invoke v) {} us = some (c, ops))
    (hnew : Always TakesNew ∅ ops) :
    Always (DropOf .socket) ∅ ops ↔
      ¬ Sometime (Client.invoke v) {} us fun pre _ u => StaleSession pre u := by
  refine exec_inv (P := fun us _ ops => Always TakesNew ∅ ops → (Always (DropOf .socket) ∅ ops ↔
      ¬ Sometime (Client.invoke v) {} us fun pre _ u => StaleSession pre u)) ?_ ?_ h hnew
  · exact fun _ => iff_of_true trivial (sometime_nil _)
  · intro us c1 o1 u c2 o2 hx hP hu hnew
    obtain ⟨hnew1, -⟩ := always_append.mp hnew
    rw [always_append, hP hnew1, drops_step (connected_run hx) hnew1 hu, sometime_concat hx, not_or]

/-! ## files -/

/-- the call opens a file -/
def Use.opensFile : Use → Bool
  | enableRecording fd => 0 ≤ fd
  | runRecording _ _ fd _ => 0 ≤ fd
  | _ => false

theorem takes_openFile (fd : Int) :
    (Client.openFile fd).countP (Op.takes .file) = if 0 ≤ fd then 1 else 0 := by
  unfold Client.openFile
  split <;> rfl

theorem takes_connect (c : Client) (a : Attempt) :
    (c.connectToKernelBy a).2.2.countP (Op.takes .file) = 0 := by
  by_cases h : a.socket = -1
  · rw [connectToKernelBy_failed c h]
    rfl
  · rw [connectToKernelBy_ops c h]
    split <;> rfl

theorem takes_step (hu : c.invoke v u = some (c', o)) :
    o.countP (Op.takes .file) = if u.opensFile then 1 else 0 := by
  cases u with
  | configure wantTcp wantUdp updateIntervalSeconds =>
    obtain ⟨-, rfl⟩ := Prod.mk.inj (Option.some.inj hu)
    rfl
  | enableRecording fd =>
    obtain ⟨-, rfl⟩ := Prod.mk.inj (Option.some.inj hu)
    simpa [Client.descOps, Use.opensFile] using takes_openFile fd
  | connectToKernel a =>
    obtain ⟨-, rfl⟩ := Prod.mk.inj (Option.some.inj hu)
    exact takes_connect c a
  | run steps =>
    by_cases hc : c.isConnected = true
    · obtain ⟨-, rfl⟩ := descOps_session hc hu
      rfl
    · obtain ⟨-, rfl⟩ := descOps_unconnected hc hu
      rfl
  | runRecording version env fd file =>
    obtain ⟨-, rfl⟩ := invoke_use hu
    simpa [Client.descOps, Use.opensFile] using takes_openFile fd

theorem takes_run (h : exec (Client.invoke v) {} us = some (c, ops)) :
    ops.countP (Op.takes .file) = us.countP Use.opensFile := by
  refine exec_inv (P := fun us _ ops =>
    ops.countP (Op.takes .file) = us.countP Use.opensFile) rfl ?_ h
  intro us c1 o1 u c2 o2 _ hP hu
  rw [List.countP_append, List.countP_append, List.countP_singleton, hP, takes_step hu]

/-- **Over any calls, the client closes nothing but sockets that it has open, exactly if no session
is run after an attempt to connect that failed with a socket.**  Then every file that it opened for
a recording or a replay is left open. -/
theorem closes_own_iff (h : exec (Client.invoke v) {} us = some (c, ops))
    (hnew : Always TakesNew ∅ ops) :
    (Always (DropOf .socket) ∅ ops ↔
      ¬ Sometime (Client.invoke v) {} us fun pre _ u => StaleSession pre u) ∧
    (Always (DropOf .socket) ∅ ops →
      (ofKind .file (held ∅ ops)).card = us.countP Use.opensFile) := by
  refine ⟨drops_run h hnew, fun hdrops => ?_⟩
  have hfun : Functional (∅ : Finset (Int × DescKind)) :=
    fun x hx => absurd hx (Finset.notMem_empty x)
  have hcard := card_held (k := .file) hfun hnew hdrops
  rw [takes_run h] at hcard
  simpa [ofKind] using hcard

/-- two recorded sessions on sockets of one number, an attempt to connect that fails between them,
and a replay -/
def twoSessions : List Use :=
  [.connectToKernel ⟨5, 0, 0⟩, .enableRecording 6, .run [.sendNextMsg 1 40],
   .connectToKernel ⟨5, 0, -1⟩, .connectToKernel ⟨5, 0, 0⟩, .run [.sendNextMsg 2 40],
   .runRecording .xnu3789 ⟨fun _ => 30, fun _ _ => 0⟩ 7 []]

/-- the kernel gives the number of the socket again, to the record file -/
def staleRun : List Use :=
  [.connectToKernel ⟨5, 0, -1⟩, .enableRecording 5, .run []]

theorem closes_own_iff_twoSessions :
    (∃ c ops, exec (Client.invoke .xnu3789) {} twoSessions = some (c, ops) ∧
      ops.countP (· = .drop 5) = 3 ∧
      (¬ Sometime (Client.invoke .xnu3789) {} twoSessions fun pre _ u => StaleSession pre u) ∧
      (ofKind .file (held ∅ ops)).card = 2) ∧
    ∃ c ops, exec (Client.invoke .xnu3789) {} staleRun = some (c, ops) ∧ held ∅ ops = ∅ ∧
      Sometime (Client.invoke .xnu3789) {} staleRun fun pre _ u => StaleSession pre u := by
  have hrun : (exec (Client.invoke .xnu3789) {} twoSessions).map (fun x => x.2) =
      some [.take 5 .socket, .take 6 .file, .drop 5, .take 5 .socket, .drop 5, .take 5 .socket,
        .drop 5, .take 7 .file] := by decide
  have hstale : (exec (Client.invoke .xnu3789) {} staleRun).map (fun x => x.2) =
      some [.take 5 .socket, .drop 5, .take 5 .file, .drop 5] := by decide
  constructor
  · obtain ⟨⟨c, ops⟩, h, ho⟩ := Option.map_eq_some_iff.mp hrun
    obtain rfl : ops = _ := ho
    obtain ⟨hiff, hfiles⟩ := closes_own_iff h (by decide)
    have hdrops : Always (DropOf DescKind.socket) ∅ [Op.take (5 : Int) DescKind.socket,
        .take 6 .file, .drop 5, .take 5 .socket, .drop 5, .take 5 .socket, .drop 5,
        .take 7 .file] := by decide
    exact ⟨c, _, h, by decide, hiff.mp hdrops, hfiles hdrops⟩
  · obtain ⟨⟨c, ops⟩, h, ho⟩ := Option.map_eq_some_iff.mp hstale
    obtain rfl : ops = _ := ho
    have hdrops : ¬ Always (DropOf .socket) ∅
        [Op.take (5 : Int) DescKind.socket, .drop 5, .take 5 .file, .drop 5] := by decide
    refine ⟨c, _, h, by decide, ?_⟩
    by_contra hn
    exact hdrops ((closes_own_iff h (by decide)).1.mpr hn)

end

end Ntstat
