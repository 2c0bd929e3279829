import Ntstat.Client.Receive
import Ntstat.Laws.Sweeps

/-!
# Stopping

* `RunDefined`, `runDefined_of_defined`   nothing that `run` handles has undefined behaviour;
* `defined_of_complete`   complete messages have none;
* `run_returns_iff`   `run` returns after `stop` exactly if in every round the socket is found not
                      readable some time.
-/

namespace Ntstat
open Memory Machine Std

/-- handling what is read has a defined result, whatever the client -/
def ControlSocket.Defined (H : NTStatKernelStructHandler) (s : ControlSocket) : Prop :=
  ∀ (c : Client) n, ∃ c' effs, c.readIncoming H (s.read n) = some (c', effs)

/-- each read gives nothing or a complete message -/
def ControlSocket.Complete (v : KernelVersion) (s : ControlSocket) : Prop :=
  ∀ n, (Step.readNextMessage (s.read n).now (s.read n).timestamp (s.read n).buf
    (s.read n).numBytes).Complete v

theorem defined_of_complete {v : KernelVersion} {s : ControlSocket} (h : s.Complete v) :
    s.Defined v.handler := by
  intro c n
  obtain ⟨s', shown, hs⟩ := c.sources.sound_step (input_sound (h n))
  obtain ⟨c', effs, hst, -, -⟩ := step_of_sources hs
  exact ⟨c', effs, hst⟩

variable {H : NTStatKernelStructHandler} {s : ControlSocket}

theorem readable_iff {n : Nat} : s.readable n = false ↔ s.select n ≤ 0 := by
  unfold ControlSocket.readable haveIncomingMessage
  rw [decide_eq_false_iff_not, Int.not_lt]

/-- nothing that the loop handles has undefined behaviour -/
def Client.ReadsDefined (H : NTStatKernelStructHandler) (s : ControlSocket) (c : Client) : Prop :=
  ∀ fuel, c.receiveLoop H s fuel ≠ none

/-- nothing that `run` handles has undefined behaviour -/
def RunDefined (H : NTStatKernelStructHandler) (x : Timers × Client) (rounds : List LiveRound) :
    Prop :=
  ∀ fuel, runLoop H fuel x rounds ≠ none

/-- **The loop that reads ends exactly if the socket is found not readable some time.** -/
theorem receives_iff (s : ControlSocket) (c : Client) :
    c.Receives H s ↔ (∃ n, s.select n ≤ 0) ∧ c.ReadsDefined H s := by
  have h : c.Receives H s ↔ (∃ n, s.readable n = false) ∧ c.ReadsDefined H s := ends_iff_fails
  rw [h]
  exact and_congr_left fun _ => exists_congr fun n => readable_iff

/-- messages that can be handled have no undefined behaviour -/
theorem runDefined_of_defined {rounds : List LiveRound} (hd : ∀ r ∈ rounds, r.socket.Defined H)
    (x : Timers × Client) : RunDefined H x rounds := by
  intro fuel
  induction rounds generalizing x with
  | nil => exact Option.some_ne_none _
  | cons r rounds ih =>
    obtain ⟨⟨⟨t, c⟩, e1⟩, h1⟩ : ∃ y, round H x (r.heard 0) = some y := ⟨_, rfl⟩
    obtain ⟨⟨⟨b, c1⟩, e2⟩, h2⟩ : ∃ z, c.receiveLoop H r.socket fuel = some z :=
      loop_defined (hd r List.mem_cons_self) fuel 0 c
    obtain ⟨w, hw⟩ := Option.ne_none_iff_exists'.mp
      (ih (fun r' hr' => hd r' (List.mem_cons_of_mem _ hr')) (t, c1))
    rw [runLoop, liveRound, h1, Option.bind_some, h2, Option.map_some, Option.bind_some]
    dsimp only
    split
    · rw [hw]
      exact Option.some_ne_none _
    · exact Option.some_ne_none _

/-- one number of iterations is enough for all rounds -/
theorem exists_fuel {rounds : List LiveRound} (h : ∀ r ∈ rounds, ∃ n, r.socket.select n ≤ 0) :
    ∃ fuel, ∀ r ∈ rounds, ∃ n < fuel, r.socket.readable n = false := by
  induction rounds with
  | nil => exact ⟨0, fun r hr => absurd hr List.not_mem_nil⟩
  | cons r rounds ih =>
    obtain ⟨fuel, hfuel⟩ := ih fun r' hr' => h r' (List.mem_cons_of_mem _ hr')
    obtain ⟨n, hn⟩ := h r List.mem_cons_self
    refine ⟨max (n + 1) fuel, fun r' hr' => ?_⟩
    rcases List.mem_cons.mp hr' with rfl | hr'
    · exact ⟨n, lt_max_of_lt_left (Nat.lt_succ_self n), readable_iff.mpr hn⟩
    · obtain ⟨m, hm, hf⟩ := hfuel r' hr'
      exact ⟨m, lt_max_of_lt_right hm, hf⟩

theorem exists_of_forall₂ {α β : Type*} {R : α → β → Prop} {l : List α} {l' : List β}
    (h : List.Forall₂ R l l') {a : α} (ha : a ∈ l) : ∃ b, R a b := by
  induction h with
  | nil => cases ha
  | @cons x y _ _ hxy _ ih =>
    rcases List.mem_cons.mp ha with rfl | ha
    · exact ⟨y, hxy⟩
    · exact ih ha

/-- **`run` returns after `stop` exactly if in every round the socket is found not readable some
time**, and its inner loop ends exactly if it is; what `read` gives does not matter. -/
theorem run_returns_iff (H : NTStatKernelStructHandler) (x : Timers × Client)
    (rounds : List LiveRound) :
    (∀ (s : ControlSocket) (c : Client), c.Receives H s ↔
      (∃ n, s.select n ≤ 0) ∧ c.ReadsDefined H s) ∧
    (Returns H x rounds ↔
      (∀ r ∈ rounds, ∃ n, r.socket.select n ≤ 0) ∧ RunDefined H x rounds) := by
  refine ⟨receives_iff, ?_⟩
  constructor
  · intro hex
    obtain ⟨fuel, c', effs, h⟩ := hex
    refine ⟨fun r hr => ?_, runLoop_fuel h⟩
    obtain ⟨rs, t, c, hall, -, -⟩ := runLoop_returned.mp h
    obtain ⟨r', n, -, hs, -⟩ := exists_of_forall₂ hall hr
    exact ⟨0 + n, readable_iff.mp hs.stops⟩
  · intro hand
    obtain ⟨hsel, hdef⟩ := hand
    obtain ⟨fuel, hfuel⟩ := exists_fuel hsel
    obtain ⟨⟨⟨b, c'⟩, effs⟩, h⟩ := Option.ne_none_iff_exists'.mp (hdef fuel)
    cases b with
    | true => exact ⟨fuel, c', effs, h⟩
    | false =>
      -- a round that was cut off went on for longer than its socket was readable
      obtain ⟨r, hr, hgoes⟩ := runLoop_cut h
      obtain ⟨n, hn, hf⟩ := hfuel r hr
      exact absurd (hf.symm.trans (hgoes n hn)) Bool.false_ne_true

namespace Session

/-- one message waits, then nothing -/
def oneMessage : ControlSocket where
  select := fun n => if n = 0 then 1 else 0
  read := fun _ => ⟨1, 1, structs3789.removedMsg 7, 24⟩

theorem run_returns_oneMessage :
    Returns session3789.handler (⟨0, 0⟩, session3789.start) [⟨0, 0, 0, 24, oneMessage⟩] := by
  have hcomplete : oneMessage.Complete .xnu3789 := by
    intro n
    exact Or.inr ⟨Int.one_pos, (by decide : (16 : Int) ≤ 24), (by decide : (24 : Int) ≤ 2048),
      removedMsg_received⟩
  have hd : ∀ r ∈ [LiveRound.mk 0 0 0 24 oneMessage], r.socket.Defined session3789.handler := by
    intro r hr
    obtain rfl := List.mem_singleton.mp hr
    exact defined_of_complete hcomplete
  have hselect : ∀ r ∈ [LiveRound.mk 0 0 0 24 oneMessage], ∃ n, r.socket.select n ≤ 0 := by
    intro r hr
    obtain rfl := List.mem_singleton.mp hr
    exact ⟨1, Int.le_refl 0⟩
  exact (run_returns_iff _ _ _).2.mpr ⟨hselect, runDefined_of_defined hd _⟩

/-- the other side is gone: the socket is readable for ever, and every `read` returns 0 -/
def hungUp : ControlSocket where
  select := fun _ => 1
  read := fun _ => ⟨0, 0, fun _ => 0, 0⟩

/-- no message comes, but `run` does not return -/
theorem not_returns_hungUp : (∀ n, (hungUp.read n).numBytes ≤ 0) ∧
    ¬ session3789.start.Receives session3789.handler hungUp ∧
    ¬ Returns session3789.handler (⟨0, 0⟩, session3789.start) [⟨0, 0, 0, 24, hungUp⟩] := by
  have hnever : ∀ n, ¬ Stops hungUp.readable 0 n := by
    intro n hs
    have htrue : hungUp.readable (0 + n) = true := rfl
    exact absurd (hs.stops.symm.trans htrue) Bool.false_ne_true
  refine ⟨fun n => Int.le_refl 0, fun h => ?_, fun h => ?_⟩
  · obtain ⟨n, _, _, hs, -⟩ := ends_iff.mp h
    exact hnever n hs
  · obtain ⟨fuel, c', effs, h⟩ := h
    obtain ⟨rs, t, c, hall, -, -⟩ := runLoop_returned.mp h
    obtain ⟨r', n, -, hs, -⟩ := exists_of_forall₂ hall List.mem_cons_self
    exact hnever n hs

end Session

end Ntstat
