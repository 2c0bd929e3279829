import Ntstat.Client.Receive
import Ntstat.Kernel.Events
import Ntstat.Laws.Pending
import Ntstat.Laws.Sweeps
import Ntstat.Sources.Since

/-!
# A second session

When `run` returns, the socket is closed and forgotten, but the sources stay in `_map`.

* `Session.toldAgain`, `told`   what the listener is told by a client that had a session before,
                                and by a new one;
* `isolated_of_apart`           they are the same if no step finds a source of the first session;
* `apart_of_about`              none does if all steps are about references that it left no source
                                for;
* `second_session_isolated`     and in every second session exactly if the first one left none.
-/

namespace Ntstat
open Memory Machine Std

/-! ## messages about any reference -/

theorem noName_terminated : ∃ i < 64, Mem.ofVector (Vector.replicate 64 0) i = 0 :=
  ⟨0, by decide, rfl⟩

/-- an IPv4 connection of pid 0 with ports -/
def somePorts : KernelDesc where
  localAddr := Vector.replicate 28 1
  remoteAddr := Vector.replicate 28 1
  ifindex := 0
  states := {}
  pid := 0
  pname := Vector.replicate 64 0
  terminated := noName_terminated

namespace KernelVersion
variable (v : KernelVersion)

/-- a message with its reference replaced -/
def about (s : CStruct MsgMember) (m : Mem) (r : UInt64) : Mem :=
  m.poke (s.offsetOf .srcref) v.structs.srcRefSize r.toNat

def describing (r : UInt64) : Mem :=
  v.about v.structs.srcDescription (v.encode (.desc 0 .udp somePorts)) r

def removing (r : UInt64) : Mem := v.about v.structs.srcRemoved (v.encode (.removed 0)) r

variable {v} {s : CStruct MsgMember} {m : Mem} {r : UInt64}

/-- the reference stands behind the type, and before provider and descriptor -/
theorem srcref_place (v : KernelVersion) : 12 ≤ v.structs.srcRemoved.offsetOf .srcref ∧
    12 ≤ v.structs.srcDescription.offsetOf .srcref ∧
    v.structs.srcDescription.offsetOf .srcref + v.structs.srcRefSize ≤
      v.structs.srcDescription.offsetOf .provider := by
  cases v <;> decide

theorem about_type (hs : 12 ≤ s.offsetOf .srcref) {t : MsgType} (ht : HasType m t) :
    hdrType (v.about s m r) = t := by
  refine hdrType_of_hasType fun i hi => ?_
  rw [← ht i hi]
  exact Mem.poke_of_lt (Or.inl (by rw [hdr_offsets.2.1]; omega))

theorem about_srcref (hr : r.toNat < 256 ^ v.structs.srcRefSize) :
    v.structs.readSrcref s (v.about s m r) = r := by
  unfold KernelStructs.readSrcref about
  rw [readLE_byteOf fun i hi => Mem.poke_at hi, Nat.mod_eq_of_lt hr, UInt64.ofNat_toNat]

theorem removing_reads (hr : r.toNat < 256 ^ v.structs.srcRefSize) (n : Nat) :
    hdrType (v.removing r) = .srcRemoved ∧
      (v.handler.getSrcRef (v.removing r) n (0, 0)).1 = r := by
  obtain ⟨ht, -⟩ := encodes_encode v (.removed 0)
  have htype : hdrType (v.removing r) = .srcRemoved := about_type v.srcref_place.1 ht
  refine ⟨htype, ?_⟩
  rw [v.getSrcRef_removed n _ htype]
  exact about_srcref hr

theorem describing_reads (hr : r.toNat < 256 ^ v.structs.srcRefSize) (n : Nat) :
    hdrType (v.describing r) = .srcDesc ∧
      (v.handler.getSrcRef (v.describing r) n (0, 0)).1 = r ∧
      ∀ dest, v.handler.readSrcDesc (v.describing r) n dest =
        some (true, somePorts.fill .udp dest) := by
  obtain ⟨ht, -, ⟨p, hp, hprov⟩, hd, -⟩ := encodes_encode v (.desc 0 .udp somePorts)
  obtain ⟨-, hs, hafter⟩ := v.srcref_place
  have hdata := v.members.data.2.1
  have htype : hdrType (v.describing r) = .srcDesc := about_type hs ht
  -- provider and descriptor stand behind the reference
  have hbehind : ∀ a, v.structs.srcDescription.offsetOf .srcref + v.structs.srcRefSize ≤ a →
      v.describing r a = v.encode (.desc 0 .udp somePorts) a := fun a ha =>
    Mem.poke_of_lt (Or.inr ha)
  refine ⟨htype, ?_, fun dest => readSrcDesc_encoded ⟨p, hp, fun i hi => ?_⟩ ?_ (by simp) n dest⟩
  · rw [v.getSrcRef_desc n _ htype]
    exact about_srcref hr
  · rw [hbehind _ (by omega)]
    exact hprov i hi
  · have hagree : ∀ {off k : Nat} {m' : Mem}, v.structs.srcDescription.offsetOf .data ≤ off →
        Mem.Agree k ((v.encode (.desc 0 .udp somePorts)).shift off) m' →
        Mem.Agree k ((v.describing r).shift off) m' := by
      intro off k m' hoff h i hi
      rw [← h i hi, Mem.shift_apply, Mem.shift_apply, hbehind _ (by omega)]
    have hdesc : ∀ i, v.structs.srcDescription.offsetOf .data ≤ v.structs.udpOff i :=
      fun i => Nat.le_add_right _ _
    have hholds : ∀ {i : DescMember} {k x : Nat},
        Mem.Holds (v.encode (.desc 0 .udp somePorts)) (v.structs.udpOff i) k x →
        Mem.Holds (v.describing r) (v.structs.udpOff i) k x := by
      intro i k x h j hj
      have hoff := hdesc i
      rw [← h j hj, hbehind _ (by omega)]
    exact ⟨hagree (hdesc _) hd.localAddr, hagree (hdesc _) hd.remoteAddr, hholds hd.ifindex,
      hholds hd.pid, hagree (hdesc _) hd.pname⟩

end KernelVersion

/-! ## two sessions of one client -/

namespace Session
variable (S : Session)

/-- the same client, stopped, and at the loop of `run` again; the socket is a new one -/
def again (c : Client) (fd : Int) : Client × List Effect :=
  (c.stop.endRun.connectToKernel fd).beginRun S.handler

/-- what the listener is told in a second session -/
def toldAgain (c : Client) (fd : Int) (steps : List Step) : Option (List Call) :=
  (exec S.step (S.again c fd).1 steps).map fun x => calls ((S.again c fd).2 ++ x.2)

/-- what a newly constructed client with the same configuration tells it -/
def told (fd : Int) (steps : List Step) : Option (List Call) :=
  let start := Client.live S.handler S.cfg fd
  (exec S.step start.1 steps).map fun x => calls (start.2 ++ x.2)

/-- some step of the second session finds a source of the first one: a message is about it, or it is
added again before it was removed -/
def FindsOld (c : Client) (fd : Int) (steps : List Step) : Prop :=
  Sometime S.step (S.again c fd).1 steps fun _ c1 st =>
    c1.sources.Meets c.next (st.input S.handler)

variable {S} {steps steps2 : List Step} {c : Client} {effs : List Effect} {fd : Int}

/-- `run` begins with the sources that are there, and calls no one -/
theorem again_sources (S : Session) (c : Client) (fd : Int) :
    (S.again c fd).1.sources = c.sources ∧ callbacks (S.again c fd).2 = [] :=
  Prod.mk.inj (Client.quiet_beginRun S.handler)

/-- what the listener is told, by the tracker -/
theorem told_of_start {x : Client × List Effect} (h : callbacks x.2 = []) :
    ((exec S.step x.1 steps).map fun y => calls (x.2 ++ y.2)) =
      (exec Sources.step x.1.sources (steps.map (Step.input S.handler))).map fun y =>
        y.2.map Prod.snd := by
  rw [← run_refines, Option.map_map]
  refine congrArg (fun f => Option.map f (exec S.step x.1 steps)) (funext fun y => ?_)
  rw [calls_append]
  unfold calls
  rw [h]
  rfl

theorem told_eq : S.told fd steps =
    (exec Sources.step {} (steps.map (Step.input S.handler))).map fun y => y.2.map Prod.snd := by
  have hstart : callbacks (Client.live S.handler S.cfg fd).2 = [] :=
    (Prod.mk.inj (Client.quiet_beginRun S.handler)).2
  rw [← live_sources S.handler S.cfg fd]
  exact told_of_start hstart

theorem toldAgain_eq : S.toldAgain c fd steps =
    (exec Sources.step c.sources (steps.map (Step.input S.handler))).map fun y =>
      y.2.map Prod.snd := by
  obtain ⟨hs, hp⟩ := again_sources S c fd
  rw [← hs]
  exact told_of_start hp

/-- **If no step finds a source of the first session, the second one is as with a new client.** -/
theorem isolated_of_apart (h : S.run steps = some (c, effs)) (hm : ¬ S.FindsOld c fd steps2) :
    S.toldAgain c fd steps2 = S.told fd steps2 := by
  have hc := (session_life h).1
  have hmeets : ¬ Sometime Sources.step c.sources (steps2.map (Step.input S.handler))
      fun _ s i => s.Meets c.next i := by
    rw [← (again_sources S c fd).1]
    exact fun hs => hm ((sometime_map (Q := fun _ s i => s.Meets c.next i) step_refines).mpr hs)
  have hrun := Sources.since_run (n := c.next) (Nat.le_refl _) hmeets
  rw [show c.next = c.sources.next from rfl, Sources.since_next hc] at hrun
  rw [told_eq, toldAgain_eq, hrun, Option.map_map]
  refine congrArg (fun f => Option.map f (exec Sources.step c.sources _)) (funext fun y => ?_)
  simp

/-- steps about references that the first session left no source for find none of its sources -/
theorem apart_of_about (h : ∀ st ∈ steps2, ∀ k, (st.input S.handler).about = some k →
    c.map[k]? = none) : ¬ S.FindsOld c fd steps2 := by
  have hs := (again_sources S c fd).1
  have hnext : c.next ≤ (S.again c fd).1.sources.next := by
    rw [hs]
    exact Nat.le_refl _
  have hapart : ¬ Sometime Sources.step (S.again c fd).1.sources
      (steps2.map (Step.input S.handler)) fun _ s i => s.Meets c.next i := by
    refine Sources.run_apart hnext fun i hi r hr p hp => ?_
    obtain ⟨st, hst, rfl⟩ := List.mem_map.mp hi
    rw [hs] at hp
    exact absurd ((h st hst r hr).symm.trans hp) (Option.some_ne_none p).symm
  exact fun hex =>
    hapart ((sometime_map (Q := fun _ s i => s.Meets c.next i) step_refines).mp hex)

/-- a description and a removal of the source `k` -/
def describeAndRemove (v : KernelVersion) (k : UInt64) : List Step :=
  [.readNextMessage 1 1 (v.describing k) 2048, .readNextMessage 1 1 (v.removing k) 2048]

theorem describeAndRemove_inputs {v : KernelVersion} {k : UInt64}
    (hk : k.toNat < 256 ^ v.structs.srcRefSize) :
    (describeAndRemove v k).map (Step.input v.handler) =
      [.message k (.desc (v.handler.readSrcDesc (v.describing k) 2048)),
       .message k (.removed 1)] := by
  obtain ⟨ht, hr, -⟩ := v.describing_reads hk 2048
  obtain ⟨ht', hr'⟩ := v.removing_reads hk 2048
  have h1 : messageInput v.handler 1 (v.describing k) 2048 =
      .message k (.desc (v.handler.readSrcDesc (v.describing k) 2048)) := by
    unfold messageInput
    rw [ht]
    dsimp only
    rw [hr]
  have h2 : messageInput v.handler 1 (v.removing k) 2048 = .message k (.removed 1) := by
    unfold messageInput
    rw [ht']
    dsimp only
    rw [hr']
  rw [← h1, ← h2]
  rfl

theorem somePorts_key (dest : NTStatStream) :
    (NetstatSource.fixName (somePorts.fill .udp dest)).key.noPorts = false := by
  rw [NetstatSource.fixName_key]
  rfl

/-- the removal of a source with ports is told -/
theorem step_removed_ports {s : Sources} {k : UInt64} {p : Ptr} (hm : s.map k = some p)
    (hports : (s.heap p).obj.key.noPorts = false) (now : Time) :
    ∃ s', s.step (.message k (.removed now)) =
      some (s', [(p, .onStreamRemoved, (s.heap p).obj)]) := by
  have happ : SrcEvent.apply (.removed now) (s.heap p) =
      some ({ s.heap p with tsRemoved := now }, [(.onStreamRemoved, (s.heap p).obj)]) := by
    show some ((s.heap p).removed now) = _
    unfold NetstatSource.removed
    rw [hports]
    rfl
  rw [Sources.step_message_some s _ hm, happ, Option.map_some]
  exact ⟨_, rfl⟩

/-- the listener is told of a source that the first session left -/
theorem told_of_old (h : S.run steps = some (c, effs)) {k : UInt64} {p : Ptr}
    (hm : c.map[k]? = some p) :
    S.toldAgain c fd (describeAndRemove S.version k) ≠
      S.told fd (describeAndRemove S.version k) := by
  have hk := run_fits h k p hm
  obtain ⟨-, -, hread⟩ := S.version.describing_reads hk 2048
  rw [told_eq, toldAgain_eq, describeAndRemove_inputs hk]
  have hmap : c.sources.map k = some p := hm
  -- a new client knows nothing of the source
  have hnew : exec Sources.step {} [.message k (.desc (S.version.handler.readSrcDesc
      (S.version.describing k) 2048)), .message k (.removed 1)] = some ({}, []) := rfl
  -- the old object is described, and its removal is told
  have hdesc : SrcEvent.apply (.desc (S.version.handler.readSrcDesc (S.version.describing k) 2048))
      (c.sources.heap p) = some ((c.heap p).described (somePorts.fill .udp (c.heap p).obj)) := by
    show (S.version.handler.readSrcDesc _ 2048 (c.heap p).obj).map _ = _
    rw [hread]
    rfl
  have h1 := Sources.step_message_some c.sources
    (.desc (S.version.handler.readSrcDesc (S.version.describing k) 2048)) hmap
  rw [hdesc, Option.map_some] at h1
  generalize hx : (c.heap p).described (somePorts.fill .udp (c.heap p).obj) = x at h1
  generalize hs1 : Sources.mk _ _ _ = s1 at h1
  have hheap : s1.heap p = x.1 := by
    rw [← hs1]
    exact Function.update_self ..
  have hmap1 : s1.map k = some p := by
    rw [← hs1]
    exact hmap
  have hports : (s1.heap p).obj.key.noPorts = false := by
    rw [hheap, ← hx]
    exact somePorts_key _
  obtain ⟨s2, h2⟩ := step_removed_ports hmap1 hports 1
  have hold := exec_cons.mpr ⟨s1, _, _, h1, exec_single.mpr h2, rfl⟩
  rw [hnew, hold]
  simp

/-- **A second session is as with a new client if no step finds a source of the first session;
every second session is so exactly if the first one left no source in the map.** -/
theorem second_session_isolated (h : S.run steps = some (c, effs)) (fd : Int) :
    (∀ steps2, ¬ S.FindsOld c fd steps2 → S.toldAgain c fd steps2 = S.told fd steps2) ∧
      ((∀ steps2, S.toldAgain c fd steps2 = S.told fd steps2) ↔
        ∀ k : UInt64, c.map[k]? = none) := by
  refine ⟨fun steps2 hm => isolated_of_apart h hm, ?_⟩
  constructor
  · intro hall k
    cases hk : c.map[k]? with
    | none => rfl
    | some p => exact absurd (hall _) (told_of_old h hk)
  · intro hempty steps2
    exact isolated_of_apart h (apart_of_about fun _ _ k _ => hempty k)

/-- a source is added and described -/
def addedDescribed : List Step :=
  [.readNextMessage 1 1 (structs3789.addedMsg 7 4) 28,
   .readNextMessage 2 2 (structs3789.udpDescMsg 7 4 80 81) 248]

/-- another source is added, described and removed -/
def anotherSource : List Step :=
  [.readNextMessage 3 3 (structs3789.addedMsg 8 4) 28,
   .readNextMessage 4 4 (structs3789.udpDescMsg 8 4 80 81) 248,
   .readNextMessage 5 5 (structs3789.removedMsg 8) 24]

theorem second_session_isolated_addedDescribed : ∃ c effs,
    session3789.run addedDescribed = some (c, effs) ∧ c.map[(7 : UInt64)]? = some 0 ∧
    ¬ session3789.FindsOld c 4 anotherSource ∧
    session3789.toldAgain c 4 anotherSource = session3789.told 4 anotherSource ∧
    (session3789.told 4 anotherSource).map (List.map Prod.fst) =
      some [.onStreamAdded, .onStreamRemoved] ∧
    ¬ ∀ steps2, session3789.toldAgain c 4 steps2 = session3789.told 4 steps2 := by
  have hrun : (session3789.run addedDescribed).map
      (fun x => (x.1.map[(7 : UInt64)]?, x.1.map[(8 : UInt64)]?)) = some (some 0, none) := by
    decide
  obtain ⟨⟨c, effs⟩, h, he⟩ := Option.map_eq_some_iff.mp hrun
  obtain ⟨h7, h8⟩ := Prod.mk.inj he
  have habout : ∀ st ∈ anotherSource, (st.input session3789.handler).about = some 8 := by
    decide
  have hapart : ¬ session3789.FindsOld c 4 anotherSource := by
    refine apart_of_about fun st hst k hk => ?_
    obtain rfl : 8 = k := Option.some.inj ((habout st hst).symm.trans hk)
    exact h8
  obtain ⟨hsame, hall⟩ := second_session_isolated h 4
  refine ⟨c, effs, h, h7, hapart, hsame _ hapart, by decide, fun h' => ?_⟩
  exact absurd (h7.symm.trans (hall.mp h' 7)) (by decide)

/-- the same messages once more: the source is not announced -/
theorem not_isolated_addedDescribed : ∃ c effs,
    session3789.run addedDescribed = some (c, effs) ∧
    (session3789.told 4 addedDescribed).map (List.map Prod.fst) = some [.onStreamAdded] ∧
    session3789.toldAgain c 4 addedDescribed = some [] ∧
    session3789.toldAgain c 4 addedDescribed ≠ session3789.told 4 addedDescribed := by
  have hrun : (session3789.run addedDescribed).map (fun x =>
      session3789.toldAgain x.1 4 addedDescribed) = some (some []) := by decide
  have hnew : (session3789.told 4 addedDescribed).map (List.map Prod.fst) =
      some [.onStreamAdded] := by decide
  obtain ⟨⟨c, effs⟩, h, he⟩ := Option.map_eq_some_iff.mp hrun
  refine ⟨c, effs, h, hnew, he, fun heq => ?_⟩
  rw [← heq, he] at hnew
  exact absurd hnew (by decide)

end Session

end Ntstat
