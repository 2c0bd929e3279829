import Ntstat.Kernel.Contents
import Ntstat.Laws.Announce
import Ntstat.Sources.History

/-!
# What a stream shows

* `handled`, `creator`, `description`   the messages of a run that are about an object;
* `ObjectStep`, `object_step`           what a step does to the stream of an object, in terms of the
                                        bytes of its message;
* `Filled`, `run_filled`                the stream of every object after a run;
* `snapshot`                            so every call shows what the messages so far said.
-/

namespace Ntstat
open Memory Machine

/-! ## the stream that a description leaves -/

/-- the stream shows key, pid and name of the description; pid 0 has a name of its own -/
structure KernelVersion.Tells (v : KernelVersion) (proto : Proto) (msg : Mem)
    (stream : NTStatStream) : Prop where
  key : (v.place proto).Key msg proto.ipproto stream.key
  pid : stream.process.pid = u32 msg (v.place proto).pid
  name : cstring (Mem.ofVector stream.process.name) 64 =
    if u32 msg (v.place proto).pid = 0 then cstring kernelTask 64
    else cstring (msg.shift (v.place proto).pname) 64

namespace NetstatSource

theorem fixName_pid (obj : NTStatStream) : (fixName obj).process.pid = obj.process.pid := by
  unfold fixName
  split
  · exact NTStatStream.writeName_pid ..
  · rfl

theorem fixName_name (obj : NTStatStream) :
    cstring (Mem.ofVector (fixName obj).process.name) 64 =
      if obj.process.pid = 0 then cstring kernelTask 64
      else cstring (Mem.ofVector obj.process.name) 64 := by
  unfold fixName
  by_cases hp : obj.process.pid = 0
  · rw [if_pos (beq_iff_eq.mpr hp), if_pos hp, NTStatStream.writeName_of_le (by decide)]
    exact cstring_overwrite (l := 11) _ (by decide) (by decide)
  · rw [if_neg (by simpa using hp), if_neg hp]

end NetstatSource

section
variable {v : KernelVersion} {proto : Proto} {msg : Mem} {stream : NTStatStream}

/-- the name of pid 0 may be written again -/
theorem KernelVersion.Tells.fixName (h : v.Tells proto msg stream) :
    v.Tells proto msg (NetstatSource.fixName stream) := by
  refine ⟨by rw [NetstatSource.fixName_key]; exact h.key,
    (NetstatSource.fixName_pid stream).trans h.pid, ?_⟩
  rw [NetstatSource.fixName_name, h.pid, h.name]
  split <;> rfl

/-- other counters -/
theorem KernelVersion.Tells.stats (h : v.Tells proto msg stream) (stats : NTStatCounters) :
    v.Tells proto msg { stream with stats } := ⟨h.key, h.pid, h.name⟩

/-- **A description that is read.** -/
theorem described_tells {n : Nat} {dest d : NTStatStream} {b : Bool} (hend : v.NameEnds msg)
    (hp : v.protoOf msg = some proto) (h : v.handler.readSrcDesc msg n dest = some (b, d)) :
    b = true ∧ v.Tells proto msg (NetstatSource.fixName d) ∧ d.id = dest.id ∧
      d.stats = dest.stats ∧
      d.states = if proto = .tcp then v.structs.tcpStates msg else dest.states := by
  rw [readSrcDesc_of_proto hp] at h
  obtain ⟨d', hd, he⟩ := Option.map_eq_some_iff.mp h
  obtain ⟨rfl, rfl⟩ := Prod.mk.inj he
  obtain ⟨hid, hstats, hstates, hkey, hpid, hname⟩ := readDescAt_leaves (hend proto hp) hd
  refine ⟨rfl, ⟨by rw [NetstatSource.fixName_key]; exact hkey,
    (NetstatSource.fixName_pid d').trans hpid, ?_⟩, hid, hstats, hstates⟩
  rw [NetstatSource.fixName_name, hpid]
  by_cases h0 : u32 msg (v.place proto).pid = 0
  · rw [if_pos h0, if_pos h0]
  · rw [if_neg h0, if_neg h0, hname h0]

end

/-- the name of a description that the step reads ends inside `pname` -/
def Step.NameEnds (v : KernelVersion) : Step → Prop
  | readNextMessage _ _ buf n => 0 < n → hdrType buf = .srcDesc → v.NameEnds buf
  | _ => True

namespace Session
variable (S : Session)

/-! ## the messages about an object -/

/-- the message, if it has type `t` and is handled for `p` -/
def handled (t : MsgType) (p : Ptr) (c : Client) : Step → Option Mem
  | .readNextMessage _ _ buf n =>
    if 0 < n ∧ hdrType buf = t ∧ c.map[(S.handler.getSrcRef buf n.toNat (0, 0)).1]? = some p then
      some buf
    else none
  | _ => none

/-- the reference, if the step is the SRC_ADDED that makes `p` -/
def creator (p : Ptr) (c : Client) : Step → Option UInt64
  | .readNextMessage _ _ buf n =>
    if 0 < n ∧ hdrType buf = .srcAdded ∧ p = c.next ∧
        (c.map[(S.handler.getSrcRef buf n.toNat (0, 0)).1]?).all fun q => (c.heap q).tsRemoved > 0
    then some (S.handler.getSrcRef buf n.toNat (0, 0)).1 else none
  | _ => none

/-- a TCP or UDP description of `p` -/
def description (p : Ptr) (c : Client) (st : Step) : Option (Proto × Mem) :=
  (S.handled .srcDesc p c st).bind fun msg => (S.version.protoOf msg).map fun proto => (proto, msg)

def tcpDescription (p : Ptr) (c : Client) (st : Step) : Option Mem :=
  (S.description p c st).bind fun x => if x.1 = .tcp then some x.2 else none

/-- the last thing that the run found -/
def last {α : Type} (q : Client → Step → Option α) (steps : List Step) : Option α :=
  latest S.step q S.start steps

/-- the stream shows what the messages of the run say about `p` -/
structure Snapshot (steps : List Step) (p : Ptr) (stream : NTStatStream) : Prop where
  id : S.last (S.creator p) steps = some stream.id
  stats : stream.stats = ((S.last (S.handled .srcCounts p) steps).map S.version.countersOf).getD {}
  states : stream.states =
    ((S.last (S.tcpDescription p) steps).map S.version.structs.tcpStates).getD {}
  desc : ∃ proto msg, S.last (S.description p) steps = some (proto, msg) ∧
    S.version.Tells proto msg stream

/-! ## one step -/

/-- the ways in which a step changes the stream of `p` -/
inductive ObjectStep (p : Ptr) (c : Client) (st : Step) : NTStatStream → Prop
  | same (hc : S.creator p c st = none) (hd : S.description p c st = none)
    (hn : S.handled .srcCounts p c st = none) : ObjectStep p c st (c.heap p).obj
  | made {r} (hc : S.creator p c st = some r) (hd : S.description p c st = none)
    (hn : S.handled .srcCounts p c st = none) (h0 : (c.heap p).obj = {}) :
    ObjectStep p c st { id := r }
  | described {proto msg d} (hc : S.creator p c st = none)
    (hd : S.description p c st = some (proto, msg)) (hn : S.handled .srcCounts p c st = none)
    (ht : S.version.Tells proto msg d) (hid : d.id = (c.heap p).obj.id)
    (hstats : d.stats = (c.heap p).obj.stats) (hstates : d.states =
      if proto = .tcp then S.version.structs.tcpStates msg else (c.heap p).obj.states) :
    ObjectStep p c st d
  | renamed (hc : S.creator p c st = none) (hd : S.description p c st = none)
    (hn : S.handled .srcCounts p c st = none) :
    ObjectStep p c st (NetstatSource.fixName (c.heap p).obj)
  | counted {msg n} (hc : S.creator p c st = none) (hd : S.description p c st = none)
    (hn : S.handled .srcCounts p c st = some msg) : ObjectStep p c st
      { (c.heap p).obj with stats := S.handler.readCounts msg n (c.heap p).obj.stats }

variable {S} {steps : List Step} {c c' : Client} {st : Step} {effs : List Effect} {p : Ptr}

theorem creator_iff {r : UInt64} :
    S.creator p c st = some r ↔ ∃ now, c.sources.Creates (st.input S.handler) p now r := by
  constructor
  · intro h
    unfold creator at h
    split at h
    · next now _ buf n =>
      split at h
      · next hx =>
        obtain ⟨hn, ht, hp, hall⟩ := hx
        obtain rfl := Option.some.inj h
        refine ⟨now, (S.handler.getSrcRef buf n.toNat (0, 0)).2, ?_, ?_, hp⟩
        · rw [Step.input, if_neg (by omega), messageInput, ht]
        · intro q hq
          rw [Client.map_sources] at hq
          rw [hq] at hall
          exact of_decide_eq_true hall
      · cases h
    · cases h
  · intro hex
    obtain ⟨now, prov, hi, hv, hp⟩ := hex
    obtain ⟨_, buf, n, rfl, hn, ht, hr⟩ := added_of_input hi
    unfold creator
    dsimp only
    rw [hr, if_pos]
    refine ⟨hn, ht, hp, ?_⟩
    cases hm : c.map[r]? with
    | none => rfl
    | some q => exact decide_eq_true (hv q hm)

theorem not_creator (hn : ∀ now r, ¬ c.sources.Creates (st.input S.handler) p now r) :
    S.creator p c st = none := by
  rw [Option.eq_none_iff_forall_not_mem]
  intro r hr
  obtain ⟨now, hx⟩ := creator_iff.mp hr
  exact hn now r hx

/-- a message that is handled for `p`, and what of it is heard -/
theorem handled_of_handles {e : SrcEvent} (h : c.sources.Handles (st.input S.handler) p e) :
    S.creator p c st = none ∧
    ((∃ now, e = .removed now) ∧ S.handled .srcDesc p c st = none ∧
        S.handled .srcCounts p c st = none ∨
      (∃ msg n, e = .desc (S.handler.readSrcDesc msg n) ∧ S.handled .srcDesc p c st = some msg ∧
        S.handled .srcCounts p c st = none ∧ (st.NameEnds S.version → S.version.NameEnds msg)) ∨
      ∃ now msg n, e = .counts now (S.handler.readCounts msg n) ∧
        S.handled .srcDesc p c st = none ∧ S.handled .srcCounts p c st = some msg) := by
  obtain ⟨r, hi, hm⟩ := h
  have hcr : S.creator p c st = none := not_creator fun now r' hx => by
    obtain ⟨prov, hi', -⟩ := hx
    rw [hi'] at hi
    cases hi
  obtain ⟨now, _, buf, n, rfl, hn, rfl, hcases⟩ := message_of_input hi
  rw [Client.map_sources] at hm
  refine ⟨hcr, ?_⟩
  unfold handled
  rcases hcases with ⟨ht, rfl⟩ | ⟨ht, rfl⟩ | ⟨ht, rfl⟩
  · exact Or.inl ⟨⟨now, rfl⟩, by simp [ht], by simp [ht]⟩
  · exact Or.inr (Or.inl ⟨buf, n.toNat, rfl, by simp [ht, hn, hm], by simp [ht],
      fun h => h hn ht⟩)
  · exact Or.inr (Or.inr ⟨now, buf, n.toNat, rfl, by simp [ht], by simp [ht, hn, hm]⟩)

/-- a message that is heard is handled -/
theorem handles_of_handled {t : MsgType} {msg : Mem} (ht : t = .srcDesc ∨ t = .srcCounts)
    (h : S.handled t p c st = some msg) : ∃ e, c.sources.Handles (st.input S.handler) p e := by
  unfold handled at h
  split at h
  · next now _ buf n =>
    split at h
    · next hx =>
      obtain ⟨hn, hty, hm⟩ := hx
      rw [Step.input, if_neg (by omega), messageInput, hty]
      rcases ht with rfl | rfl
      · exact ⟨_, _, rfl, hm⟩
      · exact ⟨_, _, rfl, hm⟩
    · cases h
  · cases h

/-- a step that is no message for `p` -/
theorem unhandled (hn : ∀ e, ¬ c.sources.Handles (st.input S.handler) p e) :
    S.description p c st = none ∧ S.handled .srcCounts p c st = none := by
  have hnone : ∀ t, t = .srcDesc ∨ t = .srcCounts → S.handled t p c st = none := by
    intro t ht
    rw [Option.eq_none_iff_forall_not_mem]
    intro msg hm
    obtain ⟨e, he⟩ := handles_of_handled ht hm
    exact hn e he
  refine ⟨?_, hnone _ (Or.inr rfl)⟩
  unfold description
  rw [hnone _ (Or.inl rfl)]
  rfl

/-- a SRC_DESC for the object: of TCP or UDP it is told, and another one may write the name again -/
theorem object_desc {msg : Mem} {n : Nat} {b : Bool} {d : NTStatStream}
    (hc : S.creator p c st = none) (hd : S.handled .srcDesc p c st = some msg)
    (hn : S.handled .srcCounts p c st = none) (hend : S.version.NameEnds msg)
    (hr : S.handler.readSrcDesc msg n (c.heap p).obj = some (b, d)) :
    S.ObjectStep p c st (if b then NetstatSource.fixName d else d) := by
  cases hp : S.version.protoOf msg with
  | some proto =>
    obtain ⟨rfl, htell, hid, hstats, hstates⟩ := described_tells hend hp hr
    refine .described hc (by unfold description; rw [hd, Option.bind_some, hp]; rfl) hn htell
      ?_ ?_ ?_
    · exact (NetstatSource.fixName_id d).trans hid
    · exact (NetstatSource.fixName_stats d).trans hstats
    · exact (NetstatSource.fixName_states d).trans hstates
  | none =>
    have hd' : S.description p c st = none := by
      unfold description
      rw [hd, Option.bind_some, hp]
      rfl
    rw [readSrcDesc_of_other hp] at hr
    obtain ⟨-, rfl⟩ := Prod.mk.inj (Option.some.inj hr)
    cases b with
    | true => exact .renamed hc hd' hn
    | false => exact .same hc hd' hn

/-- **What a step does to the stream of an object.** -/
theorem object_step (hc : c.sources.Coherent) (hend : st.NameEnds S.version)
    (hst : S.step c st = some (c', effs)) (p : Ptr) : S.ObjectStep p c st (c'.heap p).obj := by
  have ha := Sources.step_act (step_sources hst) p
  have hcreator : (∀ now r prov, c.sources.act p (st.input S.handler) ≠ .alloc now r prov) →
      S.creator p c st = none := fun hn => not_creator fun now r hx => by
    obtain ⟨prov, hx⟩ := hx
    exact hn now r prov (Sources.act_alloc_iff.mpr hx)
  have hquiet : (∀ e, c.sources.act p (st.input S.handler) ≠ .event e) →
      S.description p c st = none ∧ S.handled .srcCounts p c st = none := fun hn =>
    unhandled fun e he => hn e (Sources.act_event.mpr he)
  show S.ObjectStep p c st (c'.sources.heap p).obj
  generalize c'.sources.heap p = t at ha ⊢
  cases hact : c.sources.act p (st.input S.handler) with
  | keep =>
    obtain ⟨hd, hn⟩ := hquiet (by simp [hact])
    rw [hact] at ha
    obtain ⟨rfl, -⟩ := Prod.mk.inj (Option.some.inj ha)
    exact .same (hcreator (by simp [hact])) hd hn
  | mark =>
    obtain ⟨hd, hn⟩ := hquiet (by simp [hact])
    rw [hact] at ha
    obtain ⟨rfl, -⟩ := Prod.mk.inj (Option.some.inj ha)
    exact .same (hcreator (by simp [hact])) hd hn
  | alloc now r prov =>
    obtain ⟨hd, hn⟩ := hquiet (by simp [hact])
    have hx := Sources.act_alloc_iff.mp hact
    rw [hact] at ha
    obtain ⟨rfl, -⟩ := Prod.mk.inj (Option.some.inj ha)
    refine .made (creator_iff.mpr ⟨now, prov, hx⟩) hd hn ?_
    rw [← Client.heap_sources, hc.blank (le_of_eq hx.2.2.symm)]
    rfl
  | event e =>
    rw [hact] at ha
    obtain ⟨hcr, hcases⟩ := handled_of_handles (Sources.act_event.mp hact)
    rcases hcases with ⟨⟨now, rfl⟩, hd, hn⟩ | ⟨msg, n, rfl, hd, hn, hname⟩ |
      ⟨now, msg, n, rfl, hd, hn⟩
    · obtain ⟨rfl, -⟩ := Prod.mk.inj (Option.some.inj ha)
      exact .same hcr (by unfold description; rw [hd]; rfl) hn
    · obtain ⟨⟨b, d⟩, hr, hb⟩ := Option.map_eq_some_iff.mp ha
      have hstep := object_desc hcr hd hn (hname hend) hr
      cases b with
      | true =>
        obtain ⟨rfl, -⟩ := Prod.mk.inj hb
        exact hstep
      | false =>
        obtain ⟨rfl, -⟩ := Prod.mk.inj hb
        exact hstep
    · obtain ⟨rfl, -⟩ := Prod.mk.inj (Option.some.inj ha)
      exact .counted hcr (by unfold description; rw [hd]; rfl) hn

namespace ObjectStep
variable {obj : NTStatStream} (h : S.ObjectStep p c st obj)
include h

theorem id : S.creator p c st = some obj.id ∨
    S.creator p c st = none ∧ obj.id = (c.heap p).obj.id := by
  cases h with
  | same hc => exact Or.inr ⟨hc, rfl⟩
  | made hc => exact Or.inl hc
  | described hc _ _ _ hid => exact Or.inr ⟨hc, hid⟩
  | renamed hc => exact Or.inr ⟨hc, NetstatSource.fixName_id _⟩
  | counted hc => exact Or.inr ⟨hc, rfl⟩

theorem stats : (∃ msg n, S.handled .srcCounts p c st = some msg ∧
      obj.stats = S.handler.readCounts msg n (c.heap p).obj.stats) ∨
    S.handled .srcCounts p c st = none ∧ obj.stats = (c.heap p).obj.stats := by
  cases h with
  | same _ _ hn => exact Or.inr ⟨hn, rfl⟩
  | made _ _ hn h0 => exact Or.inr ⟨hn, by rw [h0]⟩
  | described _ _ hn _ _ hstats => exact Or.inr ⟨hn, hstats⟩
  | renamed _ _ hn => exact Or.inr ⟨hn, NetstatSource.fixName_stats _⟩
  | counted _ _ hn => exact Or.inl ⟨_, _, hn, rfl⟩

theorem states : (∃ msg, S.tcpDescription p c st = some msg ∧
      obj.states = S.version.structs.tcpStates msg) ∨
    S.tcpDescription p c st = none ∧ obj.states = (c.heap p).obj.states := by
  have hnone : S.description p c st = none → S.tcpDescription p c st = none := fun hd => by
    unfold tcpDescription
    rw [hd]
    rfl
  cases h with
  | same _ hd => exact Or.inr ⟨hnone hd, rfl⟩
  | made _ hd _ h0 => exact Or.inr ⟨hnone hd, by rw [h0]⟩
  | @described proto _ _ _ hd _ _ _ _ hstates =>
    unfold tcpDescription
    rw [hd, hstates]
    cases proto with
    | tcp => exact Or.inl ⟨_, rfl, rfl⟩
    | udp => exact Or.inr ⟨rfl, rfl⟩
  | renamed _ hd => exact Or.inr ⟨hnone hd, NetstatSource.fixName_states _⟩
  | counted _ hd => exact Or.inr ⟨hnone hd, rfl⟩

theorem told : (∃ proto msg, S.description p c st = some (proto, msg) ∧
      S.version.Tells proto msg obj) ∨
    S.description p c st = none ∧
      (∀ proto msg, S.version.Tells proto msg (c.heap p).obj → S.version.Tells proto msg obj) ∧
      obj.key = (c.heap p).obj.key := by
  cases h with
  | same _ hd => exact Or.inr ⟨hd, fun _ _ ht => ht, rfl⟩
  | made _ hd _ h0 =>
    rw [h0]
    exact Or.inr ⟨hd, fun _ _ ht => ⟨ht.key, ht.pid, ht.name⟩, rfl⟩
  | described _ hd _ ht => exact Or.inl ⟨_, _, hd, ht⟩
  | renamed _ hd => exact Or.inr ⟨hd, fun _ _ ht => ht.fixName, NetstatSource.fixName_key _⟩
  | counted _ hd => exact Or.inr ⟨hd, fun _ _ ht => ht.stats _, rfl⟩

end ObjectStep

/-! ## whole runs -/

theorem last_concat {α : Type} {q : Client → Step → Option α} (h : S.run steps = some (c, effs)) :
    S.last q (steps ++ [st]) = (q c st).or (S.last q steps) := latest_concat h

/-- the stream of an object after a run -/
structure Filled (S : Session) (steps : List Step) (c : Client) (p : Ptr) : Prop where
  id : p < c.next → S.last (S.creator p) steps = some (c.heap p).obj.id
  stats : (c.heap p).obj.stats =
    ((S.last (S.handled .srcCounts p) steps).map S.version.countersOf).getD {}
  states : (c.heap p).obj.states =
    ((S.last (S.tcpDescription p) steps).map S.version.structs.tcpStates).getD {}
  desc : ∀ proto msg, S.last (S.description p) steps = some (proto, msg) →
    S.version.Tells proto msg (c.heap p).obj
  noDesc : S.last (S.description p) steps = none → (c.heap p).obj.key = {}
  marked : (c.heap p).requestedCount = true → S.last (S.description p) steps ≠ none

/-- a version without wired counters leaves them 0 -/
theorem Filled.noWired (h : Filled S steps c p) : S.version.readsWired = true ∨
    (c.heap p).obj.stats.wiredRxbytes = 0 ∧ (c.heap p).obj.stats.wiredTxbytes = 0 := by
  rw [h.stats]
  cases hw : S.version.readsWired with
  | true => exact Or.inl rfl
  | false =>
    refine Or.inr ?_
    cases S.last (S.handled .srcCounts p) steps with
    | none => exact ⟨rfl, rfl⟩
    | some msg => simp [KernelVersion.countersOf, hw]

/-- an object that has ports was described -/
theorem Filled.described (h : Filled S steps c p) (hp : (c.heap p).obj.key.noPorts = false) :
    S.last (S.description p) steps ≠ none := by
  intro hn
  rw [h.noDesc hn] at hp
  cases hp

/-- only what was described wants counts -/
theorem marked_described (hx : S.run steps = some (c, effs)) (h : Filled S steps c p)
    {effs' : List Effect} (hst : S.step c st = some (c', effs'))
    (hr : (c'.heap p).requestedCount = true) :
    S.last (S.description p) (steps ++ [st]) ≠ none := by
  have hold : S.last (S.description p) steps ≠ none := by
    by_cases hm : ∃ now, c.sources.Marks (st.input S.handler) p now
    · obtain ⟨now, -, -, hw⟩ := hm
      simp only [NetstatSource.wantsCount, Bool.and_eq_true, Bool.not_eq_true'] at hw
      exact h.described hw.1.2
    · exact h.marked (Sources.unmarked_step (not_exists.mp hm) (step_sources hst) hr)
  rw [last_concat hx]
  cases S.description p c st with
  | none => exact hold
  | some x => exact Option.some_ne_none x

theorem filled_step (hx : S.run steps = some (c, effs)) (h : Filled S steps c p)
    {effs' : List Effect} (hend : st.NameEnds S.version) (hst : S.step c st = some (c', effs')) :
    Filled S (steps ++ [st]) c' p := by
  have hobj := object_step (session_life hx).1 hend hst p
  have hkeep : ∀ {α : Type} {q : Client → Step → Option α}, q c st = none →
      S.last q (steps ++ [st]) = S.last q steps := fun hq => by
    rw [last_concat hx, hq, Option.none_or]
  have hnext : ∀ {α : Type} {q : Client → Step → Option α} {a : α}, q c st = some a →
      S.last q (steps ++ [st]) = some a := fun hq => by
    rw [last_concat hx, hq, Option.some_or]
  refine ⟨fun hp => ?_, ?_, ?_, ?_, ?_, marked_described hx h hst⟩
  · rcases hobj.id with hc | ⟨hc, he⟩
    · exact hnext hc
    · rw [hkeep hc, he]
      -- the object was there before the step
      rcases Sources.creates_of_next (step_sources hst) hp with hp | ⟨now, r, hcr⟩
      · exact h.id hp
      · rw [creator_iff.mpr ⟨now, hcr⟩] at hc
        cases hc
  · rcases hobj.stats with ⟨msg, n, hn, he⟩ | ⟨hn, he⟩
    · rw [hnext hn, he]
      exact readCounts_of h.noWired
    · rw [hkeep hn, he]
      exact h.stats
  · rcases hobj.states with ⟨msg, hd, he⟩ | ⟨hd, he⟩
    · rw [hnext hd, he]
      rfl
    · rw [hkeep hd, he]
      exact h.states
  · intro proto msg hl
    rcases hobj.told with ⟨proto', msg', hd, ht⟩ | ⟨hd, ht, -⟩
    · rw [hnext hd] at hl
      obtain ⟨rfl, rfl⟩ := Prod.mk.inj (Option.some.inj hl)
      exact ht
    · rw [hkeep hd] at hl
      exact ht proto msg (h.desc proto msg hl)
  · intro hl
    rcases hobj.told with ⟨proto', msg', hd, -⟩ | ⟨hd, -, hk⟩
    · rw [hnext hd] at hl
      cases hl
    · rw [hkeep hd] at hl
      exact hk.trans (h.noDesc hl)

theorem run_filled (h : S.run steps = some (c, effs)) (hend : ∀ st ∈ steps, st.NameEnds S.version)
    (p : Ptr) : Filled S steps c p := by
  refine exec_inv (P := fun steps c _ => (∀ st ∈ steps, st.NameEnds S.version) →
    Filled S steps c p) ?_ ?_ h hend
  · intro _
    have h0 : S.start.heap p = .blank := congrArg (fun s => s.heap p) (start_sources (S := S))
    have hn : S.start.next = 0 := congrArg Sources.next (start_sources (S := S))
    constructor
    · exact fun hp => absurd hp (by rw [hn]; exact Nat.not_lt_zero p)
    · rw [h0]
      rfl
    · rw [h0]
      rfl
    · exact fun _ _ hl => by cases hl
    · rw [h0]
      exact fun _ => rfl
    · rw [h0]
      exact fun hr => by cases hr
  · intro steps c1 e1 st c2 e2 hx hP hst hend
    exact filled_step hx (hP fun st' hs => hend st' (List.mem_append_left _ hs))
      (hend st (by simp)) hst

/-- a call shows the object as the step leaves it -/
theorem shown_obj {s s' : Sources} {i : Input} {shown : List Shown} {cb : Callback}
    {stream : NTStatStream} (h : s.step i = some (s', shown)) (hm : (p, cb, stream) ∈ shown) :
    stream = (s'.heap p).obj := by
  have ht := Sources.touch_of_step h p
  rw [← mem_callsOf] at hm
  generalize s'.heap p = t at ht ⊢
  generalize callsOf p shown = calls at ht hm
  cases ht with
  | removed he =>
    unfold NetstatSource.removed at hm ⊢
    dsimp only at hm ⊢
    split at hm <;> simp_all
  | counted he =>
    unfold NetstatSource.counted at hm ⊢
    dsimp only at hm ⊢
    split at hm <;> simp_all
  | accepted he hr =>
    unfold NetstatSource.described at hm ⊢
    dsimp only at hm ⊢
    split at hm <;> simp_all
  | _ => cases hm

/-- only an object that was described is spoken of -/
theorem shown_described (hx : S.run steps = some (c, effs)) (h : Filled S steps c p)
    (h' : Filled S (steps ++ [st]) c' p) {effs' : List Effect}
    (hst : S.step c st = some (c', effs')) {cb : Callback} {stream : NTStatStream}
    (hm : (p, cb, stream) ∈ callbacks effs') :
    S.last (S.description p) (steps ++ [st]) ≠ none := by
  have hs := step_sources hst
  have hold : S.last (S.description p) steps ≠ none →
      S.last (S.description p) (steps ++ [st]) ≠ none := by
    intro hne
    rw [last_concat hx]
    cases S.description p c st with
    | none => exact hne
    | some x => exact Option.some_ne_none x
  cases cb with
  | onStreamAdded =>
    refine h'.described ?_
    have hobj := shown_obj hs hm
    rw [← show stream = (c'.heap p).obj from hobj]
    exact ((Sources.shown_added hs).mp hm).2.2
  | onStreamRemoved => exact hold (h.described ((Sources.shown_removed hs).mp hm).1.2)
  | onStreamStatsUpdate =>
    obtain ⟨_, _, _, hr, -⟩ := (Sources.shown_stats hs).mp hm
    exact hold (h.marked hr)

/-- **Every call shows what the messages of the run so far say about its object.** -/
theorem snapshot {pre : List Step} (hend : ∀ st ∈ steps, st.NameEnds S.version)
    (h : S.Takes steps pre st c c' effs) {cb : Callback} {stream : NTStatStream}
    (hm : (p, cb, stream) ∈ callbacks effs) : S.Snapshot (pre ++ [st]) p stream := by
  obtain ⟨post, rfl⟩ := h.split
  obtain ⟨e, hx⟩ := h.reached
  have hrun : S.run (pre ++ [st]) = some (c', e ++ effs) := run_concat hx h.step
  have hf := run_filled hx (fun st hs => hend st (List.mem_append_left _ hs)) p
  have hf' := run_filled hrun (fun st' hs => hend st' (by
    rcases List.mem_append.mp hs with hs | hs
    · exact List.mem_append_left _ hs
    · simp_all)) p
  have hobj : stream = (c'.heap p).obj := shown_obj (step_sources h.step) hm
  have hp : p < c'.next := lt_of_lt_of_le
    (Sources.shown_id (session_life hx).1 (input_lawful S.version.lawful st)
      (step_sources h.step) hm).1 (Sources.next_step (step_sources h.step))
  obtain ⟨⟨proto, msg⟩, hl⟩ := Option.ne_none_iff_exists'.mp (shown_described hx hf hf' h.step hm)
  rw [hobj]
  exact ⟨hf'.id hp, hf'.stats, hf'.states, proto, msg, hl, hf'.desc proto msg hl⟩

/-- a UDP source that is announced -/
def addedAndDescribed : List Step :=
  [.readNextMessage 1 1 (structs3789.addedMsg 7 4) 28,
   .readNextMessage 2 2 (structs3789.udpDescMsg 7 4 80 81) 248]

theorem snapshot_addedAndDescribed : ∃ c c' effs stream,
    session3789.Takes addedAndDescribed (addedAndDescribed.take 1)
      (.readNextMessage 2 2 (structs3789.udpDescMsg 7 4 80 81) 248) c c' effs ∧
    (0, .onStreamAdded, stream) ∈ callbacks effs ∧
    session3789.Snapshot addedAndDescribed 0 stream := by
  have hrun : ((session3789.run (addedAndDescribed.take 1)).bind fun x =>
      (session3789.step x.1 (.readNextMessage 2 2 (structs3789.udpDescMsg 7 4 80 81) 248)).map
        fun y => (callbacks y.2).map fun u => (u.1, u.2.1)) = some [(0, .onStreamAdded)] := by
    decide
  obtain ⟨⟨c, e⟩, h1, hrun⟩ := Option.bind_eq_some_iff.mp hrun
  obtain ⟨⟨c', e'⟩, h2, hrun⟩ := Option.map_eq_some_iff.mp hrun
  obtain ⟨stream, he⟩ := shown_singleton hrun
  have hm : (0, .onStreamAdded, stream) ∈ callbacks e' := by simp [he]
  have hend : ∀ st ∈ addedAndDescribed, st.NameEnds session3789.version := by
    unfold addedAndDescribed
    simp only [List.forall_mem_cons, List.not_mem_nil, false_implies, implies_true, and_true]
    refine ⟨fun _ ht => ?_, fun _ _ proto hp => ?_⟩
    · exact absurd ht (by decide)
    · have hudp : session3789.version.protoOf (structs3789.udpDescMsg 7 4 80 81) = some .udp := by
        decide
      obtain rfl := Option.some.inj (hudp.symm.trans hp)
      exact ⟨0, by decide, by decide⟩
  have ht : session3789.Takes addedAndDescribed (addedAndDescribed.take 1) _ c c' e' :=
    ⟨⟨[], rfl⟩, ⟨e, h1⟩, h2⟩
  exact ⟨c, c', e', stream, ht, hm, snapshot hend ht hm⟩

end Session

end Ntstat
