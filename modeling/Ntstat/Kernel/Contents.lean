import Ntstat.Kernel.Events

/-!
# What a notification says, read off its bytes

The contents of a message by the layout of its version, without the object that the handler writes
them to.

* `countersOf`                what a SRC_COUNTS says; `readCounts_of` compares `readCounts` with it;
* `protoOf`, `NameEnds`       the protocol of a SRC_DESC, and that its name is terminated;
* `DescPlace.Key`, `readDescAt_leaves`   what is left of a description in the stream.
-/

namespace Ntstat
open Memory KernelStructs

namespace KernelVersion
variable (v : KernelVersion)

/-- the counters of the message; a version without wired counters has 0 for them -/
def countersOf (msg : Mem) : NTStatCounters where
  rxpackets := u64 msg (v.structs.countsOff .rxpackets)
  txpackets := u64 msg (v.structs.countsOff .txpackets)
  rxbytes := u64 msg (v.structs.countsOff .rxbytes)
  txbytes := u64 msg (v.structs.countsOff .txbytes)
  cellRxbytes := u64 msg (v.structs.countsOff .cellRxbytes)
  cellTxbytes := u64 msg (v.structs.countsOff .cellTxbytes)
  wifiRxbytes := u64 msg (v.structs.countsOff .wifiRxbytes)
  wifiTxbytes := u64 msg (v.structs.countsOff .wifiTxbytes)
  wiredRxbytes := if v.readsWired then u64 msg (v.structs.countsOff .wiredRxbytes) else 0
  wiredTxbytes := if v.readsWired then u64 msg (v.structs.countsOff .wiredTxbytes) else 0

/-- the protocol that the provider of a description stands for, if the handler reads it -/
def protoOf (msg : Mem) : Option Proto :=
  if readProvider v.structs.srcDescription msg ∈ v.tcpProviders then some .tcp
  else if readProvider v.structs.srcDescription msg ∈ v.udpProviders then some .udp
  else none

/-- the name of a description ends inside `pname` -/
def NameEnds (msg : Mem) : Prop :=
  ∀ proto, v.protoOf msg = some proto → ∃ i < 64, msg ((v.place proto).pname + i) = 0

end KernelVersion

section
variable {v : KernelVersion} {msg : Mem} {n : Nat}

/-- what `readCounts` leaves over counters that have wired ones only if the version reads them -/
theorem readCounts_of {dest : NTStatCounters}
    (h : v.readsWired = true ∨ dest.wiredRxbytes = 0 ∧ dest.wiredTxbytes = 0) :
    v.handler.readCounts msg n dest = v.countersOf msg := by
  rw [v.handler_readCounts]
  unfold KernelVersion.countersOf readCounts readCountsNoWired
  cases hw : v.readsWired with
  | true => rfl
  | false =>
    obtain ⟨h1, h2⟩ := h.resolve_left (by simp [hw])
    simp [h1, h2]

/-! ## descriptions -/

/-- the key says what the socket addresses and the interface say -/
structure DescPlace.Key (P : DescPlace) (msg : Mem) (ipproto : UInt8) (key : NTStatStreamKey) :
    Prop where
  ipproto : key.ipproto = ipproto
  isV6 : key.isV6 = if msg (P.localAddr + sinFamily) = afInet6 then 1 else 0
  ifindex : key.ifindex = u32 msg P.ifindex
  lport : key.lport = u16 msg (P.localAddr + sinPort)
  rport : key.rport = u16 msg (P.remoteAddr + sinPort)
  addr6 : msg (P.localAddr + sinFamily) = afInet6 →
    Mem.Agree 16 (Mem.ofVector key.localAddr) (msg.shift (P.localAddr + sin6Addr)) ∧
    Mem.Agree 16 (Mem.ofVector key.remoteAddr) (msg.shift (P.remoteAddr + sin6Addr))
  addr4 : msg (P.localAddr + sinFamily) ≠ afInet6 →
    Mem.Agree 4 (Mem.ofVector key.localAddr) (msg.shift (P.localAddr + sinAddr)) ∧
    Mem.Agree 4 (Mem.ofVector key.remoteAddr) (msg.shift (P.remoteAddr + sinAddr))

theorem readKey_key (P : DescPlace) (msg : Mem) (ipproto : UInt8) (key : NTStatStreamKey) :
    P.Key msg ipproto (readKey msg P.ifindex P.localAddr P.remoteAddr ipproto key) := by
  unfold readKey
  split
  · next hf =>
    exact ⟨rfl, by rw [if_pos hf], rfl, rfl, rfl,
      fun _ => ⟨ofVector_overwrite _ _ (by decide), ofVector_overwrite _ _ (by decide)⟩,
      fun h => absurd hf h⟩
  · next hf =>
    exact ⟨rfl, by rw [if_neg hf], rfl, rfl, rfl, fun h => absurd h hf,
      fun _ => ⟨ofVector_overwrite _ _ (by decide), ofVector_overwrite _ _ (by decide)⟩⟩

/-- the string that is copied ends within `room` bytes -/
theorem nameSrc_nul_iff {pid pname room : Nat} (hr : 0 < room) :
    (∃ i < room, nameSrc msg pid pname i = 0) ↔
      u32 msg pid = 0 ∨ ∃ i < room, msg (pname + i) = 0 := by
  unfold nameSrc
  split
  · next h =>
    exact ⟨Or.inr, fun ho => ho.resolve_left (UInt32.pos_iff_ne_zero.mp h.1)⟩
  · next h =>
    refine iff_of_true ⟨0, hr, rfl⟩ ?_
    by_cases hp : u32 msg pid = 0
    · exact Or.inl hp
    · exact Or.inr ⟨0, hr, not_not.mp fun h0 => h ⟨UInt32.pos_iff_ne_zero.mpr hp, h0⟩⟩

/-- it is the name if there is a process -/
theorem cstring_nameSrc {pid pname : Nat} (h : u32 msg pid ≠ 0) :
    cstring (nameSrc msg pid pname) 64 = cstring (msg.shift pname) 64 := by
  unfold nameSrc
  by_cases h0 : msg pname = 0
  · rw [if_neg (by simp [h0])]
    rw [cstring_nil (by decide) rfl, cstring_nil (by decide) h0]
  · rw [if_pos ⟨UInt32.pos_iff_ne_zero.mpr h, h0⟩]

/-- **What a description leaves in the stream.** -/
theorem readDescAt_leaves {P : DescPlace} {ipproto : UInt8} {states : NTStatStreamState}
    {dest d : NTStatStream} (hname : ∃ i < 64, msg (P.pname + i) = 0)
    (h : readDescAt P ipproto states msg dest = some d) :
    d.id = dest.id ∧ d.stats = dest.stats ∧ d.states = states ∧ P.Key msg ipproto d.key ∧
      d.process.pid = u32 msg P.pid ∧ (u32 msg P.pid ≠ 0 →
        cstring (Mem.ofVector d.process.name) 64 = cstring (msg.shift P.pname) 64) := by
  obtain ⟨l, hl, he, hcopy⟩ := readDescAt_of_nul ipproto states dest
    ((nameSrc_nul_iff (by decide)).mpr (Or.inr hname))
  rw [hcopy] at h
  obtain rfl := Option.some.inj h
  obtain ⟨-, hnul, -⟩ := findNul_eq_some.mp he
  refine ⟨rfl, rfl, rfl, readKey_key P msg ipproto dest.key, rfl, fun hp => ?_⟩
  rw [← cstring_nameSrc hp]
  exact cstring_overwrite _ hl hnul

/-- how a description is read, by its protocol -/
theorem readSrcDesc_of_proto {proto : Proto} (h : v.protoOf msg = some proto)
    (dest : NTStatStream) : v.handler.readSrcDesc msg n dest =
      (readDescAt (v.place proto) proto.ipproto
        (if proto = .tcp then v.structs.tcpStates msg else dest.states) msg dest).map
          (true, ·) := by
  obtain ⟨ht, hu, -⟩ := readSrcDesc_of_provider (n := n) (v := v) (m := msg) rfl dest
  unfold KernelVersion.protoOf at h
  split at h
  · next hp =>
    obtain rfl := Option.some.inj h
    exact ht hp
  · split at h
    · next hp =>
      obtain rfl := Option.some.inj h
      exact hu hp
    · cases h

/-- a description of another provider changes nothing, and is accepted by one version -/
theorem readSrcDesc_of_other (h : v.protoOf msg = none) (dest : NTStatStream) :
    v.handler.readSrcDesc msg n dest = some (v.acceptsOther, dest) := by
  obtain ⟨-, -, ho⟩ := readSrcDesc_of_provider (n := n) (v := v) (m := msg) rfl dest
  unfold KernelVersion.protoOf at h
  split at h
  · cases h
  · next ht =>
    split at h
    · cases h
    · next hu => exact ho ht hu

end

end Ntstat
