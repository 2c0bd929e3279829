import Ntstat.Kernel.Contents
import Ntstat.Kernel.Messages
import Ntstat.Key

/-!
# The keys that descriptions leave

A description writes the active member of the address unions only, so two keys of one stream need
not be equal.

* `Endpoints`        what a description says about the two ends of its stream;
* `keys_canonical`   the keys of two descriptions are equivalent if and only if these are equal.
-/

namespace Ntstat
open Memory KernelStructs

/-- protocol, family, ports, interface and addresses; an address is the bytes of its family -/
structure Endpoints where
  proto : Proto
  inet6 : Bool
  lport : UInt16
  rport : UInt16
  ifindex : UInt32
  localAddr : List UInt8
  remoteAddr : List UInt8
deriving DecidableEq

/-- the address in the `sockaddr` at `sa` -/
def addrBytes (msg : Mem) (inet6 : Bool) (sa : Nat) : List UInt8 :=
  if inet6 then (msg.shift (sa + sin6Addr)).take 16 else (msg.shift (sa + sinAddr)).take 4

/-- the ends that stand in the places `P` -/
def DescPlace.endpoints (P : DescPlace) (msg : Mem) (proto : Proto) : Endpoints :=
  let inet6 := msg (P.localAddr + sinFamily) == afInet6
  { proto
    inet6
    lport := u16 msg (P.localAddr + sinPort)
    rport := u16 msg (P.remoteAddr + sinPort)
    ifindex := u32 msg P.ifindex
    localAddr := addrBytes msg inet6 P.localAddr
    remoteAddr := addrBytes msg inet6 P.remoteAddr }

/-- what the description in `msg` says -/
def KernelVersion.endpoints (v : KernelVersion) (msg : Mem) (proto : Proto) : Endpoints :=
  (v.place proto).endpoints msg proto

theorem take_eq_iff {m m' : Mem} {n : Nat} : m.take n = m'.take n ↔ Mem.Agree n m m' := by
  unfold Mem.take Mem.Agree
  simp only [List.map_inj_left, List.mem_range]

theorem agree_congr {n : Nat} {a b m m' : Mem} (ha : Mem.Agree n a m) (hb : Mem.Agree n b m') :
    Mem.Agree n a b ↔ Mem.Agree n m m' := by
  constructor
  · exact fun h i hi => (ha i hi).symm.trans ((h i hi).trans (hb i hi))
  · exact fun h i hi => (ha i hi).trans ((h i hi).trans (hb i hi).symm)

theorem addr_eq_iff {a b : Addr} : a = b ↔ Mem.Agree 16 (Mem.ofVector a) (Mem.ofVector b) := by
  constructor
  · rintro rfl
    exact fun _ _ => rfl
  · intro h
    refine Vector.ext fun i hi => ?_
    have := h i hi
    simpa [Mem.ofVector, Mem.ofList, hi] using this

theorem ipproto_inj {p q : Proto} : p.ipproto = q.ipproto ↔ p = q := by
  cases p <;> cases q <;> decide

section
variable {P P' : DescPlace} {msg msg' : Mem} {q q' : UInt8} {key key' : NTStatStreamKey}

theorem DescPlace.Key.inet6 (h : P.Key msg q key) :
    (msg (P.localAddr + sinFamily) == afInet6) = true ↔ key.isV6 ≠ 0 := by
  rw [h.isV6, beq_iff_eq]
  split
  · next hf => exact iff_of_true hf (by decide)
  · next hf => exact iff_of_false hf (by decide)

/-- the family of both keys is the same if both or none is AF_INET6 -/
theorem family_iff (h : P.Key msg q key) (h' : P'.Key msg' q' key') : key.isV6 = key'.isV6 ↔
    (msg (P.localAddr + sinFamily) == afInet6) = (msg' (P'.localAddr + sinFamily) == afInet6) := by
  constructor
  · intro he
    rw [Bool.eq_iff_iff, h.inet6, h'.inet6, he]
  · intro he
    have hiff := (beq_iff_eq.symm.trans (Bool.eq_iff_iff.mp he)).trans beq_iff_eq
    rw [h.isV6, h'.isV6]
    exact if_congr hiff rfl rfl

/-- in one family the addresses of the keys are those of the messages -/
theorem addr_iff (h : P.Key msg q key) (h' : P'.Key msg' q' key') {inet6 : Bool}
    (hf : (msg (P.localAddr + sinFamily) == afInet6) = inet6)
    (hf' : (msg' (P'.localAddr + sinFamily) == afInet6) = inet6) :
    (key.isV6 ≠ 0 → key.localAddr = key'.localAddr ∧ key.remoteAddr = key'.remoteAddr) ∧
        (key.isV6 = 0 → NTStatStreamKey.SameAddr4 key.localAddr key'.localAddr ∧
          NTStatStreamKey.SameAddr4 key.remoteAddr key'.remoteAddr) ↔
      addrBytes msg inet6 P.localAddr = addrBytes msg' inet6 P'.localAddr ∧
        addrBytes msg inet6 P.remoteAddr = addrBytes msg' inet6 P'.remoteAddr := by
  have h0 := h.inet6
  unfold addrBytes
  cases inet6 with
  | true =>
    obtain ⟨l, r⟩ := h.addr6 (beq_iff_eq.mp hf)
    obtain ⟨l', r'⟩ := h'.addr6 (beq_iff_eq.mp hf')
    have hv : key.isV6 ≠ 0 := h0.mp hf
    rw [if_pos rfl, if_pos rfl, if_pos rfl, if_pos rfl, take_eq_iff, take_eq_iff,
      ← agree_congr l l', ← agree_congr r r', ← addr_eq_iff, ← addr_eq_iff]
    exact ⟨fun hs => hs.1 hv, fun hs => ⟨fun _ => hs, fun hn => absurd hn hv⟩⟩
  | false =>
    obtain ⟨l, r⟩ := h.addr4 (beq_eq_false_iff_ne.mp hf)
    obtain ⟨l', r'⟩ := h'.addr4 (beq_eq_false_iff_ne.mp hf')
    have hv : key.isV6 = 0 := not_not.mp (mt h0.mpr (by rw [hf]; exact Bool.false_ne_true))
    rw [if_neg Bool.false_ne_true, if_neg Bool.false_ne_true, if_neg Bool.false_ne_true,
      if_neg Bool.false_ne_true, take_eq_iff, take_eq_iff, ← agree_congr l l',
      ← agree_congr r r']
    exact ⟨fun hs => hs.2 hv, fun hs => ⟨fun hn => absurd hv hn, fun _ => hs⟩⟩

/-- **Keys are the same if the ends are.** -/
theorem same_iff_endpoints {proto proto' : Proto} (h : P.Key msg proto.ipproto key)
    (h' : P'.Key msg' proto'.ipproto key') :
    key.Same key' ↔ P.endpoints msg proto = P'.endpoints msg' proto' := by
  have hproto : key.ipproto = key'.ipproto ↔ proto = proto' := by
    rw [h.ipproto, h'.ipproto, ipproto_inj]
  unfold DescPlace.endpoints
  rw [Endpoints.mk.injEq, ← hproto, ← family_iff h h', ← h.lport, ← h'.lport, ← h.rport,
    ← h'.rport, ← h.ifindex, ← h'.ifindex]
  constructor
  · intro hs
    have hf := (family_iff h h').mp hs.isV6
    refine ⟨hs.ipproto, hs.isV6, hs.lport, hs.rport, hs.ifindex, ?_⟩
    rw [hf]
    exact (addr_iff h h' hf rfl).mp ⟨hs.addr6, hs.addr4⟩
  · intro hs
    obtain ⟨h1, h2, h3, h4, h5, h6⟩ := hs
    have hf := (family_iff h h').mp h2
    rw [hf] at h6
    obtain ⟨a6, a4⟩ := (addr_iff h h' hf rfl).mpr h6
    exact ⟨h2, h1, h3, h4, h5, a6, a4⟩

end

section
variable {v v' : KernelVersion} {msg msg' : Mem} {proto proto' : Proto}

/-- a description with a terminated name is read, and leaves its key -/
theorem readSrcDesc_key (hp : v.protoOf msg = some proto) (hn : v.NameEnds msg) (n : Nat)
    (dest : NTStatStream) : ∃ d, v.handler.readSrcDesc msg n dest = some (true, d) ∧
      (v.place proto).Key msg proto.ipproto d.key := by
  obtain ⟨l, -, -, hd⟩ := readDescAt_of_nul proto.ipproto
    (if proto = .tcp then v.structs.tcpStates msg else dest.states) dest
    ((nameSrc_nul_iff (by decide)).mpr (Or.inr (hn proto hp)))
  refine ⟨_, ?_, (readDescAt_leaves (hn proto hp) hd).2.2.2.1⟩
  rw [readSrcDesc_of_proto hp, hd, Option.map_some]

/-- **Decoded keys are canonical.** -/
theorem keys_canonical (hp : v.protoOf msg = some proto) (hp' : v'.protoOf msg' = some proto')
    (hn : v.NameEnds msg) (hn' : v'.NameEnds msg') (n n' : Nat) (dest dest' : NTStatStream) :
    ∃ d d', v.handler.readSrcDesc msg n dest = some (true, d) ∧
      v'.handler.readSrcDesc msg' n' dest' = some (true, d') ∧
      (¬ d.key < d'.key ∧ ¬ d'.key < d.key ↔ v.endpoints msg proto = v'.endpoints msg' proto') := by
  obtain ⟨d, hd, hk⟩ := readSrcDesc_key hp hn n dest
  obtain ⟨d', hd', hk'⟩ := readSrcDesc_key hp' hn' n' dest'
  exact ⟨d, d', hd, hd', NTStatStreamKey.incomparable_iff.trans (same_iff_endpoints hk hk')⟩

/-- the stream was an IPv6 one before -/
def staleV6 : NTStatStream where
  key := { isV6 := 1, localAddr := Vector.replicate 16 7, remoteAddr := Vector.replicate 16 9 }

/-- one UDP stream described by two kernels, once over the key of an IPv6 stream -/
theorem keys_canonical_staleV6 : ∃ d d',
    ntStatKernel2422.readSrcDesc (structs2422.udpDescMsg 7 3 80 81) 216 {} = some (true, d) ∧
    ntStatKernel3789.readSrcDesc (structs3789.udpDescMsg 7 4 80 81) 248 staleV6 = some (true, d') ∧
    d.key ≠ d'.key ∧ ¬ d.key < d'.key ∧ ¬ d'.key < d.key := by
  have hp : KernelVersion.xnu2422.protoOf (structs2422.udpDescMsg 7 3 80 81) = some .udp := by
    decide
  have hp' : KernelVersion.xnu3789.protoOf (structs3789.udpDescMsg 7 4 80 81) = some .udp := by
    decide
  have hn : KernelVersion.xnu2422.NameEnds (structs2422.udpDescMsg 7 3 80 81) := by
    intro proto h
    obtain rfl := Option.some.inj (hp.symm.trans h)
    exact ⟨0, by decide, by decide⟩
  have hn' : KernelVersion.xnu3789.NameEnds (structs3789.udpDescMsg 7 4 80 81) := by
    intro proto h
    obtain rfl := Option.some.inj (hp'.symm.trans h)
    exact ⟨0, by decide, by decide⟩
  obtain ⟨d, d', h, h', hiff⟩ := keys_canonical hp hp' hn hn' 216 248 {} staleV6
  refine ⟨d, d', h, h', fun he => ?_, hiff.mpr (by decide)⟩
  have hk := congrArg (Option.map fun x => x.2.key) h
  have hk' := congrArg (Option.map fun x => x.2.key) h'
  rw [Option.map_some] at hk hk'
  rw [he, ← hk'] at hk
  exact absurd hk (by decide)

end

end Ntstat
