import Ntstat.Kernel.Versions

/-!
# What the struct handlers have in common

* `KernelVersion.handler_readSrcDesc`, `handler_readCounts`, `handler_getSrcRef`   the five handlers
                                     as one body over what the versions differ in;
* `readDescAt`                       what TCP and UDP descriptions have in common;
* `Lawful`, `KernelVersion.lawful`   a description never changes the id, and one that is not
                                     accepted changes nothing; a request carries the sequence
                                     number it was written with.
-/

namespace Ntstat
open Memory

/-! ## what the versions differ in -/

namespace KernelVersion

/-- the TCP providers whose descriptions are read -/
def tcpProviders : KernelVersion → List UInt32
  | xnu3789 | xnu4570 => [nstatProviderTcpKernel, nstatProviderTcpUserland]
  | _ => [nstatProviderTcp]

def udpProviders : KernelVersion → List UInt32
  | xnu3789 | xnu4570 => [nstatProviderUdpKernel, nstatProviderUdpUserland]
  | _ => [nstatProviderUdp]

/-- what `readSrcDesc` returns for any other provider -/
def acceptsOther : KernelVersion → Bool
  | xnu4570 => true
  | _ => false

/-- `readCounts` reads the wired counters -/
def readsWired : KernelVersion → Bool
  | xnu2422 => false
  | _ => true

variable (v : KernelVersion)

theorem handler_readSrcDesc (msg : Mem) (n : Nat) (dest : NTStatStream) :
    v.handler.readSrcDesc msg n dest =
      v.structs.readSrcDesc v.tcpProviders v.udpProviders v.acceptsOther msg n dest := by
  cases v <;> rfl

theorem handler_readCounts (msg : Mem) (n : Nat) (dest : NTStatCounters) :
    v.handler.readCounts msg n dest = if v.readsWired then v.structs.readCounts msg n dest
      else v.structs.readCountsNoWired msg n dest := by
  cases v <;> rfl

/-- on a notification all versions of `getSrcRef` do the same -/
theorem handler_getSrcRef {msg : Mem} (n : Nat) (out : UInt64 × UInt32)
    (h : hdrType msg = .srcAdded ∨ hdrType msg = .srcRemoved ∨ hdrType msg = .srcDesc ∨
      hdrType msg = .srcCounts) :
    v.handler.getSrcRef msg n out = v.structs.getSrcRef msg n out := by
  have hreq : ∀ K : KernelStructs, K.getSrcRefWithRequests msg n out = K.getSrcRef msg n out := by
    intro K
    unfold KernelStructs.getSrcRefWithRequests
    rcases h with h | h | h | h <;> rw [h]
  cases v with
  | xnu2422 => exact hreq structs2422
  | xnu2782 => rfl
  | xnu3248 => exact hreq structs3248
  | xnu3789 => exact hreq structs3789
  | xnu4570 => rfl

section
variable {msg : Mem} (n : Nat) (out : UInt64 × UInt32)

theorem getSrcRef_added (h : hdrType msg = .srcAdded) : v.handler.getSrcRef msg n out =
    (v.structs.readSrcref v.structs.srcAdded msg,
      KernelStructs.readProvider v.structs.srcAdded msg) := by
  rw [v.handler_getSrcRef n out (Or.inl h), KernelStructs.getSrcRef, h]

theorem getSrcRef_removed (h : hdrType msg = .srcRemoved) : v.handler.getSrcRef msg n out =
    (v.structs.readSrcref v.structs.srcRemoved msg, out.2) := by
  rw [v.handler_getSrcRef n out (Or.inr (Or.inl h)), KernelStructs.getSrcRef, h]

theorem getSrcRef_desc (h : hdrType msg = .srcDesc) : v.handler.getSrcRef msg n out =
    (v.structs.readSrcref v.structs.srcDescription msg,
      KernelStructs.readProvider v.structs.srcDescription msg) := by
  rw [v.handler_getSrcRef n out (Or.inr (Or.inr (Or.inl h))), KernelStructs.getSrcRef, h]

theorem getSrcRef_counts (h : hdrType msg = .srcCounts) : v.handler.getSrcRef msg n out =
    (v.structs.readSrcref v.structs.srcCounts msg, out.2) := by
  rw [v.handler_getSrcRef n out (Or.inr (Or.inr (Or.inr h))), KernelStructs.getSrcRef, h]

end

end KernelVersion

/-- where a descriptor has what `readSrcDesc` takes from it -/
structure DescPlace where
  ifindex : Nat
  localAddr : Nat
  remoteAddr : Nat
  pid : Nat
  pname : Nat

/-- the common part of `readTcpSrcDesc` and `readUdpSrcDesc` -/
def readDescAt (P : DescPlace) (ipproto : UInt8) (states : NTStatStreamState) (msg : Mem)
    (dest : NTStatStream) : Option NTStatStream :=
  KernelStructs.readName msg P.pid P.pname
    { dest with
      key := KernelStructs.readKey msg P.ifindex P.localAddr P.remoteAddr ipproto dest.key
      states }

namespace KernelStructs
variable (K : KernelStructs)

def tcpPlace : DescPlace where
  ifindex := K.tcpOff .ifindex
  localAddr := K.tcpOff .localAddr
  remoteAddr := K.tcpOff .remoteAddr
  pid := K.tcpOff .pid
  pname := K.tcpOff .pname

def udpPlace : DescPlace where
  ifindex := K.udpOff .ifindex
  localAddr := K.udpOff .localAddr
  remoteAddr := K.udpOff .remoteAddr
  pid := K.udpOff .pid
  pname := K.udpOff .pname

/-- the TCP state of a description -/
def tcpStates (msg : Mem) : NTStatStreamState where
  txwindow := u32 msg (K.tcpOff .txwindow)
  txcwindow := u32 msg (K.tcpOff .txcwindow)
  state := u32 msg (K.tcpOff .state)

theorem readTcpSrcDesc_eq (msg : Mem) (dest : NTStatStream) : K.readTcpSrcDesc msg dest =
    readDescAt K.tcpPlace ipprotoTcp (K.tcpStates msg) msg dest := rfl

theorem readUdpSrcDesc_eq (msg : Mem) (dest : NTStatStream) : K.readUdpSrcDesc msg dest =
    readDescAt K.udpPlace ipprotoUdp dest.states msg dest := rfl

end KernelStructs

/-! ## laws of the class -/

structure NTStatKernelStructHandler.Lawful (H : NTStatKernelStructHandler) : Prop where
  keepsId : ∀ {msg n dest b d}, H.readSrcDesc msg n dest = some (b, d) → d.id = dest.id
  rejected : ∀ {msg n dest d}, H.readSrcDesc msg n dest = some (false, d) → d = dest
  addAllTcp : ∀ n, hdrContext (Mem.ofList (H.writeAddAllTcpSrc n)) = n
  addAllUdp : ∀ n, hdrContext (Mem.ofList (H.writeAddAllUdpSrc n)) = n
  srcDesc : ∀ n prov r, hdrContext (Mem.ofList (H.writeSrcDesc n prov r)) = n
  querySrc : ∀ n r, hdrContext (Mem.ofList (H.writeQuerySrc n r)) = n

namespace KernelStructs
variable (K : KernelStructs)

theorem readName_id {msg : Mem} {pid pname : Nat} {dest d : NTStatStream}
    (h : readName msg pid pname dest = some d) : d.id = dest.id :=
  (NTStatStream.strcpyName_frame h).1

theorem readDescAt_id {P : DescPlace} {ipproto : UInt8} {states : NTStatStreamState} {msg : Mem}
    {dest d : NTStatStream} (h : readDescAt P ipproto states msg dest = some d) :
    d.id = dest.id := by
  unfold readDescAt at h
  have h' := readName_id h
  exact h'

theorem readSrcDesc_id {tcp udp : List UInt32} {other b : Bool} {msg : Mem} {n : Nat}
    {dest d : NTStatStream} (h : K.readSrcDesc tcp udp other msg n dest = some (b, d)) :
    d.id = dest.id := by
  unfold readSrcDesc at h
  split at h
  · obtain ⟨e, he, hb⟩ := Option.map_eq_some_iff.mp h
    obtain ⟨-, rfl⟩ := Prod.mk.inj hb
    rw [K.readTcpSrcDesc_eq] at he
    exact readDescAt_id he
  · split at h
    · obtain ⟨e, he, hb⟩ := Option.map_eq_some_iff.mp h
      obtain ⟨-, rfl⟩ := Prod.mk.inj hb
      rw [K.readUdpSrcDesc_eq] at he
      exact readDescAt_id he
    · obtain ⟨-, rfl⟩ := Prod.mk.inj (Option.some.inj h)
      rfl

theorem readSrcDesc_rejected {tcp udp : List UInt32} {other : Bool} {msg : Mem} {n : Nat}
    {dest d : NTStatStream} (h : K.readSrcDesc tcp udp other msg n dest = some (false, d)) :
    d = dest := by
  unfold readSrcDesc at h
  split at h
  · obtain ⟨e, _, hb⟩ := Option.map_eq_some_iff.mp h
    cases hb
  · split at h
    · obtain ⟨e, _, hb⟩ := Option.map_eq_some_iff.mp h
      cases hb
    · exact (Prod.mk.inj (Option.some.inj h)).2.symm

/-- a request struct begins with its header -/
theorem request_byte {s : CStruct MsgMember} (hh : s.Has .hdr 16) (h0 : s.offsetOf .hdr = 0)
    (type : MsgType) (seqnum : UInt64) (vals : MsgMember → Mem) {i : Nat} (hi : i < 16) :
    Mem.ofList (request s type seqnum vals) i = hdrImage seqnum type.code s.sizeOf 0 i := by
  have hsize := s.has_end hh
  rw [request, Mem.ofList_take _ (by omega)]
  have hi0 : s.offsetOf .hdr + i = i := by rw [h0, Nat.zero_add]
  refine (congrArg _ hi0.symm).trans ?_
  exact s.image_at hh _ _ hi

theorem request_context {s : CStruct MsgMember} (hh : s.Has .hdr 16) (h0 : s.offsetOf .hdr = 0)
    (type : MsgType) (seqnum : UInt64) (vals : MsgMember → Mem) :
    hdrContext (Mem.ofList (request s type seqnum vals)) = seqnum := by
  refine u64_byteOf fun i hi => ?_
  rw [request_byte hh h0 type seqnum vals (by rw [hdr_offsets.1]; omega), hdrImage,
    nstatMsgHdr.image_at (show nstatMsgHdr.Has .context 8 by decide) _ _ hi]

theorem request_type {s : CStruct MsgMember} (hh : s.Has .hdr 16) (h0 : s.offsetOf .hdr = 0)
    (type : MsgType) (seqnum : UInt64) (vals : MsgMember → Mem) :
    hdrType (Mem.ofList (request s type seqnum vals)) = type := by
  have hcode : u32 (Mem.ofList (request s type seqnum vals)) (nstatMsgHdr.offsetOf .type)
      = type.code := by
    refine u32_byteOf fun i hi => ?_
    rw [request_byte hh h0 type seqnum vals (by rw [hdr_offsets.2.1]; omega), hdrImage,
      nstatMsgHdr.image_at (show nstatMsgHdr.Has .type 4 by decide) _ _ hi]
  rw [hdrType, hcode, MsgType.ofCode_code]

theorem request_length (s : CStruct MsgMember) (type : MsgType) (seqnum : UInt64)
    (vals : MsgMember → Mem) : (request s type seqnum vals).length = s.sizeOf := Mem.take_length _ _

end KernelStructs

/-- every request struct of the version begins with the header -/
theorem KernelVersion.request_hdr (v : KernelVersion) :
    ∀ s ∈ [v.structs.addAllSrcs, v.structs.getSrcDescription, v.structs.querySrc],
      s.Has .hdr 16 ∧ s.offsetOf .hdr = 0 := by
  cases v <;> simp only [List.forall_mem_cons, List.not_mem_nil, false_implies, implies_true,
    and_true] <;> decide

/-- **All five handlers are lawful.** -/
theorem KernelVersion.lawful (v : KernelVersion) : v.handler.Lawful := by
  obtain ⟨⟨a1, a2⟩, ⟨d1, d2⟩, ⟨q1, q2⟩, -⟩ := List.forall_mem_cons.mp v.request_hdr |>.imp_right
    fun h => List.forall_mem_cons.mp h |>.imp_right fun h => List.forall_mem_cons.mp h
  cases v <;>
    exact ⟨fun {_ n _ _ _} h => KernelStructs.readSrcDesc_id _ (n := n) h,
      fun {_ n _ _} h => KernelStructs.readSrcDesc_rejected _ (n := n) h,
      fun _ => KernelStructs.request_context a1 a2 _ _ _,
      fun _ => KernelStructs.request_context a1 a2 _ _ _,
      fun _ _ _ => KernelStructs.request_context d1 d2 _ _ _,
      fun _ _ => KernelStructs.request_context q1 q2 _ _ _⟩

end Ntstat
