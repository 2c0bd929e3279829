import Ntstat.Kernel.Extent

/-!
# What a kernel says, and how a version writes it down

`KernelEvent` is a notification without its layout: what happened to which source.  `Encodes` says
that a buffer holds the event in the structs and with the provider numbers of a version; the bytes
of all other members are arbitrary.

* `readSrcref_encoded`, `readCounts_encoded`, `readSrcDesc_encoded`   what the handlers read back;
* `encodes_encode`   every event has an encoding in every version.
-/

namespace Ntstat
open Memory KernelStructs

inductive Proto where
  | tcp
  | udp
deriving DecidableEq

def Proto.ipproto : Proto → UInt8
  | tcp => ipprotoTcp
  | udp => ipprotoUdp

/-- what a description says; `pname` is NUL-terminated -/
structure KernelDesc where
  localAddr : Vector UInt8 28
  remoteAddr : Vector UInt8 28
  ifindex : UInt32
  /-- of a TCP connection -/
  states : NTStatStreamState
  pid : UInt32
  pname : Vector UInt8 64
  terminated : ∃ i < 64, Mem.ofVector pname i = 0

/-- a source reference fits the 32 bits that all versions have -/
inductive KernelEvent where
  | added (srcRef : UInt32) (proto : Proto)
  | removed (srcRef : UInt32)
  | desc (srcRef : UInt32) (proto : Proto) (d : KernelDesc)
  | counts (srcRef : UInt32) (counts : NTStatCounters)

/-! ## what a description means -/

namespace KernelDesc
variable (d : KernelDesc)

/-- the key; an IPv4 address leaves the rest of `addr_t` as it was -/
def key (ipproto : UInt8) (key : NTStatStreamKey) : NTStatStreamKey :=
  let la := Mem.ofVector d.localAddr
  let ra := Mem.ofVector d.remoteAddr
  if la sinFamily = afInet6 then
    { isV6 := 1
      ipproto
      ifindex := d.ifindex
      lport := u16 la sinPort
      rport := u16 ra sinPort
      localAddr := overwrite key.localAddr (la.shift sin6Addr) 16
      remoteAddr := overwrite key.remoteAddr (ra.shift sin6Addr) 16 }
  else
    { isV6 := 0
      ipproto
      ifindex := d.ifindex
      lport := u16 la sinPort
      rport := u16 ra sinPort
      localAddr := overwrite key.localAddr (la.shift sinAddr) 4
      remoteAddr := overwrite key.remoteAddr (ra.shift sinAddr) 4 }

/-- the name of the process, if there is a process -/
def name : Mem :=
  if 0 < d.pid ∧ Mem.ofVector d.pname 0 ≠ 0 then Mem.ofVector d.pname else fun _ => 0

def nameLength : Nat := (findNul d.name nameRoom).getD 0

/-- the stream of the source after the description -/
def fill (proto : Proto) (dest : NTStatStream) : NTStatStream :=
  { dest with
    key := d.key proto.ipproto dest.key
    process :=
      { pid := d.pid
        name := overwrite dest.process.name d.name (d.nameLength + 1) }
    states := if proto = .tcp then d.states else dest.states }

theorem name_nul : ∃ i < 64, d.name i = 0 := by
  unfold name
  split
  · exact d.terminated
  · exact ⟨0, by decide, rfl⟩

end KernelDesc

/-! ## how a version writes it down -/

/-- the description stands in the places `P` -/
structure DescPlace.Holds (P : DescPlace) (m : Mem) (d : KernelDesc) : Prop where
  localAddr : Mem.Agree 28 (m.shift P.localAddr) (Mem.ofVector d.localAddr)
  remoteAddr : Mem.Agree 28 (m.shift P.remoteAddr) (Mem.ofVector d.remoteAddr)
  ifindex : m.Holds P.ifindex 4 d.ifindex.toNat
  pid : m.Holds P.pid 4 d.pid.toNat
  pname : Mem.Agree 64 (m.shift P.pname) (Mem.ofVector d.pname)

def HasType (m : Mem) (t : MsgType) : Prop :=
  m.Holds (nstatMsgHdr.offsetOf .type) 4 t.code.toNat

/-- the counters of the public type and the members that carry them -/
def counterFields : List (CountsMember × (NTStatCounters → UInt64)) :=
  [(.rxpackets, (·.rxpackets)), (.txpackets, (·.txpackets)), (.rxbytes, (·.rxbytes)),
   (.txbytes, (·.txbytes)), (.cellRxbytes, (·.cellRxbytes)), (.cellTxbytes, (·.cellTxbytes)),
   (.wifiRxbytes, (·.wifiRxbytes)), (.wifiTxbytes, (·.wifiTxbytes)),
   (.wiredRxbytes, (·.wiredRxbytes)), (.wiredTxbytes, (·.wiredTxbytes))]

namespace KernelVersion
variable (v : KernelVersion)

def providers : Proto → List UInt32
  | .tcp => v.tcpProviders
  | .udp => v.udpProviders

def place : Proto → DescPlace
  | .tcp => v.structs.tcpPlace
  | .udp => v.structs.udpPlace

def HasSrcref (s : CStruct MsgMember) (m : Mem) (srcRef : UInt32) : Prop :=
  m.Holds (s.offsetOf .srcref) v.structs.srcRefSize srcRef.toNat

/-- any provider of the protocol, of the kernel or of userland -/
def HasProvider (s : CStruct MsgMember) (m : Mem) (proto : Proto) : Prop :=
  ∃ p ∈ v.providers proto, m.Holds (s.offsetOf .provider) 4 p.toNat

def HasStates (m : Mem) (states : NTStatStreamState) : Prop :=
  m.Holds (v.structs.tcpOff .txwindow) 4 states.txwindow.toNat ∧
    m.Holds (v.structs.tcpOff .txcwindow) 4 states.txcwindow.toNat ∧
    m.Holds (v.structs.tcpOff .state) 4 states.state.toNat

/-- every counter that the version has -/
def HasCounts (m : Mem) (counts : NTStatCounters) : Prop :=
  ∀ x ∈ counterFields, v.structs.counts.Has x.1 8 →
    m.Holds (v.structs.countsOff x.1) 8 (x.2 counts).toNat

/-- the buffer holds the event in the layout of the version -/
def Encodes : KernelEvent → Mem → Prop
  | .added srcRef proto, m => HasType m .srcAdded ∧ v.HasSrcref v.structs.srcAdded m srcRef ∧
      v.HasProvider v.structs.srcAdded m proto
  | .removed srcRef, m => HasType m .srcRemoved ∧ v.HasSrcref v.structs.srcRemoved m srcRef
  | .desc srcRef proto d, m => HasType m .srcDesc ∧
      v.HasSrcref v.structs.srcDescription m srcRef ∧
      v.HasProvider v.structs.srcDescription m proto ∧ (v.place proto).Holds m d ∧
      (proto = .tcp → v.HasStates m d.states)
  | .counts srcRef counts, m => HasType m .srcCounts ∧
      v.HasSrcref v.structs.srcCounts m srcRef ∧ v.HasCounts m counts

end KernelVersion

/-! ## what is read back -/

section
variable {v : KernelVersion} {m : Mem}

theorem hdrType_of_hasType {t : MsgType} (h : HasType m t) : hdrType m = t := by
  rw [hdrType, h.u32, MsgType.ofCode_code]

theorem readSrcref_encoded {s : CStruct MsgMember} {srcRef : UInt32} (h : v.HasSrcref s m srcRef) :
    v.structs.readSrcref s m = srcRef.toUInt64 := by
  have hsize : (256 : Nat) ^ 4 ≤ 256 ^ v.structs.srcRefSize :=
    Nat.pow_le_pow_right (by decide) (by cases v <;> decide)
  have hlt : srcRef.toNat < 256 ^ 4 := srcRef.toNat_lt
  rw [KernelStructs.readSrcref, readLE_byteOf h, Nat.mod_eq_of_lt (Nat.lt_of_lt_of_le hlt hsize)]
  exact UInt64.toNat_inj.mp (by simp)

theorem readProvider_encoded {s : CStruct MsgMember} {proto : Proto} (h : v.HasProvider s m proto) :
    readProvider s m ∈ v.providers proto := by
  obtain ⟨p, hp, hm⟩ := h
  rw [readProvider, hm.u32]
  exact hp

/-- the version's struct has every counter that its handler reads -/
theorem countersRead_has (v : KernelVersion) :
    ∀ i ∈ v.countersRead, v.structs.counts.Has i 8 := by
  cases v <;> decide

/-- **The counters are read back, all that the version has.** -/
theorem readCounts_encoded {counts : NTStatCounters} (h : v.HasCounts m counts) (n : Nat)
    (dest : NTStatCounters) : v.handler.readCounts m n dest =
      if v.readsWired then counts else
        { counts with
          wiredRxbytes := dest.wiredRxbytes
          wiredTxbytes := dest.wiredTxbytes } := by
  have hread : ∀ x ∈ counterFields, x.1 ∈ v.countersRead →
      u64 m (v.structs.countsOff x.1) = x.2 counts := fun x hx hr =>
    (h x hx (countersRead_has v _ hr)).u64
  rw [v.handler_readCounts]
  unfold counterFields KernelVersion.countersRead at hread
  simp only [List.forall_mem_cons, List.not_mem_nil, false_implies, implies_true, and_true] at hread
  unfold readCounts readCountsNoWired
  cases hw : v.readsWired with
  | true => simp_all
  | false => simp_all

theorem key_encoded {P : DescPlace} {d : KernelDesc} (h : P.Holds m d) (ipproto : UInt8)
    (key : NTStatStreamKey) :
    readKey m P.ifindex P.localAddr P.remoteAddr ipproto key = d.key ipproto key := by
  have hport : ∀ {off} {a : Vector UInt8 28}, Mem.Agree 28 (m.shift off) (Mem.ofVector a) →
      u16 m (off + sinPort) = u16 (Mem.ofVector a) sinPort := fun ha => by
    rw [← u16_shift]
    exact u16_agree ha (by decide)
  have haddr : ∀ o k {off} {a : Vector UInt8 28}, Mem.Agree 28 (m.shift off) (Mem.ofVector a) →
      o + k ≤ 28 → Mem.Agree k (m.shift (off + o)) ((Mem.ofVector a).shift o) := by
    intro o k off a ha hk i hi
    rw [Mem.shift_apply, Nat.add_assoc]
    exact ha (o + i) (by omega)
  have hfam : m (P.localAddr + sinFamily) = Mem.ofVector d.localAddr sinFamily :=
    h.localAddr sinFamily (by decide)
  unfold readKey KernelDesc.key
  rw [hfam, h.ifindex.u32, hport h.localAddr, hport h.remoteAddr,
    overwrite_congr _ (haddr sin6Addr 16 h.localAddr (by decide)),
    overwrite_congr _ (haddr sin6Addr 16 h.remoteAddr (by decide)),
    overwrite_congr _ (haddr sinAddr 4 h.localAddr (by decide)),
    overwrite_congr _ (haddr sinAddr 4 h.remoteAddr (by decide))]

theorem nameSrc_encoded {P : DescPlace} {d : KernelDesc} (h : P.Holds m d) :
    Mem.Agree 64 d.name (nameSrc m P.pid P.pname) := by
  unfold KernelDesc.name nameSrc
  rw [h.pid.u32, show m P.pname = Mem.ofVector d.pname 0 from h.pname 0 (by decide)]
  split
  · exact h.pname.symm
  · exact fun _ _ => rfl

theorem readDescAt_encoded {P : DescPlace} {d : KernelDesc} (h : P.Holds m d) (ipproto : UInt8)
    (states : NTStatStreamState) (dest : NTStatStream) : readDescAt P ipproto states m dest =
      some { dest with
        key := d.key ipproto dest.key
        process :=
          { pid := d.pid
            name := overwrite dest.process.name d.name (d.nameLength + 1) }
        states } := by
  obtain ⟨i, hi, h0⟩ := d.name_nul
  unfold readDescAt readName
  rw [key_encoded h, h.pid.u32, ← NTStatStream.strcpyName_congr _ (nameSrc_encoded h) hi
    (show i < nameRoom by unfold nameRoom; omega) h0]
  obtain ⟨l, -, hl, he⟩ := NTStatStream.strcpyName_of_nul (d := { dest with
    key := d.key ipproto dest.key, states
    process := { dest.process with pid := d.pid } }) _ hi h0
  rw [he, KernelDesc.nameLength, hl, Option.getD_some]

/-- **The description is read back.** -/
theorem readSrcDesc_encoded {proto : Proto} {d : KernelDesc}
    (hp : v.HasProvider v.structs.srcDescription m proto) (h : (v.place proto).Holds m d)
    (hs : proto = .tcp → v.HasStates m d.states) (n : Nat) (dest : NTStatStream) :
    v.handler.readSrcDesc m n dest = some (true, d.fill proto dest) := by
  have hread := readSrcDesc_of_provider (v := v) (m := m) (n := n) rfl dest
  have hprov := readProvider_encoded hp
  cases proto with
  | tcp =>
    obtain ⟨h1, h2, h3⟩ := hs rfl
    have hstates : v.structs.tcpStates m = d.states := by
      unfold tcpStates
      rw [h1.u32, h2.u32, h3.u32]
    rw [hread.1 hprov, hstates]
    exact congrArg _ (readDescAt_encoded h ..)
  | udp =>
    rw [hread.2.1 hprov]
    exact congrArg _ (readDescAt_encoded h ..)

end

/-! ## every event has an encoding -/

/-- the members of a message of type `t`; what is not given is zero -/
def msgVals (t : MsgType) (size : Nat) (srcRef provider : UInt32) (counts : Mem) : MsgMember → Mem
  | .hdr => hdrImage 0 t.code size 0
  | .srcref => byteOf srcRef.toNat
  | .provider => byteOf provider.toNat
  | .counts => counts
  | _ => fun _ => 0

def descVals (d : KernelDesc) : DescMember → Mem
  | .localAddr => Mem.ofVector d.localAddr
  | .remoteAddr => Mem.ofVector d.remoteAddr
  | .ifindex => byteOf d.ifindex.toNat
  | .txwindow => byteOf d.states.txwindow.toNat
  | .txcwindow => byteOf d.states.txcwindow.toNat
  | .state => byteOf d.states.state.toNat
  | .pid => byteOf d.pid.toNat
  | .pname => Mem.ofVector d.pname
  | _ => fun _ => 0

def countsVals (counts : NTStatCounters) (i : CountsMember) : Mem :=
  match counterFields.find? fun x => x.1 = i with
  | some x => byteOf (x.2 counts).toNat
  | none => fun _ => 0

namespace KernelVersion
variable (v : KernelVersion)

/-- the kernel's provider of the protocol -/
def provider (proto : Proto) : UInt32 := (v.providers proto).headD 0

def descriptor : Proto → CStruct DescMember
  | .tcp => v.structs.tcpDescriptor
  | .udp => v.structs.udpDescriptor

def msgImage (s : CStruct MsgMember) (t : MsgType) (size : Nat) (srcRef provider : UInt32)
    (counts : Mem) : Mem := s.image (msgVals t size srcRef provider counts) fun _ => 0

/-- the event as the version lays it out, in a buffer of zeros -/
def encode : KernelEvent → Mem
  | .added srcRef proto => msgImage v.structs.srcAdded .srcAdded v.structs.srcAdded.sizeOf srcRef
      (v.provider proto) fun _ => 0
  | .removed srcRef => msgImage v.structs.srcRemoved .srcRemoved v.structs.srcRemoved.sizeOf srcRef
      0 fun _ => 0
  | .counts srcRef counts => msgImage v.structs.srcCounts .srcCounts v.structs.srcCounts.sizeOf
      srcRef 0 (v.structs.counts.image (countsVals counts) fun _ => 0)
  | .desc srcRef proto d => fun a =>
    if a < v.structs.srcDescription.offsetOf .data then
      msgImage v.structs.srcDescription .srcDesc
        (v.structs.srcDescription.sizeOf + (v.descriptor proto).sizeOf) srcRef (v.provider proto)
        (fun _ => 0) a
    else (v.descriptor proto).image (descVals d) (fun _ => 0)
      (a - v.structs.srcDescription.offsetOf .data)

/-- the members that the encoding gives -/
structure Members : Prop where
  hdr : ∀ s ∈ [v.structs.srcAdded, v.structs.srcRemoved, v.structs.srcDescription,
    v.structs.srcCounts], s.Has .hdr 16 ∧ s.offsetOf .hdr = 0 ∧ s.Has .srcref v.structs.srcRefSize
  provider : v.structs.srcAdded.Has .provider 4 ∧ v.structs.srcDescription.Has .provider 4
  counts : v.structs.srcCounts.Has .counts v.structs.counts.sizeOf
  desc : ∀ proto, (v.descriptor proto).Has .localAddr 28 ∧
    (v.descriptor proto).Has .remoteAddr 28 ∧ (v.descriptor proto).Has .ifindex 4 ∧
    (v.descriptor proto).Has .pid 4 ∧ (v.descriptor proto).Has .pname 64
  states : v.structs.tcpDescriptor.Has .txwindow 4 ∧ v.structs.tcpDescriptor.Has .txcwindow 4 ∧
    v.structs.tcpDescriptor.Has .state 4
  /-- the descriptor stands behind the rest of the message -/
  data : 16 ≤ v.structs.srcDescription.offsetOf .data ∧
    v.structs.srcDescription.offsetOf .srcref + v.structs.srcRefSize ≤
      v.structs.srcDescription.offsetOf .data ∧
    v.structs.srcDescription.offsetOf .provider + 4 ≤ v.structs.srcDescription.offsetOf .data

theorem members : v.Members := by
  cases v <;> exact ⟨by decide, by decide, by decide, fun proto => by cases proto <;> decide,
    by decide, by decide⟩

end KernelVersion

section
variable {v : KernelVersion} {s : CStruct MsgMember} {t : MsgType} {size : Nat}
  {srcRef provider : UInt32} {counts : Mem}

theorem msgImage_type (hs : s.Has .hdr 16) (h0 : s.offsetOf .hdr = 0) :
    HasType (KernelVersion.msgImage s t size srcRef provider counts) t := by
  intro i hi
  have h1 := s.image_at hs (msgVals t size srcRef provider counts) (fun _ => 0)
    (show nstatMsgHdr.offsetOf .type + i < 16 by rw [hdr_offsets.2.1]; omega)
  rw [h0, Nat.zero_add] at h1
  rw [KernelVersion.msgImage, h1]
  show hdrImage 0 t.code size 0 _ = _
  rw [hdrImage, nstatMsgHdr.image_at (show nstatMsgHdr.Has .type 4 by decide) _ _ hi]

theorem msgImage_srcref (hs : s.Has .srcref v.structs.srcRefSize) :
    v.HasSrcref s (KernelVersion.msgImage s t size srcRef provider counts) srcRef :=
  fun _ hi => s.image_at hs _ _ hi

theorem provider_mem (v : KernelVersion) (proto : Proto) :
    v.provider proto ∈ v.providers proto := by
  cases v <;> cases proto <;> decide

theorem msgImage_provider {proto : Proto} (hs : s.Has .provider 4) : v.HasProvider s
    (KernelVersion.msgImage s t size srcRef (v.provider proto) counts) proto :=
  ⟨v.provider proto, provider_mem v proto, fun _ hi => s.image_at hs _ _ hi⟩

theorem countsVals_field {counts : NTStatCounters} {x : CountsMember × (NTStatCounters → UInt64)}
    (hx : x ∈ counterFields) : countsVals counts x.1 = byteOf (x.2 counts).toNat := by
  have hall : ∀ x ∈ counterFields, countsVals counts x.1 = byteOf (x.2 counts).toNat := by
    unfold counterFields
    simp only [List.forall_mem_cons, List.not_mem_nil, false_implies, implies_true, and_true]
    exact ⟨rfl, rfl, rfl, rfl, rfl, rfl, rfl, rfl, rfl, rfl⟩
  exact hall x hx

/-- the members of the descriptor -/
theorem encode_desc (proto : Proto) {d : KernelDesc} {i : DescMember} {k j : Nat}
    (h : (v.descriptor proto).Has i k) (hj : j < k) : v.encode (.desc srcRef proto d)
      (v.structs.srcDescription.offsetOf .data + (v.descriptor proto).offsetOf i + j) =
        descVals d i j := by
  unfold KernelVersion.encode
  dsimp only
  rw [if_neg (by omega), Nat.add_assoc, Nat.add_sub_cancel_left]
  exact (v.descriptor proto).image_at h _ _ hj

theorem desc_holds (v : KernelVersion) (srcRef : UInt32) (proto : Proto) (d : KernelDesc) :
    (v.place proto).Holds (v.encode (.desc srcRef proto d)) d := by
  obtain ⟨h1, h2, h3, h4, h5⟩ := v.members.desc proto
  cases proto with
  | tcp => exact ⟨fun _ => encode_desc _ h1, fun _ => encode_desc _ h2, fun _ => encode_desc _ h3,
      fun _ => encode_desc _ h4, fun _ => encode_desc _ h5⟩
  | udp => exact ⟨fun _ => encode_desc _ h1, fun _ => encode_desc _ h2, fun _ => encode_desc _ h3,
      fun _ => encode_desc _ h4, fun _ => encode_desc _ h5⟩

/-- **Every event has an encoding in every version.** -/
theorem encodes_encode (v : KernelVersion) (e : KernelEvent) : v.Encodes e (v.encode e) := by
  have hm := v.members
  obtain ⟨⟨a1, a2, a3⟩, ⟨r1, r2, r3⟩, ⟨d1, d2, d3⟩, ⟨c1, c2, c3⟩, -⟩ :=
    List.forall_mem_cons.mp hm.hdr
    |>.imp_right fun h => List.forall_mem_cons.mp h |>.imp_right fun h => List.forall_mem_cons.mp h
    |>.imp_right fun h => List.forall_mem_cons.mp h
  cases e with
  | added srcRef proto =>
    exact ⟨msgImage_type a1 a2, msgImage_srcref a3, msgImage_provider hm.provider.1⟩
  | removed srcRef => exact ⟨msgImage_type r1 r2, msgImage_srcref r3⟩
  | counts srcRef counts =>
    refine ⟨msgImage_type c1 c2, msgImage_srcref c3, fun x hx hs j hj => ?_⟩
    have hend := v.structs.counts.has_end hs
    have h1 := v.structs.srcCounts.image_at hm.counts (msgVals .srcCounts
      v.structs.srcCounts.sizeOf srcRef 0 (v.structs.counts.image (countsVals counts) fun _ => 0))
      (fun _ => 0) (show v.structs.counts.offsetOf x.1 + j < v.structs.counts.sizeOf by omega)
    rw [← Nat.add_assoc] at h1
    refine h1.trans ?_
    rw [msgVals, v.structs.counts.image_at hs _ _ hj, countsVals_field hx]
  | desc srcRef proto d =>
    obtain ⟨hd1, hd2, hd3⟩ := hm.data
    -- before the descriptor it is the image of the message
    have hlow : ∀ a, a < v.structs.srcDescription.offsetOf .data →
        v.encode (.desc srcRef proto d) a = KernelVersion.msgImage v.structs.srcDescription .srcDesc
          (v.structs.srcDescription.sizeOf + (v.descriptor proto).sizeOf) srcRef (v.provider proto)
          (fun _ => 0) a := fun a ha => if_pos ha
    refine ⟨fun i hi => ?_, fun i hi => ?_,
      ⟨v.provider proto, provider_mem v proto, fun i hi => ?_⟩, desc_holds v srcRef proto d, ?_⟩
    · rw [hlow _ (by rw [hdr_offsets.2.1]; omega)]
      exact msgImage_type d1 d2 i hi
    · rw [hlow _ (by omega)]
      exact msgImage_srcref d3 i hi
    · rw [hlow _ (by omega)]
      exact v.structs.srcDescription.image_at hm.provider.2 _ _ hi
    · rintro rfl
      exact ⟨fun _ => encode_desc .tcp hm.states.1,
        fun _ => encode_desc .tcp hm.states.2.1,
        fun _ => encode_desc .tcp hm.states.2.2⟩

end

end Ntstat
