import Ntstat.Memory.Layout
import Ntstat.Stream

/-!
# The struct handlers: reading and writing versioned kernel structs

`NTStatKernelStructHandler` is the abstract class of the client; its five implementations are
copies of one body over the structs of five kernel headers.  `KernelStructs` holds the struct
definitions one header gives, and the functions below are the shared body over them.

The machine is little-endian; ports and addresses are copied as they stand in the message.
-/

namespace Ntstat
open Memory

/-! ## message types -/

inductive MsgType where
  | success
  | error
  | addSrc
  | addAllSrcs
  | remSrc
  | querySrc
  | getSrcDesc
  | srcAdded
  | srcRemoved
  | srcDesc
  | srcCounts
  | unknown
deriving DecidableEq

/-- the `NSTAT_MSG_TYPE_*` values -/
def MsgType.code : MsgType → UInt32
  | success => 0
  | error => 1
  | addSrc => 1001
  | addAllSrcs => 1002
  | remSrc => 1003
  | querySrc => 1004
  | getSrcDesc => 1005
  | srcAdded => 10001
  | srcRemoved => 10002
  | srcDesc => 10003
  | srcCounts => 10004
  | unknown => 0xffffffff

def MsgType.ofCode (c : UInt32) : MsgType :=
  if c = 0 then success
  else if c = 1 then error
  else if c = 1001 then addSrc
  else if c = 1002 then addAllSrcs
  else if c = 1003 then remSrc
  else if c = 1004 then querySrc
  else if c = 1005 then getSrcDesc
  else if c = 10001 then srcAdded
  else if c = 10002 then srcRemoved
  else if c = 10003 then srcDesc
  else if c = 10004 then srcCounts
  else unknown

@[simp] theorem MsgType.ofCode_code (t : MsgType) : ofCode t.code = t := by
  cases t <;> rfl

/-- a known type has one code -/
theorem MsgType.code_ofCode {c : UInt32} (h : ofCode c ≠ unknown) : (ofCode c).code = c := by
  by_contra hc
  have hne : ∀ t : MsgType, ¬ c = t.code := fun t he => hc (by rw [he, ofCode_code])
  refine h ?_
  unfold ofCode
  rw [if_neg (show ¬ c = 0 from hne success), if_neg (show ¬ c = 1 from hne error),
    if_neg (show ¬ c = 1001 from hne addSrc), if_neg (show ¬ c = 1002 from hne addAllSrcs),
    if_neg (show ¬ c = 1003 from hne remSrc), if_neg (show ¬ c = 1004 from hne querySrc),
    if_neg (show ¬ c = 1005 from hne getSrcDesc), if_neg (show ¬ c = 10001 from hne srcAdded),
    if_neg (show ¬ c = 10002 from hne srcRemoved), if_neg (show ¬ c = 10003 from hne srcDesc),
    if_neg (show ¬ c = 10004 from hne srcCounts)]

/-! ## the header, the same in every version -/

inductive HdrMember where
  | context
  | type
  | length
  | flags
deriving DecidableEq

/-- no `#pragma pack` in force -/
def noPack : Nat := 16

def nstatMsgHdr : CStruct HdrMember where
  pack := noPack
  members := [⟨.context, 8, 8⟩, ⟨.type, 4, 4⟩, ⟨.length, 2, 2⟩, ⟨.flags, 2, 2⟩]
  nodup := by decide

def hdrContext (m : Mem) : UInt64 := u64 m (nstatMsgHdr.offsetOf .context)
def hdrType (m : Mem) : MsgType := MsgType.ofCode (u32 m (nstatMsgHdr.offsetOf .type))

theorem hdr_offsets : nstatMsgHdr.offsetOf .context = 0 ∧ nstatMsgHdr.offsetOf .type = 8 ∧
    nstatMsgHdr.sizeOf = 16 := by decide

/-- the bytes of a header; `NTSTAT_MSG_HDR` writes one with flags 0 -/
def hdrImage (context : UInt64) (type : UInt32) (length flags : Nat) : Mem :=
  nstatMsgHdr.image (fun
    | .context => byteOf context.toNat
    | .type => byteOf type.toNat
    | .length => byteOf length
    | .flags => byteOf flags) (fun _ => 0)

/-! ## the struct definitions of a kernel header -/

/-- members of the messages -/
inductive MsgMember where
  | hdr
  | srcref
  | provider
  | eventFlags
  | counts
  | data
  | filter
  | events
  | targetPid
  | targetUuid
  | error
  | reserved
deriving DecidableEq

/-- members of `nstat_counts` -/
inductive CountsMember where
  | rxpackets
  | rxbytes
  | txpackets
  | txbytes
  | rxduplicatebytes
  | rxoutoforderbytes
  | txretransmit
  | connectattempts
  | connectsuccesses
  | minRtt
  | avgRtt
  | varRtt
  | cellRxbytes
  | cellTxbytes
  | wifiRxbytes
  | wifiTxbytes
  | wiredRxbytes
  | wiredTxbytes
deriving DecidableEq

/-- members of `nstat_tcp_descriptor` and `nstat_udp_descriptor` -/
inductive DescMember where
  | upid
  | eupid
  | startTimestamp
  | timestamp
  | activityBitmap
  | localAddr
  | remoteAddr
  | ifindex
  | state
  | sndbufsize
  | sndbufused
  | rcvbufsize
  | rcvbufused
  | txunacked
  | txwindow
  | txcwindow
  | trafficClass
  | trafficMgtFlags
  | ccAlgo
  | pid
  | epid
  | pname
  | uuid
  | euuid
  | vuuid
  | connstatus
  | ifnetProperties
  | reserved
deriving DecidableEq

section
variable {ι : Type} (i : ι)

def u64Member : Member ι := ⟨i, 8, 8⟩
def u32Member : Member ι := ⟨i, 4, 4⟩
def u16Member : Member ι := ⟨i, 2, 2⟩
/-- an array of `n` bytes; `uuid_t` is one of 16 -/
def bytesMember (n : Nat) : Member ι := ⟨i, n, 1⟩
/-- the union of `sockaddr_in` (16 bytes) and `sockaddr_in6` (28 bytes) -/
def sockaddrMember : Member ι := ⟨i, 28, 4⟩
def hdrMember : Member MsgMember := ⟨.hdr, nstatMsgHdr.sizeOf, nstatMsgHdr.alignOf⟩

end

/-- the structs of one kernel header that the client uses -/
structure KernelStructs where
  /-- `sizeof(nstat_src_ref_t)` -/
  srcRefSize : Nat
  addAllSrcs : CStruct MsgMember
  srcAdded : CStruct MsgMember
  srcRemoved : CStruct MsgMember
  remSrc : CStruct MsgMember
  getSrcDescription : CStruct MsgMember
  querySrc : CStruct MsgMember
  srcDescription : CStruct MsgMember
  srcCounts : CStruct MsgMember
  counts : CStruct CountsMember
  tcpDescriptor : CStruct DescMember
  udpDescriptor : CStruct DescMember
  /-- `nstat_msg_error`, where the header has it -/
  msgError : Option (CStruct MsgMember)

/-! ## the class -/

/-- `NTStatKernelStructHandler`: the write methods give the bytes handed to `MsgDest::send`, with
`seqnum` the value of `MsgDest::seqnum`; `readSrcDesc` has no result where its `strcpy` runs out
of the destination -/
structure NTStatKernelStructHandler where
  writeSrcDesc : (seqnum providerId srcRef : UInt64) → List UInt8
  writeAddAllTcpSrc : (seqnum : UInt64) → List UInt8
  writeAddAllUdpSrc : (seqnum : UInt64) → List UInt8
  isProviderTcp : (providerId : UInt64) → Bool
  isProviderUdp : (providerId : UInt64) → Bool
  writeQuerySrc : (seqnum srcRef : UInt64) → List UInt8
  getSrcRef : (msg : Mem) → (structlen : Nat) → (out : UInt64 × UInt32) → UInt64 × UInt32
  readSrcDesc : (msg : Mem) → (structlen : Nat) → (dest : NTStatStream) →
    Option (Bool × NTStatStream)
  readCounts : (msg : Mem) → (structlen : Nat) → (dest : NTStatCounters) → NTStatCounters

namespace KernelStructs
variable (K : KernelStructs)

/-! ## requests -/

/-- a request struct with its header, the rest zero but `vals` -/
def request (s : CStruct MsgMember) (type : MsgType) (seqnum : UInt64) (vals : MsgMember → Mem) :
    List UInt8 :=
  (s.image (fun
    | .hdr => hdrImage seqnum type.code s.sizeOf 0
    | i => vals i) (fun _ => 0)).take s.sizeOf

def srcrefVals (srcRef : UInt64) : MsgMember → Mem
  | .srcref => byteOf srcRef.toNat
  | _ => fun _ => 0

def providerVals (providerId : UInt32) : MsgMember → Mem
  | .provider => byteOf providerId.toNat
  | _ => fun _ => 0

def writeSrcDesc (seqnum _providerId srcRef : UInt64) : List UInt8 :=
  request K.getSrcDescription .getSrcDesc seqnum (srcrefVals srcRef)

def writeQuerySrc (seqnum srcRef : UInt64) : List UInt8 :=
  request K.querySrc .querySrc seqnum (srcrefVals srcRef)

def writeAddAllSrc (providerId : UInt32) (seqnum : UInt64) : List UInt8 :=
  request K.addAllSrcs .addAllSrcs seqnum (providerVals providerId)

/-! ## the reference in a message -/

def readSrcref (s : CStruct MsgMember) (msg : Mem) : UInt64 :=
  UInt64.ofNat (readLE msg (s.offsetOf .srcref) K.srcRefSize)

def readProvider (s : CStruct MsgMember) (msg : Mem) : UInt32 := u32 msg (s.offsetOf .provider)

/-- `getSrcRef` of the versions that know the notifications only -/
def getSrcRef (msg : Mem) (_structlen : Nat) (out : UInt64 × UInt32) : UInt64 × UInt32 :=
  match hdrType msg with
  | .srcCounts => (K.readSrcref K.srcCounts msg, out.2)
  | .srcDesc => (K.readSrcref K.srcDescription msg, readProvider K.srcDescription msg)
  | .srcAdded => (K.readSrcref K.srcAdded msg, readProvider K.srcAdded msg)
  | .srcRemoved => (K.readSrcref K.srcRemoved msg, out.2)
  | _ => out

/-- `getSrcRef` of the versions that know the requests too -/
def getSrcRefWithRequests (msg : Mem) (structlen : Nat) (out : UInt64 × UInt32) :
    UInt64 × UInt32 :=
  match hdrType msg with
  | .querySrc => (K.readSrcref K.querySrc msg, out.2)
  | .getSrcDesc => (K.readSrcref K.getSrcDescription msg, out.2)
  | .remSrc => (K.readSrcref K.remSrc msg, out.2)
  | _ => K.getSrcRef msg structlen out

/-! ## descriptions -/

def ipprotoTcp : UInt8 := 6
def ipprotoUdp : UInt8 := 17
/-- `AF_INET6` on Darwin -/
def afInet6 : UInt8 := 30

/-- offsets in `sockaddr_in` and `sockaddr_in6` -/
def sinFamily : Nat := 1
def sinPort : Nat := 2
def sinAddr : Nat := 4
def sin6Addr : Nat := 8

/-- place of a descriptor member in the message -/
def tcpOff (i : DescMember) : Nat := K.srcDescription.offsetOf .data + K.tcpDescriptor.offsetOf i
def udpOff (i : DescMember) : Nat := K.srcDescription.offsetOf .data + K.udpDescriptor.offsetOf i

/-- the key fields from the socket addresses at `la` and `ra` -/
def readKey (msg : Mem) (ifindex la ra : Nat) (ipproto : UInt8) (key : NTStatStreamKey) :
    NTStatStreamKey :=
  if msg (la + sinFamily) = afInet6 then
    { isV6 := 1
      ipproto
      ifindex := u32 msg ifindex
      lport := u16 msg (la + sinPort)
      rport := u16 msg (ra + sinPort)
      localAddr := overwrite key.localAddr (msg.shift (la + sin6Addr)) 16
      remoteAddr := overwrite key.remoteAddr (msg.shift (ra + sin6Addr)) 16 }
  else
    { isV6 := 0
      ipproto
      ifindex := u32 msg ifindex
      lport := u16 msg (la + sinPort)
      rport := u16 msg (ra + sinPort)
      localAddr := overwrite key.localAddr (msg.shift (la + sinAddr)) 4
      remoteAddr := overwrite key.remoteAddr (msg.shift (ra + sinAddr)) 4 }

/-- the string that is copied: `pname` if there is a pid and a name -/
def nameSrc (msg : Mem) (pid pname : Nat) : Mem :=
  if 0 < u32 msg pid ∧ msg pname ≠ 0 then msg.shift pname else fun _ => 0

def readName (msg : Mem) (pid pname : Nat) (dest : NTStatStream) : Option NTStatStream :=
  ({ dest with process := { dest.process with pid := u32 msg pid } } : NTStatStream).strcpyName
    (nameSrc msg pid pname)

def readTcpSrcDesc (msg : Mem) (dest : NTStatStream) : Option NTStatStream :=
  readName msg (K.tcpOff .pid) (K.tcpOff .pname)
    { dest with
      key := readKey msg (K.tcpOff .ifindex) (K.tcpOff .localAddr) (K.tcpOff .remoteAddr)
        ipprotoTcp dest.key
      states :=
        { txwindow := u32 msg (K.tcpOff .txwindow)
          txcwindow := u32 msg (K.tcpOff .txcwindow)
          state := u32 msg (K.tcpOff .state) } }

def readUdpSrcDesc (msg : Mem) (dest : NTStatStream) : Option NTStatStream :=
  readName msg (K.udpOff .pid) (K.udpOff .pname)
    { dest with
      key := readKey msg (K.udpOff .ifindex) (K.udpOff .localAddr) (K.udpOff .remoteAddr)
        ipprotoUdp dest.key }

/-- `readSrcDesc`: `tcp` and `udp` are the provider ids compared with; `other` is the result for
any other provider -/
def readSrcDesc (tcp udp : List UInt32) (other : Bool) (msg : Mem) (_structlen : Nat)
    (dest : NTStatStream) : Option (Bool × NTStatStream) :=
  if readProvider K.srcDescription msg ∈ tcp then
    (K.readTcpSrcDesc msg dest).map fun d => (true, d)
  else if readProvider K.srcDescription msg ∈ udp then
    (K.readUdpSrcDesc msg dest).map fun d => (true, d)
  else
    some (other, dest)

/-! ## counts -/

def countsOff (i : CountsMember) : Nat := K.srcCounts.offsetOf .counts + K.counts.offsetOf i

/-- `readCounts` where the header has no wired counters -/
def readCountsNoWired (msg : Mem) (_structlen : Nat) (dest : NTStatCounters) : NTStatCounters :=
  { dest with
    rxbytes := u64 msg (K.countsOff .rxbytes)
    txbytes := u64 msg (K.countsOff .txbytes)
    rxpackets := u64 msg (K.countsOff .rxpackets)
    txpackets := u64 msg (K.countsOff .txpackets)
    cellRxbytes := u64 msg (K.countsOff .cellRxbytes)
    cellTxbytes := u64 msg (K.countsOff .cellTxbytes)
    wifiRxbytes := u64 msg (K.countsOff .wifiRxbytes)
    wifiTxbytes := u64 msg (K.countsOff .wifiTxbytes) }

def readCounts (msg : Mem) (structlen : Nat) (dest : NTStatCounters) : NTStatCounters :=
  { K.readCountsNoWired msg structlen dest with
    wiredRxbytes := u64 msg (K.countsOff .wiredRxbytes)
    wiredTxbytes := u64 msg (K.countsOff .wiredTxbytes) }

end KernelStructs

end Ntstat
