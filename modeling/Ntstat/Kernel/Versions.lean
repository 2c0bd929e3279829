import Ntstat.Kernel.Handler

/-!
# The five supported kernels

For each version the structs of its header `ntstat_kernel_<version>.h` and the handler over them.

* 2422, 2782, 3248   `#pragma pack(4)`, 32-bit source references, one TCP and one UDP provider;
* 3789               `#pragma pack(4)`, 64-bit source references, event flags, providers split
                     into kernel and userland;
* 4570               no packing, members reordered to be aligned.

`loadStructHandler` is the choice by kernel version.
-/

namespace Ntstat
open Memory

/-- `#pragma pack(push, 4)` -/
def pack4 : Nat := 4

/-! ## structs that several headers repeat -/

/-- a message that holds the header and a 32-bit reference -/
def msgSrcref32 : CStruct MsgMember where
  pack := pack4
  members := [hdrMember, u32Member .srcref]
  nodup := by decide

/-- the same with a 64-bit reference, packed -/
def msgSrcref64 : CStruct MsgMember where
  pack := pack4
  members := [hdrMember, u64Member .srcref]
  nodup := by decide

def msgSrcAdded32 : CStruct MsgMember where
  pack := pack4
  members := [hdrMember, u32Member .provider, u32Member .srcref]
  nodup := by decide

def msgSrcDescription32 : CStruct MsgMember where
  pack := pack4
  members := [hdrMember, u32Member .srcref, u32Member .provider, bytesMember .data 0]
  nodup := by decide

/-- `nstat_msg_error` under `pack(4)` -/
def msgErrorPacked : CStruct MsgMember where
  pack := pack4
  members := [hdrMember, u32Member .error]
  nodup := by decide

/-- `nstat_counts` of 2782, 3248 and 3789 -/
def countsPacked : CStruct CountsMember where
  pack := pack4
  members :=
    [u64Member .rxpackets, u64Member .rxbytes, u64Member .txpackets, u64Member .txbytes,
     u32Member .rxduplicatebytes, u32Member .rxoutoforderbytes, u32Member .txretransmit,
     u32Member .connectattempts, u32Member .connectsuccesses,
     u32Member .minRtt, u32Member .avgRtt, u32Member .varRtt,
     u64Member .cellRxbytes, u64Member .cellTxbytes, u64Member .wifiRxbytes,
     u64Member .wifiTxbytes, u64Member .wiredRxbytes, u64Member .wiredTxbytes]
  nodup := by decide

def msgSrcCounts32 (counts : CStruct CountsMember) : CStruct MsgMember where
  pack := pack4
  members := [hdrMember, u32Member .srcref, ⟨.counts, counts.sizeOf, counts.alignOf⟩]
  nodup := by simp [hdrMember, u32Member]

/-- `nstat_tcp_descriptor` of 3248 and 3789 -/
def tcpDescriptorPacked : CStruct DescMember where
  pack := pack4
  members :=
    [sockaddrMember .localAddr, sockaddrMember .remoteAddr, u32Member .ifindex, u32Member .state,
     u32Member .sndbufsize, u32Member .sndbufused, u32Member .rcvbufsize, u32Member .rcvbufused,
     u32Member .txunacked, u32Member .txwindow, u32Member .txcwindow, u32Member .trafficClass,
     u32Member .trafficMgtFlags, bytesMember .ccAlgo 16,
     u64Member .upid, u32Member .pid, bytesMember .pname 64, u64Member .eupid, u32Member .epid,
     bytesMember .uuid 16, bytesMember .euuid 16, bytesMember .vuuid 16,
     u32Member .connstatus, ⟨.ifnetProperties, 2, 4⟩]
  nodup := by decide

/-- `nstat_udp_descriptor` of 3248 and 3789 -/
def udpDescriptorPacked : CStruct DescMember where
  pack := pack4
  members :=
    [sockaddrMember .localAddr, sockaddrMember .remoteAddr, u32Member .ifindex,
     u32Member .rcvbufsize, u32Member .rcvbufused, u32Member .trafficClass,
     u64Member .upid, u32Member .pid, bytesMember .pname 64, u64Member .eupid, u32Member .epid,
     bytesMember .uuid 16, bytesMember .euuid 16, bytesMember .vuuid 16,
     u16Member .ifnetProperties]
  nodup := by decide

/-! ## provider ids -/

/-- up to 3248 -/
def nstatProviderTcp : UInt32 := 2
def nstatProviderUdp : UInt32 := 3

/-- from 3789 on -/
def nstatProviderTcpKernel : UInt32 := 2
def nstatProviderTcpUserland : UInt32 := 3
def nstatProviderUdpKernel : UInt32 := 4
def nstatProviderUdpUserland : UInt32 := 5

/-! ## xnu 2422 -/

def counts2422 : CStruct CountsMember where
  pack := pack4
  members :=
    [u64Member .rxpackets, u64Member .rxbytes, u64Member .txpackets, u64Member .txbytes,
     u32Member .rxduplicatebytes, u32Member .rxoutoforderbytes, u32Member .txretransmit,
     u32Member .connectattempts, u32Member .connectsuccesses,
     u32Member .minRtt, u32Member .avgRtt, u32Member .varRtt,
     u64Member .cellRxbytes, u64Member .cellTxbytes, u64Member .wifiRxbytes,
     u64Member .wifiTxbytes]
  nodup := by decide

def structs2422 : KernelStructs where
  srcRefSize := 4
  addAllSrcs :=
    { pack := pack4, members := [hdrMember, u32Member .provider], nodup := by decide }
  srcAdded := msgSrcAdded32
  srcRemoved := msgSrcref32
  remSrc := msgSrcref32
  getSrcDescription := msgSrcref32
  querySrc := msgSrcref32
  srcDescription := msgSrcDescription32
  srcCounts := msgSrcCounts32 counts2422
  counts := counts2422
  tcpDescriptor :=
    { pack := pack4
      members :=
        [sockaddrMember .localAddr, sockaddrMember .remoteAddr, u32Member .ifindex,
         u32Member .state, u32Member .sndbufsize, u32Member .sndbufused, u32Member .rcvbufsize,
         u32Member .rcvbufused, u32Member .txunacked, u32Member .txwindow, u32Member .txcwindow,
         u32Member .trafficClass,
         u64Member .upid, u32Member .pid, bytesMember .pname 64, u64Member .eupid,
         u32Member .epid, bytesMember .uuid 16, bytesMember .euuid 16]
      nodup := by decide }
  udpDescriptor :=
    { pack := pack4
      members :=
        [sockaddrMember .localAddr, sockaddrMember .remoteAddr, u32Member .ifindex,
         u32Member .rcvbufsize, u32Member .rcvbufused, u32Member .trafficClass,
         u64Member .upid, u32Member .pid, bytesMember .pname 64, u64Member .eupid,
         u32Member .epid, bytesMember .uuid 16, bytesMember .euuid 16]
      nodup := by decide }
  msgError := some msgErrorPacked

def ntStatKernel2422 : NTStatKernelStructHandler where
  writeSrcDesc := structs2422.writeSrcDesc
  writeAddAllTcpSrc := structs2422.writeAddAllSrc nstatProviderTcp
  writeAddAllUdpSrc := structs2422.writeAddAllSrc nstatProviderUdp
  isProviderTcp p := nstatProviderTcp.toUInt64 == p
  isProviderUdp p := nstatProviderUdp.toUInt64 == p
  writeQuerySrc := structs2422.writeQuerySrc
  getSrcRef := structs2422.getSrcRefWithRequests
  readSrcDesc := structs2422.readSrcDesc [nstatProviderTcp] [nstatProviderUdp] false
  readCounts := structs2422.readCountsNoWired

/-! ## xnu 2782 -/

def structs2782 : KernelStructs where
  srcRefSize := 4
  addAllSrcs :=
    { pack := pack4, members := [hdrMember, u32Member .provider], nodup := by decide }
  srcAdded := msgSrcAdded32
  srcRemoved := msgSrcref32
  remSrc := msgSrcref32
  getSrcDescription := msgSrcref32
  querySrc := msgSrcref32
  srcDescription := msgSrcDescription32
  srcCounts := msgSrcCounts32 countsPacked
  counts := countsPacked
  tcpDescriptor :=
    { pack := pack4
      members :=
        [sockaddrMember .localAddr, sockaddrMember .remoteAddr, u32Member .ifindex,
         u32Member .state, u32Member .sndbufsize, u32Member .sndbufused, u32Member .rcvbufsize,
         u32Member .rcvbufused, u32Member .txunacked, u32Member .txwindow, u32Member .txcwindow,
         u32Member .trafficClass, u32Member .trafficMgtFlags, bytesMember .ccAlgo 16,
         u64Member .upid, u32Member .pid, bytesMember .pname 64, u64Member .eupid,
         u32Member .epid, bytesMember .uuid 16, bytesMember .euuid 16, bytesMember .vuuid 16]
      nodup := by decide }
  udpDescriptor :=
    { pack := pack4
      members :=
        [sockaddrMember .localAddr, sockaddrMember .remoteAddr, u32Member .ifindex,
         u32Member .rcvbufsize, u32Member .rcvbufused, u32Member .trafficClass,
         u64Member .upid, u32Member .pid, bytesMember .pname 64, u64Member .eupid,
         u32Member .epid, bytesMember .uuid 16, bytesMember .euuid 16, bytesMember .vuuid 16]
      nodup := by decide }
  msgError := some msgErrorPacked

def ntStatKernel2782 : NTStatKernelStructHandler where
  writeSrcDesc := structs2782.writeSrcDesc
  writeAddAllTcpSrc := structs2782.writeAddAllSrc nstatProviderTcp
  writeAddAllUdpSrc := structs2782.writeAddAllSrc nstatProviderUdp
  isProviderTcp p := nstatProviderTcp.toUInt64 == p
  isProviderUdp p := nstatProviderUdp.toUInt64 == p
  writeQuerySrc := structs2782.writeQuerySrc
  getSrcRef := structs2782.getSrcRef
  readSrcDesc := structs2782.readSrcDesc [nstatProviderTcp] [nstatProviderUdp] false
  readCounts := structs2782.readCounts

/-! ## xnu 3248 -/

def structs3248 : KernelStructs where
  srcRefSize := 4
  addAllSrcs :=
    { pack := pack4
      members := [hdrMember, u32Member .provider, u64Member .filter]
      nodup := by decide }
  srcAdded := msgSrcAdded32
  srcRemoved := msgSrcref32
  remSrc := msgSrcref32
  getSrcDescription := msgSrcref32
  querySrc := msgSrcref32
  srcDescription := msgSrcDescription32
  srcCounts := msgSrcCounts32 countsPacked
  counts := countsPacked
  tcpDescriptor := tcpDescriptorPacked
  udpDescriptor := udpDescriptorPacked
  msgError := some msgErrorPacked

def ntStatKernel3248 : NTStatKernelStructHandler where
  writeSrcDesc := structs3248.writeSrcDesc
  writeAddAllTcpSrc := structs3248.writeAddAllSrc nstatProviderTcp
  writeAddAllUdpSrc := structs3248.writeAddAllSrc nstatProviderUdp
  isProviderTcp p := nstatProviderTcp.toUInt64 == p
  isProviderUdp p := nstatProviderUdp.toUInt64 == p
  writeQuerySrc := structs3248.writeQuerySrc
  getSrcRef := structs3248.getSrcRefWithRequests
  readSrcDesc := structs3248.readSrcDesc [nstatProviderTcp] [nstatProviderUdp] false
  readCounts := structs3248.readCounts

/-! ## xnu 3789 -/

def structs3789 : KernelStructs where
  srcRefSize := 8
  addAllSrcs :=
    { pack := pack4
      members :=
        [hdrMember, u32Member .provider, u64Member .filter, u64Member .events,
         u32Member .targetPid, bytesMember .targetUuid 16]
      nodup := by decide }
  srcAdded :=
    { pack := pack4
      members := [hdrMember, u32Member .provider, u64Member .srcref]
      nodup := by decide }
  srcRemoved := msgSrcref64
  remSrc := msgSrcref64
  getSrcDescription := msgSrcref64
  querySrc := msgSrcref64
  srcDescription :=
    { pack := pack4
      members :=
        [hdrMember, u64Member .srcref, u64Member .eventFlags, u32Member .provider,
         bytesMember .data 0]
      nodup := by decide }
  srcCounts :=
    { pack := pack4
      members :=
        [hdrMember, u64Member .srcref, u64Member .eventFlags,
         ⟨.counts, countsPacked.sizeOf, countsPacked.alignOf⟩]
      nodup := by decide }
  counts := countsPacked
  tcpDescriptor := tcpDescriptorPacked
  udpDescriptor := udpDescriptorPacked
  msgError := none

/-- `isProviderTcp` compares with `TCP_KERNEL` only: its second operand is the constant
`TCP_USERLAND` itself -/
def isProviderTcpSplit (p : UInt64) : Bool :=
  nstatProviderTcpKernel.toUInt64 == p || nstatProviderTcpUserland != 0

def isProviderUdpSplit (p : UInt64) : Bool :=
  nstatProviderUdpKernel.toUInt64 == p || nstatProviderUdpUserland != 0

def ntStatKernel3789 : NTStatKernelStructHandler where
  writeSrcDesc := structs3789.writeSrcDesc
  writeAddAllTcpSrc := structs3789.writeAddAllSrc nstatProviderTcpKernel
  writeAddAllUdpSrc := structs3789.writeAddAllSrc nstatProviderUdpKernel
  isProviderTcp := isProviderTcpSplit
  isProviderUdp := isProviderUdpSplit
  writeQuerySrc := structs3789.writeQuerySrc
  getSrcRef := structs3789.getSrcRefWithRequests
  readSrcDesc := structs3789.readSrcDesc [nstatProviderTcpKernel, nstatProviderTcpUserland]
    [nstatProviderUdpKernel, nstatProviderUdpUserland] false
  readCounts := structs3789.readCounts

/-! ## xnu 4570 -/

def msgSrcrefAligned : CStruct MsgMember where
  pack := noPack
  members := [hdrMember, u64Member .srcref]
  nodup := by decide

def counts4570 : CStruct CountsMember where
  pack := noPack
  members :=
    [u64Member .rxpackets, u64Member .rxbytes, u64Member .txpackets, u64Member .txbytes,
     u64Member .cellRxbytes, u64Member .cellTxbytes, u64Member .wifiRxbytes,
     u64Member .wifiTxbytes, u64Member .wiredRxbytes, u64Member .wiredTxbytes,
     u32Member .rxduplicatebytes, u32Member .rxoutoforderbytes, u32Member .txretransmit,
     u32Member .connectattempts, u32Member .connectsuccesses,
     u32Member .minRtt, u32Member .avgRtt, u32Member .varRtt]
  nodup := by decide

def structs4570 : KernelStructs where
  srcRefSize := 8
  addAllSrcs :=
    { pack := noPack
      members :=
        [hdrMember, u64Member .filter, u64Member .events, u32Member .provider,
         u32Member .targetPid, bytesMember .targetUuid 16]
      nodup := by decide }
  srcAdded :=
    { pack := noPack
      members := [hdrMember, u64Member .srcref, u32Member .provider, bytesMember .reserved 4]
      nodup := by decide }
  srcRemoved := msgSrcrefAligned
  remSrc := msgSrcrefAligned
  getSrcDescription := msgSrcrefAligned
  querySrc := msgSrcrefAligned
  srcDescription :=
    { pack := noPack
      members :=
        [hdrMember, u64Member .srcref, u64Member .eventFlags, u32Member .provider,
         bytesMember .reserved 4, bytesMember .data 0]
      nodup := by decide }
  srcCounts :=
    { pack := noPack
      members :=
        [hdrMember, u64Member .srcref, u64Member .eventFlags,
         ⟨.counts, counts4570.sizeOf, counts4570.alignOf⟩]
      nodup := by decide }
  counts := counts4570
  tcpDescriptor :=
    { pack := noPack
      members :=
        [u64Member .upid, u64Member .eupid, u64Member .startTimestamp, u64Member .timestamp,
         ⟨.activityBitmap, 24, 8⟩, u32Member .ifindex, u32Member .state,
         u32Member .sndbufsize, u32Member .sndbufused, u32Member .rcvbufsize,
         u32Member .rcvbufused, u32Member .txunacked, u32Member .txwindow, u32Member .txcwindow,
         u32Member .trafficClass, u32Member .trafficMgtFlags, u32Member .pid, u32Member .epid,
         sockaddrMember .localAddr, sockaddrMember .remoteAddr,
         bytesMember .ccAlgo 16, bytesMember .pname 64,
         bytesMember .uuid 16, bytesMember .euuid 16, bytesMember .vuuid 16,
         u32Member .connstatus, ⟨.ifnetProperties, 2, 4⟩, bytesMember .reserved 6]
      nodup := by decide }
  udpDescriptor :=
    { pack := noPack
      members :=
        [u64Member .upid, u64Member .eupid, u64Member .startTimestamp, u64Member .timestamp,
         ⟨.activityBitmap, 24, 8⟩, sockaddrMember .localAddr, sockaddrMember .remoteAddr,
         u32Member .ifindex, u32Member .rcvbufsize, u32Member .rcvbufused,
         u32Member .trafficClass, u32Member .pid, bytesMember .pname 64, u32Member .epid,
         bytesMember .uuid 16, bytesMember .euuid 16, bytesMember .vuuid 16,
         u16Member .ifnetProperties, bytesMember .reserved 6]
      nodup := by decide }
  msgError := some
    { pack := noPack
      members := [hdrMember, u32Member .error, bytesMember .reserved 4]
      nodup := by decide }

/-- the last version; its `readSrcDesc` returns true for a provider it does not know -/
def ntStatKernel4570 : NTStatKernelStructHandler where
  writeSrcDesc := structs4570.writeSrcDesc
  writeAddAllTcpSrc := structs4570.writeAddAllSrc nstatProviderTcpKernel
  writeAddAllUdpSrc := structs4570.writeAddAllSrc nstatProviderUdpKernel
  isProviderTcp := isProviderTcpSplit
  isProviderUdp := isProviderUdpSplit
  writeQuerySrc := structs4570.writeQuerySrc
  getSrcRef := structs4570.getSrcRef
  readSrcDesc := structs4570.readSrcDesc [nstatProviderTcpKernel, nstatProviderTcpUserland]
    [nstatProviderUdpKernel, nstatProviderUdpUserland] true
  readCounts := structs4570.readCounts

/-! ## the choice of a handler -/

inductive KernelVersion where
  | xnu2422
  | xnu2782
  | xnu3248
  | xnu3789
  | xnu4570
deriving DecidableEq

def KernelVersion.structs : KernelVersion → KernelStructs
  | xnu2422 => structs2422
  | xnu2782 => structs2782
  | xnu3248 => structs3248
  | xnu3789 => structs3789
  | xnu4570 => structs4570

def KernelVersion.handler : KernelVersion → NTStatKernelStructHandler
  | xnu2422 => ntStatKernel2422
  | xnu2782 => ntStatKernel2782
  | xnu3248 => ntStatKernel3248
  | xnu3789 => ntStatKernel3789
  | xnu4570 => ntStatKernel4570

/-- `_loadStructHandler` -/
def loadStructHandler (xnuVersion : UInt32) : KernelVersion :=
  if xnuVersion > 3800 then .xnu4570
  else if xnuVersion > 3300 then .xnu3789
  else if xnuVersion > 3200 then .xnu3248
  else if xnuVersion > 2700 then .xnu2782
  else .xnu2422

/-- the message sizes that the comment at the top of the client and the headers give -/
example : structs3789.srcAdded.sizeOf = 28 ∧ structs3789.srcCounts.sizeOf = 144 ∧
    structs3789.srcRemoved.sizeOf = 24 ∧
    structs3789.srcDescription.sizeOf + structs3789.tcpDescriptor.sizeOf = 296 := by decide

end Ntstat
