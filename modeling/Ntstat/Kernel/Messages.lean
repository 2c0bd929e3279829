import Ntstat.Kernel.Versions

/-!
# Notifications as a kernel writes them

The bytes of the four notifications in the structs of a version.  Members that are not given are
zero, and so is the rest of the buffer.
-/

namespace Ntstat
open Memory

namespace KernelStructs
variable (K : KernelStructs)

/-- a message of type `t` about `srcRef`, laid out as `s` -/
def srcrefMsg (s : CStruct MsgMember) (t : MsgType) (srcRef : UInt64) : Mem :=
  (Mem.poke (fun _ => 0) (nstatMsgHdr.offsetOf .type) 4 t.code.toNat).poke
    (s.offsetOf .srcref) K.srcRefSize srcRef.toNat

def addedMsg (srcRef : UInt64) (providerId : UInt32) : Mem :=
  (K.srcrefMsg K.srcAdded .srcAdded srcRef).poke (K.srcAdded.offsetOf .provider) 4 providerId.toNat

def removedMsg (srcRef : UInt64) : Mem := K.srcrefMsg K.srcRemoved .srcRemoved srcRef

def countsMsg (srcRef rxpackets : UInt64) : Mem :=
  (K.srcrefMsg K.srcCounts .srcCounts srcRef).poke (K.countsOff .rxpackets) 8 rxpackets.toNat

/-- an IPv4 UDP description of pid 0 -/
def udpDescMsg (srcRef : UInt64) (providerId : UInt32) (lport rport : UInt16) : Mem :=
  (((K.srcrefMsg K.srcDescription .srcDesc srcRef).poke
    (K.srcDescription.offsetOf .provider) 4 providerId.toNat).poke
    (K.udpOff .localAddr + sinPort) 2 lport.toNat).poke
    (K.udpOff .remoteAddr + sinPort) 2 rport.toNat

end KernelStructs

end Ntstat
