import Ntstat.Memory.Bytes

/-!
# What the listener is shown: `NTStatStream`, and the record kept for every source

`NTStatStream` is laid out as in the public header; `strcpyName` is the `strcpy` into its
64-byte `process.name`.  The copy is not bounded by the array: what does not fit runs on into
`stats` and `states`, which follow it (`name` is at 56, `stats` at 120, `states` at 200, the
object ends at 216).  A string that leaves the object has no defined result.
-/

namespace Ntstat
open Memory

/-! ## the public types -/

structure NTStatCounters where
  rxpackets : UInt64 := 0
  txpackets : UInt64 := 0
  rxbytes : UInt64 := 0
  txbytes : UInt64 := 0
  cellRxbytes : UInt64 := 0
  cellTxbytes : UInt64 := 0
  wifiRxbytes : UInt64 := 0
  wifiTxbytes : UInt64 := 0
  wiredRxbytes : UInt64 := 0
  wiredTxbytes : UInt64 := 0
deriving DecidableEq

structure NTStatStreamState where
  state : UInt32 := 0
  txcwindow : UInt32 := 0
  txwindow : UInt32 := 0
deriving DecidableEq

/-- `addr_t`: the union of `in_addr` (its first 4 bytes) and `in6_addr` -/
abbrev Addr := Vector UInt8 16

structure NTStatStreamKey where
  isV6 : UInt8 := 0
  ipproto : UInt8 := 0
  ifindex : UInt32 := 0
  lport : UInt16 := 0
  rport : UInt16 := 0
  localAddr : Addr := Vector.replicate 16 0
  remoteAddr : Addr := Vector.replicate 16 0
deriving DecidableEq

structure NTStatProcess where
  pid : UInt32 := 0
  name : Vector UInt8 64 := Vector.replicate 64 0
deriving DecidableEq

structure NTStatStream where
  id : UInt64 := 0
  key : NTStatStreamKey := {}
  process : NTStatProcess := {}
  stats : NTStatCounters := {}
  states : NTStatStreamState := {}
deriving DecidableEq

/-- both ports 0: the sources that are not reported -/
def NTStatStreamKey.noPorts (k : NTStatStreamKey) : Bool := k.lport == 0 && k.rport == 0

/-- `IS_LISTEN_PORT` -/
def isListenPort (s : NTStatStream) : Bool := 0 == s.key.rport

/-! ## `strcpy` into `process.name` -/

/-- bytes from `process.name` to the end of the object -/
def nameRoom : Nat := 160

/-- the 8 bytes at distance `at_` from the start of the name after `k` bytes were copied there -/
def spill64 (v : UInt64) (src : Mem) (k at_ : Nat) : UInt64 :=
  u64 (fun i => if at_ + i < k then src (at_ + i) else byteOf v.toNat i) 0

def spill32 (v : UInt32) (src : Mem) (k at_ : Nat) : UInt32 :=
  u32 (fun i => if at_ + i < k then src (at_ + i) else byteOf v.toNat i) 0

theorem spill64_of_le {v : UInt64} {src : Mem} {k at_ : Nat} (h : k ≤ at_) :
    spill64 v src k at_ = v :=
  u64_byteOf (fun i _ => by rw [Nat.zero_add, if_neg (by omega)])

theorem spill32_of_le {v : UInt32} {src : Mem} {k at_ : Nat} (h : k ≤ at_) :
    spill32 v src k at_ = v :=
  u32_byteOf (fun i _ => by rw [Nat.zero_add, if_neg (by omega)])

@[irreducible] def NTStatCounters.spill (c : NTStatCounters) (src : Mem) (k : Nat) :
    NTStatCounters where
  rxpackets := spill64 c.rxpackets src k 64
  txpackets := spill64 c.txpackets src k 72
  rxbytes := spill64 c.rxbytes src k 80
  txbytes := spill64 c.txbytes src k 88
  cellRxbytes := spill64 c.cellRxbytes src k 96
  cellTxbytes := spill64 c.cellTxbytes src k 104
  wifiRxbytes := spill64 c.wifiRxbytes src k 112
  wifiTxbytes := spill64 c.wifiTxbytes src k 120
  wiredRxbytes := spill64 c.wiredRxbytes src k 128
  wiredTxbytes := spill64 c.wiredTxbytes src k 136

@[irreducible] def NTStatStreamState.spill (s : NTStatStreamState) (src : Mem) (k : Nat) :
    NTStatStreamState where
  state := spill32 s.state src k 144
  txcwindow := spill32 s.txcwindow src k 148
  txwindow := spill32 s.txwindow src k 152

/-- the first `k` bytes from `process.name` on replaced from `src` -/
def NTStatStream.writeName (d : NTStatStream) (src : Mem) (k : Nat) : NTStatStream :=
  { d with
    process := { d.process with name := overwrite d.process.name src k }
    stats := d.stats.spill src k
    states := d.states.spill src k }

@[simp] theorem NTStatStream.writeName_id (d : NTStatStream) (src : Mem) (k : Nat) :
    (d.writeName src k).id = d.id := by simp only [writeName]
@[simp] theorem NTStatStream.writeName_key (d : NTStatStream) (src : Mem) (k : Nat) :
    (d.writeName src k).key = d.key := by simp only [writeName]
@[simp] theorem NTStatStream.writeName_pid (d : NTStatStream) (src : Mem) (k : Nat) :
    (d.writeName src k).process.pid = d.process.pid := by simp only [writeName]

/-- `strcpy(dest->process.name, src)`; `none` where the string leaves the object -/
def NTStatStream.strcpyName (d : NTStatStream) (src : Mem) : Option NTStatStream :=
  (findNul src nameRoom).map fun l => d.writeName src (l + 1)

theorem NTStatCounters.spill_of_le {c : NTStatCounters} {src : Mem} {k : Nat} (h : k ≤ 64) :
    c.spill src k = c := by
  unfold spill
  rw [spill64_of_le h, spill64_of_le (by omega), spill64_of_le (by omega),
    spill64_of_le (by omega), spill64_of_le (by omega), spill64_of_le (by omega),
    spill64_of_le (by omega), spill64_of_le (by omega), spill64_of_le (by omega),
    spill64_of_le (by omega)]

theorem NTStatStreamState.spill_of_le {s : NTStatStreamState} {src : Mem} {k : Nat}
    (h : k ≤ 144) : s.spill src k = s := by
  unfold spill
  rw [spill32_of_le h, spill32_of_le (by omega), spill32_of_le (by omega)]

/-- a string that fits the 64 bytes changes the name only -/
theorem NTStatStream.writeName_of_le {d : NTStatStream} {src : Mem} {k : Nat} (h : k ≤ 64) :
    d.writeName src k
      = { d with process := { d.process with name := overwrite d.process.name src k } } := by
  rw [writeName, NTStatCounters.spill_of_le h, NTStatStreamState.spill_of_le (by omega)]

/-- only the copied bytes matter -/
theorem NTStatStream.writeName_congr (d : NTStatStream) {src src' : Mem} {k : Nat}
    (h : Mem.Agree k src src') : d.writeName src k = d.writeName src' k := by
  have h64 : ∀ v at_, spill64 v src k at_ = spill64 v src' k at_ := by
    intro v at_
    unfold spill64
    congr 1
    funext i
    split
    · next hi => exact h _ hi
    · rfl
  have h32 : ∀ v at_, spill32 v src k at_ = spill32 v src' k at_ := by
    intro v at_
    unfold spill32
    congr 1
    funext i
    split
    · next hi => exact h _ hi
    · rfl
  unfold writeName NTStatCounters.spill NTStatStreamState.spill
  rw [overwrite_congr _ h]
  simp only [h64, h32]

/-- only the string matters -/
theorem NTStatStream.strcpyName_congr (d : NTStatStream) {src src' : Mem} {n i : Nat}
    (h : Mem.Agree n src src') (hi : i < n) (hr : i < nameRoom) (h0 : src i = 0) :
    d.strcpyName src = d.strcpyName src' := by
  obtain ⟨l, hl, e⟩ := findNul_isSome hr h0
  unfold strcpyName
  rw [← findNul_agree h hi hr h0, e, Option.map_some, Option.map_some,
    d.writeName_congr (h.mono (show l + 1 ≤ n by omega))]

/-- the copy of a terminated name stays inside the array -/
theorem NTStatStream.strcpyName_of_nul {d : NTStatStream} (src : Mem) {i : Nat} (hi : i < 64)
    (h : src i = 0) : ∃ l < 64, findNul src nameRoom = some l ∧ d.strcpyName src = some { d with
      process := { d.process with name := overwrite d.process.name src (l + 1) } } := by
  obtain ⟨l, hl, e⟩ := findNul_isSome (show i < nameRoom by unfold nameRoom; omega) h
  refine ⟨l, by omega, e, ?_⟩
  rw [strcpyName, e, Option.map_some, writeName_of_le (by omega)]

theorem NTStatStream.strcpyName_frame {d d' : NTStatStream} {src : Mem}
    (h : d.strcpyName src = some d') : d'.id = d.id ∧ d'.key = d.key ∧
      d'.process.pid = d.process.pid := by
  obtain ⟨l, _, rfl⟩ := Option.map_eq_some_iff.mp h
  exact ⟨writeName_id .., writeName_key .., writeName_pid ..⟩

/-! ## the record of a source -/

/-- `time_t` -/
abbrev Time := Int

structure NetstatSource where
  srcRef : UInt64
  providerId : UInt32
  obj : NTStatStream := {}
  haveDesc : Bool := false
  haveNotifiedAdded : Bool := false
  requestedCount : Bool := false
  tsAdded : Time := 0
  tsRemoved : Time := 0
  tsLastUpdate : Time := 0
deriving DecidableEq

/-- the text that replaces the name of pid 0 -/
def kernelTask : Mem := Mem.ofList ("kernel_task".toList.map fun c => UInt8.ofNat c.toNat)

end Ntstat
