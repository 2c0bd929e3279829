import Ntstat.Kernel.Decode

/-!
# Which bytes a description is read from

* `DescPlace.Received`    the bytes of a description that `readSrcDesc` uses were received;
* `readDescAt_agree`      then the result depends on the received bytes only, and there is one;
* `received_of_readDescAt`   and only then: a result that all buffers with the received bytes have;
* `KernelVersion.Received`   the same for a whole message of a version.
-/

namespace Ntstat
open Memory KernelStructs

namespace DescPlace
variable (P : DescPlace) (n : Nat) (msg : Mem)

/-- interface, ports and addresses were received; the family decides how long an address is -/
def KeyReceived : Prop :=
  P.ifindex + 4 ≤ n ∧
    if msg (P.localAddr + sinFamily) = afInet6 then
      P.localAddr + sin6Addr + 16 ≤ n ∧ P.remoteAddr + sin6Addr + 16 ≤ n
    else P.localAddr + sinAddr + 4 ≤ n ∧ P.remoteAddr + sinAddr + 4 ≤ n

/-- the pid was received, and the name with its NUL unless the pid is 0 -/
def NameReceived : Prop :=
  P.pid + 4 ≤ n ∧ (u32 msg P.pid = 0 ∨
    ∃ j < nameRoom, P.pname + j < n ∧ msg (P.pname + j) = 0)

def Received : Prop := P.KeyReceived n msg ∧ P.NameReceived n msg

/-- the name stands behind everything else that is read -/
structure NameLast : Prop where
  ifindex : P.ifindex + 4 ≤ P.pname
  localAddr : P.localAddr + 24 ≤ P.pname
  remoteAddr : P.remoteAddr + 24 ≤ P.pname
  pid : P.pid + 4 ≤ P.pname

end DescPlace

variable {P : DescPlace} {n : Nat} {m m' : Mem}

/-! ## received bytes are enough -/

theorem readKey_agree (h : Mem.Agree n m m') (hr : P.KeyReceived n m) (ipproto : UInt8)
    (key : NTStatStreamKey) : readKey m P.ifindex P.localAddr P.remoteAddr ipproto key =
      readKey m' P.ifindex P.localAddr P.remoteAddr ipproto key := by
  obtain ⟨h1, h2⟩ := hr
  have haddr : ∀ off k, off + k ≤ n → Mem.Agree k (m.shift off) (m'.shift off) :=
    fun off k hk i hi => h (off + i) (by omega)
  have hfam : m (P.localAddr + sinFamily) = m' (P.localAddr + sinFamily) := by
    refine h _ ?_
    unfold sinFamily sin6Addr sinAddr at *
    split at h2 <;> omega
  have hports : P.localAddr + sinPort + 2 ≤ n ∧ P.remoteAddr + sinPort + 2 ≤ n := by
    unfold sinPort sin6Addr sinAddr at *
    split at h2 <;> omega
  unfold readKey
  rw [← hfam, u32_agree h h1, u16_agree h hports.1, u16_agree h hports.2]
  by_cases hv : m (P.localAddr + sinFamily) = afInet6
  · rw [if_pos hv] at h2
    rw [if_pos hv, if_pos hv, overwrite_congr _ (haddr _ _ h2.1),
      overwrite_congr _ (haddr _ _ h2.2)]
  · rw [if_neg hv] at h2
    rw [if_neg hv, if_neg hv, overwrite_congr _ (haddr _ _ h2.1),
      overwrite_congr _ (haddr _ _ h2.2)]

/-- the name that is copied ends at a NUL that was received -/
theorem nameSrc_agree (h : Mem.Agree n m m') (hr : P.NameReceived n m) :
    ∃ l < nameRoom, findNul (nameSrc m P.pid P.pname) nameRoom = some l ∧
      findNul (nameSrc m' P.pid P.pname) nameRoom = some l ∧
      Mem.Agree (l + 1) (nameSrc m P.pid P.pname) (nameSrc m' P.pid P.pname) := by
  obtain ⟨hpid, hname⟩ := hr
  have hp : u32 m P.pid = u32 m' P.pid := u32_agree h hpid
  have hzero : findNul (fun _ => 0) nameRoom = some 0 :=
    findNul_eq_some.mpr ⟨by decide, rfl, fun i hi => absurd hi (Nat.not_lt_zero i)⟩
  by_cases hc : 0 < u32 m P.pid ∧ m P.pname ≠ 0
  · obtain ⟨j, hj, hjn, hj0⟩ := hname.resolve_left fun h0 => by simp [h0] at hc
    have hhead : m P.pname = m' P.pname := h _ (by omega)
    have hc' : 0 < u32 m' P.pid ∧ m' P.pname ≠ 0 := by rwa [← hp, ← hhead]
    have hagree : Mem.Agree (n - P.pname) (m.shift P.pname) (m'.shift P.pname) :=
      fun i hi => h (P.pname + i) (by omega)
    have hnul : m.shift P.pname j = 0 := hj0
    unfold nameSrc
    rw [if_pos hc, if_pos hc']
    obtain ⟨l, hl, he⟩ := findNul_isSome hj hnul
    have he' := findNul_agree hagree (show j < n - P.pname by omega) hj hnul
    exact ⟨l, by omega, he, he' ▸ he, hagree.mono (by omega)⟩
  · have hc' : ¬ (0 < u32 m' P.pid ∧ m' P.pname ≠ 0) := by
      intro hex
      obtain ⟨h1, h2⟩ := hex
      rw [← hp] at h1
      rcases hname with h0 | ⟨j, _, hjn, _⟩
      · rw [h0] at h1
        exact absurd h1 (by decide)
      · refine hc ⟨h1, fun h0 => h2 ?_⟩
        rw [← h _ (by omega)]
        exact h0
    unfold nameSrc
    rw [if_neg hc, if_neg hc']
    exact ⟨0, by decide, hzero, hzero, fun _ _ => rfl⟩

/-- **A received description has a result that depends on the received bytes only.** -/
theorem readDescAt_agree (h : Mem.Agree n m m') (hr : P.Received n m) (ipproto : UInt8)
    (states : NTStatStreamState) (dest : NTStatStream) :
    readDescAt P ipproto states m dest = readDescAt P ipproto states m' dest ∧
      (readDescAt P ipproto states m dest).isSome := by
  obtain ⟨l, hl, he, he', ha⟩ := nameSrc_agree h hr.2
  unfold readDescAt readName NTStatStream.strcpyName
  rw [readKey_agree h hr.1, u32_agree h hr.2.1, he, he']
  exact ⟨congrArg some (NTStatStream.writeName_congr _ ha), rfl⟩

/-! ## and they are needed -/

theorem afInet6_mutant {i : Nat} (h : m i = afInet6 ↔ m.mutant afInet6 n i = afInet6) : i < n := by
  by_contra hi
  rw [Mem.mutant, if_neg hi, otherByte] at h
  by_cases hm : m i = afInet6
  · rw [if_pos hm] at h
    exact absurd (h.mp hm) (by decide)
  · rw [if_neg hm] at h
    exact hm (h.mpr rfl)

/-- a key that the mutant has too was received -/
theorem keyReceived_of_mutant {ipproto : UInt8} {key : NTStatStreamKey}
    (h : readKey m P.ifindex P.localAddr P.remoteAddr ipproto key =
      readKey (m.mutant afInet6 n) P.ifindex P.localAddr P.remoteAddr ipproto key) :
    P.KeyReceived n m := by
  have hv6 : ∀ m, (readKey m P.ifindex P.localAddr P.remoteAddr ipproto key).isV6 = 1 ↔
      m (P.localAddr + sinFamily) = afInet6 := by
    intro m
    unfold readKey
    split
    · next hm => simp [hm]
    · next hm => simp [hm]
  have hidx : ∀ m, (readKey m P.ifindex P.localAddr P.remoteAddr ipproto key).ifindex
      = u32 m P.ifindex := by
    intro m
    unfold readKey
    split <;> rfl
  have hfam : m (P.localAddr + sinFamily) = afInet6 ↔
      m.mutant afInet6 n (P.localAddr + sinFamily) = afInet6 := by
    rw [← hv6, ← hv6, h]
  have hlt := afInet6_mutant hfam
  have haddr : ∀ {a : Addr} {off k : Nat}, 0 < k → k ≤ 16 →
      overwrite a (m.shift off) k = overwrite a ((m.mutant afInet6 n).shift off) k →
        off + k ≤ n := by
    intro a off k h0 h16 he
    have key : ∀ i < k, m (off + i) = m.mutant afInet6 n (off + i) := by
      intro i hi
      have hi16 : i < 16 := by omega
      have := congrArg (fun v : Addr => v[i]) he
      simpa [hi] using this
    exact Mem.end_of_mutant h0 key
  refine ⟨?_, ?_⟩
  · have := congrArg NTStatStreamKey.ifindex h
    rw [hidx, hidx] at this
    exact Mem.end_of_mutant (by decide) (u32_inj this)
  · have hl := congrArg NTStatStreamKey.localAddr h
    have hr := congrArg NTStatStreamKey.remoteAddr h
    unfold readKey at hl hr
    split
    · next hm =>
      rw [if_pos hm, if_pos (hfam.mp hm)] at hl hr
      exact ⟨haddr (by decide) (by decide) hl, haddr (by decide) (by decide) hr⟩
    · next hm =>
      rw [if_neg hm, if_neg (mt hfam.mpr hm)] at hl hr
      exact ⟨haddr (by decide) (by decide) hl, haddr (by decide) (by decide) hr⟩

/-- a name that ends in the buffer of ones was received, or the pid was and is 0 -/
theorem name_of_ones {pid pname l : Nat}
    (h : findNul (nameSrc (m.ones n) pid pname) nameRoom = some l) :
    (pid + 4 ≤ n ∧ u32 m pid = 0) ∨ ∃ j < nameRoom, pname + j < n ∧ m (pname + j) = 0 := by
  obtain ⟨hl, hl0, -⟩ := findNul_eq_some.mp h
  have hz : ∀ i, m.ones n i = 0 → i < n ∧ m i = 0 := fun i hi =>
    ⟨Mem.lt_of_ones hi, (Mem.agree_ones n m i (Mem.lt_of_ones hi)).trans hi⟩
  unfold nameSrc at hl0
  split at hl0
  · exact Or.inr ⟨l, hl, hz _ hl0⟩
  · next hc =>
    by_cases hp : u32 (m.ones n) pid = 0
    · have hb := u32_byteOf_inj hp
      have hend : pid + 4 ≤ n := by
        have := (hz _ (hb 3 (by omega))).1
        omega
      exact Or.inl ⟨hend, (u32_agree (Mem.agree_ones n m) hend).trans hp⟩
    · have h0 : m.ones n pname = 0 := by
        by_contra hne
        exact hc ⟨UInt32.pos_iff_ne_zero.mpr hp, hne⟩
      exact Or.inr ⟨0, by decide, hz pname h0⟩

theorem nameSrc_pid_zero {pid pname : Nat} (hp : u32 m pid = 0) :
    nameSrc m pid pname = fun _ => 0 := by
  unfold nameSrc
  rw [hp]
  exact if_neg fun h => absurd h.1 (by decide)

/-- a string that ends in the array of the name is copied, and nothing behind it is touched -/
theorem readDescAt_of_nul (ipproto : UInt8) (states : NTStatStreamState) (dest : NTStatStream)
    (h : ∃ i < 64, nameSrc m P.pid P.pname i = 0) :
    ∃ l < 64, findNul (nameSrc m P.pid P.pname) nameRoom = some l ∧
      readDescAt P ipproto states m dest = some { dest with
        key := readKey m P.ifindex P.localAddr P.remoteAddr ipproto dest.key
        states
        process :=
          { pid := u32 m P.pid
            name := overwrite dest.process.name (nameSrc m P.pid P.pname) (l + 1) } } := by
  obtain ⟨i, hi, h0⟩ := h
  exact NTStatStream.strcpyName_of_nul (d := { dest with
    key := readKey m P.ifindex P.localAddr P.remoteAddr ipproto dest.key, states
    process := { dest.process with pid := u32 m P.pid } }) _ hi h0

/-- what a description of pid 0 gives -/
theorem readDescAt_kernel {ipproto : UInt8} {states : NTStatStreamState} {dest d : NTStatStream}
    (hp : u32 m P.pid = 0) (h : readDescAt P ipproto states m dest = some d) :
    d.key = readKey m P.ifindex P.localAddr P.remoteAddr ipproto dest.key ∧ d.states = states := by
  obtain ⟨l, -, -, he⟩ := readDescAt_of_nul ipproto states dest
    ⟨0, by decide, congrFun (nameSrc_pid_zero hp) 0⟩
  rw [he] at h
  obtain rfl := Option.some.inj h
  exact ⟨rfl, rfl⟩

/-- **A key and states that all buffers with the received bytes give need all bytes that are
read.** -/
theorem received_of_readDescAt (st : Mem → NTStatStreamState) (hP : P.NameLast) {ipproto : UInt8}
    {dest : NTStatStream} {key : NTStatStreamKey} {states : NTStatStreamState}
    (h : ∀ m', Mem.Agree n m m' → ∃ d, readDescAt P ipproto (st m') m' dest = some d ∧
      d.key = key ∧ d.states = states) :
    P.Received n m ∧ (P.pname < n ∨ st m = st (m.mutant afInet6 n)) := by
  obtain ⟨d1, h1, -⟩ := h _ (Mem.agree_ones n m)
  obtain ⟨l, hl, -⟩ := Option.map_eq_some_iff.mp h1
  rcases name_of_ones hl with ⟨hpid, hp⟩ | ⟨j, hj, hjn, hj0⟩
  · have hp' : u32 (m.mutant afInet6 n) P.pid = 0 :=
      (u32_agree (Mem.agree_mutant _ n m) hpid).symm.trans hp
    obtain ⟨d, hd, hdk, hds⟩ := h m fun _ _ => rfl
    obtain ⟨d', hd', hdk', hds'⟩ := h _ (Mem.agree_mutant afInet6 n m)
    obtain ⟨hk, hs⟩ := readDescAt_kernel hp hd
    obtain ⟨hk', hs'⟩ := readDescAt_kernel hp' hd'
    have hkey := hdk.trans hdk'.symm
    have hst := hds.trans hds'.symm
    rw [hk, hk'] at hkey
    rw [hs, hs'] at hst
    exact ⟨⟨keyReceived_of_mutant hkey, hpid, Or.inl hp⟩, Or.inr hst⟩
  · have h2 := hP.ifindex
    have h3 := hP.localAddr
    have h4 := hP.remoteAddr
    have h5 := hP.pid
    refine ⟨⟨⟨by omega, ?_⟩, by omega, Or.inr ⟨j, hj, hjn, hj0⟩⟩, Or.inl (by omega)⟩
    unfold sin6Addr sinAddr
    split <;> omega

/-! ## the whole message -/

namespace KernelVersion
variable (v : KernelVersion) (n : Nat) (msg : Mem)

/-- the counters that `readCounts` reads -/
def countersRead : List CountsMember :=
  [.rxpackets, .txpackets, .rxbytes, .txbytes, .cellRxbytes, .cellTxbytes, .wifiRxbytes,
    .wifiTxbytes] ++ if v.readsWired then [.wiredRxbytes, .wiredTxbytes] else []

def StatesReceived : Prop :=
  v.structs.tcpOff .txwindow + 4 ≤ n ∧ v.structs.tcpOff .txcwindow + 4 ≤ n ∧
    v.structs.tcpOff .state + 4 ≤ n

/-- what the provider decides on was received, for every provider that the received bytes allow -/
def DescReceived : Prop :=
  ∀ p, MayBe n msg (v.structs.srcDescription.offsetOf .provider) p →
    (p ∈ v.tcpProviders → v.structs.tcpPlace.Received n msg ∧ v.StatesReceived n) ∧
    (p ∈ v.udpProviders → v.structs.udpPlace.Received n msg)

def SrcrefReceived (s : CStruct MsgMember) : Prop :=
  s.offsetOf .srcref + v.structs.srcRefSize ≤ n

/-- what a message of the type is read for was received -/
def ContentReceived : MsgType → Prop
  | .srcAdded => v.SrcrefReceived n v.structs.srcAdded ∧
      v.structs.srcAdded.offsetOf .provider + 4 ≤ n
  | .srcRemoved => v.SrcrefReceived n v.structs.srcRemoved
  | .srcDesc => v.SrcrefReceived n v.structs.srcDescription ∧ v.DescReceived n msg
  | .srcCounts => v.SrcrefReceived n v.structs.srcCounts ∧
      ∀ i ∈ v.countersRead, v.structs.countsOff i + 8 ≤ n
  | _ => True

/-- how the versions lay out what is read -/
structure Layout : Prop where
  srcRefSize : 0 < v.structs.srcRefSize ∧ v.structs.srcRefSize ≤ 8
  tcp : v.structs.tcpPlace.NameLast
  udp : v.structs.udpPlace.NameLast
  /-- the provider stands before the descriptor -/
  provider : v.structs.srcDescription.offsetOf .provider + 4 ≤ v.structs.tcpPlace.pid ∧
    v.structs.srcDescription.offsetOf .provider + 4 ≤ v.structs.udpPlace.pid
  states : v.StatesReceived v.structs.tcpPlace.pname
  apart : ∀ p ∈ v.tcpProviders, p ∉ v.udpProviders

theorem providers_apart : ∀ p ∈ v.tcpProviders, p ∉ v.udpProviders := by
  intro p hp
  cases v <;> simp only [tcpProviders, List.mem_cons, List.not_mem_nil, or_false] at hp
  case xnu3789 | xnu4570 => rcases hp with rfl | rfl <;> decide
  all_goals
    subst hp
    decide

theorem layout : v.Layout := by
  cases v <;> exact ⟨by decide, ⟨by decide, by decide, by decide, by decide⟩,
    ⟨by decide, by decide, by decide, by decide⟩, by decide,
    by unfold StatesReceived; decide, providers_apart _⟩

end KernelVersion

/-! ### the reference -/

theorem readSrcref_agree {K : KernelStructs} {s : CStruct MsgMember} (h : Mem.Agree n m m')
    (hn : s.offsetOf .srcref + K.srcRefSize ≤ n) : K.readSrcref s m = K.readSrcref s m' :=
  congrArg UInt64.ofNat (readLE_agree h hn)

/-- the reference determines its bytes: it has eight at most -/
theorem readSrcref_inj {K : KernelStructs} (hK : K.srcRefSize ≤ 8) {s : CStruct MsgMember}
    (h : K.readSrcref s m = K.readSrcref s m') : ∀ i < K.srcRefSize,
      m (s.offsetOf .srcref + i) = m' (s.offsetOf .srcref + i) := by
  have hlt : ∀ m : Mem, readLE m (s.offsetOf .srcref) K.srcRefSize < 2 ^ 64 := fun m =>
    lt_of_lt_of_le (readLE_lt ..)
      (le_trans (Nat.pow_le_pow_right (by decide) hK) (by decide))
  have h' := congrArg UInt64.toNat h
  unfold KernelStructs.readSrcref at h'
  rw [UInt64.toNat_ofNat', UInt64.toNat_ofNat', Nat.mod_eq_of_lt (hlt m),
    Nat.mod_eq_of_lt (hlt m')] at h'
  exact readLE_inj h'

/-! ### counts -/

theorem readCounts_eq_iff {v : KernelVersion} {dest : NTStatCounters} :
    v.handler.readCounts m n dest = v.handler.readCounts m' n dest ↔
      ∀ i ∈ v.countersRead, u64 m (v.structs.countsOff i) = u64 m' (v.structs.countsOff i) := by
  rw [v.handler_readCounts, v.handler_readCounts]
  unfold KernelVersion.countersRead
  cases v.readsWired with
  | true =>
    rw [if_pos rfl, if_pos rfl, if_pos rfl]
    unfold readCounts readCountsNoWired
    simp only [NTStatCounters.mk.injEq, List.cons_append, List.nil_append, List.forall_mem_cons,
      List.not_mem_nil, false_implies, implies_true, and_true]
  | false =>
    rw [if_neg (by decide), if_neg (by decide), if_neg (by decide)]
    unfold readCountsNoWired
    simp only [NTStatCounters.mk.injEq, List.append_nil, List.forall_mem_cons, List.not_mem_nil,
      false_implies, implies_true, and_true]

/-! ### descriptions -/

/-- the provider ids by which a description is read, and how -/
theorem readSrcDesc_of_provider {v : KernelVersion} {p : UInt32}
    (h : u32 m (v.structs.srcDescription.offsetOf .provider) = p) (dest : NTStatStream) :
    (p ∈ v.tcpProviders → v.handler.readSrcDesc m n dest =
      (readDescAt v.structs.tcpPlace ipprotoTcp (v.structs.tcpStates m) m dest).map (true, ·)) ∧
    (p ∈ v.udpProviders → v.handler.readSrcDesc m n dest =
      (readDescAt v.structs.udpPlace ipprotoUdp dest.states m dest).map (true, ·)) ∧
    (p ∉ v.tcpProviders → p ∉ v.udpProviders →
      v.handler.readSrcDesc m n dest = some (v.acceptsOther, dest)) := by
  rw [v.handler_readSrcDesc]
  unfold readSrcDesc readProvider
  rw [h]
  refine ⟨fun ht => if_pos ht, fun hu => ?_, fun ht hu => ?_⟩
  · rw [if_neg fun ht => v.layout.apart p ht hu, if_pos hu]
    rfl
  · rw [if_neg ht, if_neg hu]

/-- **A description whose content was received is read from the received bytes.** -/
theorem readSrcDesc_agree {v : KernelVersion} (h : Mem.Agree n m m') (hr : v.DescReceived n m)
    (dest : NTStatStream) : v.handler.readSrcDesc m n dest = v.handler.readSrcDesc m' n dest ∧
      (v.handler.readSrcDesc m n dest).isSome := by
  set off := v.structs.srcDescription.offsetOf .provider with hoff
  -- a provider that one of the buffers has was received, so both have it
  have hboth : ∀ {a b : Mem}, Mem.Agree n m a → Mem.Agree n m b →
      u32 a off ∈ v.tcpProviders ∨ u32 a off ∈ v.udpProviders → u32 b off = u32 a off := by
    intro a b ha hb hp
    have hmay : MayBe n m off (u32 a off) := (mayBe_of_u32 rfl).agree ha.symm
    have hn : off + 4 ≤ n := by
      have hl := v.layout.provider
      rcases hp with hp | hp
      · have := ((hr _ hmay).1 hp).1.2.1
        omega
      · have := ((hr _ hmay).2 hp).2.1
        omega
    exact u32_agree (fun i hi => (hb i hi).symm.trans (ha i hi)) hn
  have hself : Mem.Agree n m m := fun _ _ => rfl
  obtain ⟨hrt, hru⟩ := hr _ (mayBe_of_u32 rfl)
  obtain ⟨ht, hu, ho⟩ := readSrcDesc_of_provider (n := n) (show u32 m off = u32 m off from rfl) dest
  by_cases htcp : u32 m off ∈ v.tcpProviders
  · obtain ⟨hP, hs⟩ := hrt htcp
    obtain ⟨he, hsome⟩ := readDescAt_agree h hP ipprotoTcp (v.structs.tcpStates m) dest
    have hst : v.structs.tcpStates m = v.structs.tcpStates m' := by
      unfold tcpStates
      rw [u32_agree h hs.1, u32_agree h hs.2.1, u32_agree h hs.2.2]
    obtain ⟨ht', -⟩ := readSrcDesc_of_provider (n := n) (hboth hself h (Or.inl htcp)) dest
    rw [ht htcp, ht' htcp, ← hst, ← he, Option.isSome_map]
    exact ⟨rfl, hsome⟩
  · by_cases hudp : u32 m off ∈ v.udpProviders
    · obtain ⟨he, hsome⟩ := readDescAt_agree h (hru hudp) ipprotoUdp dest.states dest
      obtain ⟨-, hu', -⟩ := readSrcDesc_of_provider (n := n) (hboth hself h (Or.inr hudp)) dest
      rw [hu hudp, hu' hudp, ← he, Option.isSome_map]
      exact ⟨rfl, hsome⟩
    · have hneither : ¬ (u32 m' off ∈ v.tcpProviders ∨ u32 m' off ∈ v.udpProviders) := by
        intro hp
        rw [← hboth h hself hp] at hp
        exact hp.elim htcp hudp
      obtain ⟨ht', hu'⟩ := not_or.mp hneither
      obtain ⟨-, -, ho'⟩ := readSrcDesc_of_provider (n := n) (show u32 m' off = _ from rfl) dest
      rw [ho htcp hudp, ho' ht' hu']
      exact ⟨rfl, rfl⟩

theorem readName_ones {pid pname : Nat} {dest : NTStatStream} (hp : m pid = 1)
    (hname : ∀ j, m (pname + j) = 1) : readName m pid pname dest = none := by
  have hpid : 0 < u32 m pid := by
    refine UInt32.pos_iff_ne_zero.mpr fun h0 => ?_
    have hb := u32_byteOf_inj h0 0 (by decide)
    rw [Nat.add_zero, hp] at hb
    exact absurd hb (by decide)
  have hsrc : nameSrc m pid pname = m.shift pname :=
    if_pos ⟨hpid, by rw [← Nat.add_zero pname, hname]; decide⟩
  have hnul : findNul (m.shift pname) nameRoom = none :=
    findNul_eq_none.mpr fun j _ => by rw [Mem.shift_apply, hname]; decide
  unfold readName NTStatStream.strcpyName
  rw [hsrc, hnul]
  rfl

/-- the mutant's states tell which of them were received -/
theorem statesReceived_of_mutant {v : KernelVersion} {a : UInt8}
    (h : v.structs.tcpStates m = v.structs.tcpStates (m.mutant a n)) : v.StatesReceived n := by
  have hend : ∀ {off}, u32 m off = u32 (m.mutant a n) off → off + 4 ≤ n := fun h =>
    Mem.end_of_mutant (by decide) (u32_inj h)
  exact ⟨hend (congrArg NTStatStreamState.txwindow h),
    hend (congrArg NTStatStreamState.txcwindow h), hend (congrArg NTStatStreamState.state h)⟩

/-- **A description that all buffers with the received bytes give alike was received.** -/
theorem received_of_readSrcDesc {v : KernelVersion} {dest : NTStatStream} {key : NTStatStreamKey}
    {states : NTStatStreamState} (h : ∀ m', Mem.Agree n m m' → ∃ b d,
      v.handler.readSrcDesc m' n dest = some (b, d) ∧ d.key = key ∧ d.states = states) :
    v.DescReceived n m := by
  intro p hmay
  set off := v.structs.srcDescription.offsetOf .provider with hoff
  have hl := v.layout
  have hpl := hl.provider
  have htl := hl.tcp.pid
  have hul := hl.udp.pid
  -- else the missing bytes may be those of `p` with ones behind them, and no name ends there
  have hn : p ∈ v.tcpProviders ∨ p ∈ v.udpProviders → off + 4 ≤ n := by
    intro hp
    by_contra hn
    have hones : MayBe n (m.ones n) off p := hmay.agree (Mem.agree_ones n m)
    obtain ⟨b, d, he, -⟩ := h ((m.ones n).poke off 4 p.toNat) fun i hi =>
      (Mem.agree_ones n m i hi).trans (hones.agree_poke i hi)
    have hone : ∀ i, off + 4 ≤ i → (m.ones n).poke off 4 p.toNat i = 1 := fun i hi => by
      rw [Mem.poke_of_lt (Or.inr hi), Mem.ones, if_neg (by omega)]
    have hread := readSrcDesc_of_provider (n := n) (Mem.u32_poke (m.ones n) off p) dest
    rcases hp with hp | hp
    · rw [hread.1 hp, readDescAt, readName_ones (hone _ hpl.1) fun j => hone _ (by omega)] at he
      cases he
    · rw [hread.2.1 hp, readDescAt, readName_ones (hone _ hpl.2) fun j => hone _ (by omega)] at he
      cases he
  have hprov : p ∈ v.tcpProviders ∨ p ∈ v.udpProviders → ∀ m', Mem.Agree n m m' →
      u32 m' off = p := fun hp m' ha => by
    rw [← u32_agree ha (hn hp)]
    exact u32_of_mayBe hmay (hn hp)
  refine ⟨fun hp => ?_, fun hp => ?_⟩
  · have hread : ∀ m', Mem.Agree n m m' → ∃ d, readDescAt v.structs.tcpPlace ipprotoTcp
        (v.structs.tcpStates m') m' dest = some d ∧ d.key = key ∧ d.states = states := by
      intro m' ha
      obtain ⟨b, d, he, hd⟩ := h m' ha
      rw [(readSrcDesc_of_provider (hprov (Or.inl hp) m' ha) dest).1 hp] at he
      obtain ⟨d', hd', hbd⟩ := Option.map_eq_some_iff.mp he
      obtain ⟨-, rfl⟩ := Prod.mk.inj hbd
      exact ⟨d', hd', hd⟩
    obtain ⟨hr, hs⟩ := received_of_readDescAt _ hl.tcp hread
    refine ⟨hr, ?_⟩
    rcases hs with hs | hs
    · have hst := hl.states
      exact ⟨by have := hst.1; omega, by have := hst.2.1; omega, by have := hst.2.2; omega⟩
    · exact statesReceived_of_mutant hs
  · have hread : ∀ m', Mem.Agree n m m' → ∃ d, readDescAt v.structs.udpPlace ipprotoUdp
        dest.states m' dest = some d ∧ d.key = key ∧ d.states = states := by
      intro m' ha
      obtain ⟨b, d, he, hd⟩ := h m' ha
      rw [(readSrcDesc_of_provider (hprov (Or.inr hp) m' ha) dest).2.1 hp] at he
      obtain ⟨d', hd', hbd⟩ := Option.map_eq_some_iff.mp he
      obtain ⟨-, rfl⟩ := Prod.mk.inj hbd
      exact ⟨d', hd', hd⟩
    exact (received_of_readDescAt (fun _ => dest.states) hl.udp hread).1

end Ntstat
