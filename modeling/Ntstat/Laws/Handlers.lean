import Ntstat.Client.Wire
import Ntstat.Kernel.Contents
import Ntstat.Kernel.Messages

/-!
# What the five handlers agree on, and what not

* `readsName_iff`    the copy of the process name stays inside its array exactly if the name is
                     terminated in the message, or there is no process;
* `classified_iff`   the provider predicates and `readSrcDesc` agree in the versions before 3789;
* `getSrcRef_request_iff`   the reference of a request is read back by the versions whose
                     `getSrcRef` knows requests.
-/

namespace Ntstat
open Memory KernelStructs

/-! ## process names -/

section
variable {v : KernelVersion} {msg : Mem} {n : Nat} {proto : Proto}

/-- a description has a result if the string that is copied ends inside the destination -/
theorem readDescAt_eq_some {P : DescPlace} {ipproto : UInt8} {states : NTStatStreamState}
    {dest d : NTStatStream} : readDescAt P ipproto states msg dest = some d ↔
      ∃ l, findNul (nameSrc msg P.pid P.pname) nameRoom = some l ∧ d = ({ dest with
        key := readKey msg P.ifindex P.localAddr P.remoteAddr ipproto dest.key, states
        process := { dest.process with pid := u32 msg P.pid } } : NTStatStream).writeName
          (nameSrc msg P.pid P.pname) (l + 1) := by
  unfold readDescAt readName NTStatStream.strcpyName
  rw [Option.map_eq_some_iff]
  refine exists_congr fun l => and_congr_right fun _ => ?_
  exact eq_comm

/-- what a description is to leave of the name: a string in the array, at most the first 63 bytes of
`pname`, or the empty one if there is no process; id and counters stay -/
structure DescPlace.NameRead (P : DescPlace) (msg : Mem) (dest d : NTStatStream) : Prop where
  terminated : ∃ i < 64, Mem.ofVector d.process.name i = 0
  name : cstring (Mem.ofVector d.process.name) 64 =
    if u32 msg P.pid = 0 then [] else (cstring (msg.shift P.pname) 64).take 63
  id : d.id = dest.id
  stats : d.stats = dest.stats

theorem nameRead_of_nul {P : DescPlace} (ipproto : UInt8) (states : NTStatStreamState)
    (dest : NTStatStream) (h : u32 msg P.pid = 0 ∨ ∃ i < 64, msg (P.pname + i) = 0) :
    ∃ d, readDescAt P ipproto states msg dest = some d ∧ P.NameRead msg dest d := by
  obtain ⟨l, hl, he, hcopy⟩ := readDescAt_of_nul ipproto states dest
    ((nameSrc_nul_iff (by decide)).mpr h)
  obtain ⟨-, hnul, -⟩ := findNul_eq_some.mp he
  refine ⟨_, hcopy, ⟨l, hl, ?_⟩, ?_, rfl, rfl⟩
  · exact (ofVector_overwrite _ _ (by omega) l (Nat.lt_succ_self l)).trans hnul
  · rw [cstring_overwrite _ hl hnul]
    split
    · next hp => exact cstring_nil (by decide) (congrFun (nameSrc_pid_zero hp) 0)
    · next hp =>
      obtain ⟨j, hj, hj0⟩ := h.resolve_left hp
      rw [cstring_nameSrc hp, List.take_of_length_le
        (Nat.le_of_lt_succ (cstring_length_lt (m := msg.shift P.pname) hj hj0))]

/-- **The copy stays inside the array exactly if the name is terminated there.** -/
theorem readsName_iff (hp : v.protoOf msg = some proto) (n : Nat) (dest : NTStatStream) :
    (∃ d, v.handler.readSrcDesc msg n dest = some (true, d) ∧
      (v.place proto).NameRead msg dest d) ↔
    u32 msg (v.place proto).pid = 0 ∨ ∃ i < 64, msg ((v.place proto).pname + i) = 0 := by
  rw [readSrcDesc_of_proto hp]
  constructor
  · intro hex
    obtain ⟨d, hd, hr⟩ := hex
    obtain ⟨d', hd', he⟩ := Option.map_eq_some_iff.mp hd
    obtain ⟨-, rfl⟩ := Prod.mk.inj he
    obtain ⟨l, hl, rfl⟩ := readDescAt_eq_some.mp hd'
    obtain ⟨-, hl0, hne⟩ := findNul_eq_some.mp hl
    obtain ⟨i, hi, hi0⟩ := hr.terminated
    refine (nameSrc_nul_iff (by decide)).mp ?_
    by_cases h64 : l < 64
    · exact ⟨l, h64, hl0⟩
    · -- then all 64 bytes of the array were copied, and no end of the string is among them
      exact absurd ((ofVector_overwrite_full _ _ (by omega) i hi).symm.trans hi0) (hne i (by omega))
  · intro h
    obtain ⟨d, hd, hr⟩ := nameRead_of_nul _ _ dest h
    exact ⟨d, by rw [hd, Option.map_some], hr⟩

/-- a UDP description of process 1 whose name is `len` times the letter a -/
def namedMsg (len : Nat) : Mem := fun i =>
  if structs3789.udpOff .pname ≤ i ∧ i < structs3789.udpOff .pname + len then 97
  else (structs3789.udpDescMsg 7 4 80 81).poke (structs3789.udpOff .pid) 4 1 i

theorem readsName_short : ∃ d,
    KernelVersion.xnu3789.handler.readSrcDesc (namedMsg 5) 248 {} = some (true, d) ∧
    (KernelVersion.xnu3789.place .udp).NameRead (namedMsg 5) {} d :=
  (readsName_iff (show KernelVersion.xnu3789.protoOf (namedMsg 5) = some .udp by decide)
    248 {}).mpr (Or.inr ⟨5, by decide, by decide⟩)

/-- `eupid`, which follows the 64 bytes of `pname`, is copied over `rxpackets` -/
theorem not_readsName_unterminated : ¬ ∃ d,
    KernelVersion.xnu3789.handler.readSrcDesc (namedMsg 72) 248 {} = some (true, d) ∧
    (KernelVersion.xnu3789.place .udp).NameRead (namedMsg 72) {} d := by
  intro hex
  obtain ⟨d, hd, hr⟩ := hex
  have hrx : (KernelVersion.xnu3789.handler.readSrcDesc (namedMsg 72) 248 {}).map
      (fun x => x.2.stats.rxpackets) = some 0x6161616161616161 := by decide +kernel
  rw [hd, Option.map_some, hr.stats] at hrx
  cases hrx

end

/-! ## providers -/

def exactlyOne (a b c : Prop) : Prop := a ∧ ¬ b ∧ ¬ c ∨ ¬ a ∧ b ∧ ¬ c ∨ ¬ a ∧ ¬ b ∧ c

section
variable (v : KernelVersion) (msg : Mem) (n : Nat) (dest : NTStatStream)

/-- the provider of a description -/
def KernelVersion.providerOf : UInt64 := (readProvider v.structs.srcDescription msg).toUInt64

/-- the description is one of a TCP or of a UDP provider by the predicates and by what is read, or
it is rejected and changes nothing -/
def KernelVersion.Classified : Prop := exactlyOne
  (v.handler.isProviderTcp (v.providerOf msg) = true ∧
    v.handler.isProviderUdp (v.providerOf msg) = false ∧
    ∃ d, v.handler.readSrcDesc msg n dest = some (true, d) ∧ d.key.ipproto = ipprotoTcp)
  (v.handler.isProviderUdp (v.providerOf msg) = true ∧
    v.handler.isProviderTcp (v.providerOf msg) = false ∧
    ∃ d, v.handler.readSrcDesc msg n dest = some (true, d) ∧ d.key.ipproto = ipprotoUdp)
  (v.handler.isProviderTcp (v.providerOf msg) = false ∧
    v.handler.isProviderUdp (v.providerOf msg) = false ∧
    v.handler.readSrcDesc msg n dest = some (false, dest))

/-- the name that is copied ends inside the destination -/
def KernelVersion.NameFits : Prop := ∀ proto, v.protoOf msg = some proto →
  u32 msg (v.place proto).pid = 0 ∨ ∃ i < nameRoom, msg ((v.place proto).pname + i) = 0

variable {v msg n dest}

theorem protoOf_tcp_iff : v.protoOf msg = some .tcp ↔
    readProvider v.structs.srcDescription msg ∈ v.tcpProviders := by
  unfold KernelVersion.protoOf
  split
  · next h => exact iff_of_true rfl h
  · next h =>
    refine iff_of_false (fun he => ?_) h
    split at he <;> cases he

theorem protoOf_udp_iff : v.protoOf msg = some .udp ↔
    readProvider v.structs.srcDescription msg ∈ v.udpProviders := by
  unfold KernelVersion.protoOf
  split
  · next h => exact iff_of_false (fun he => by cases he) (v.providers_apart _ h)
  · split
    · next h => exact iff_of_true rfl h
    · next h => exact iff_of_false (fun he => by cases he) h

/-- the predicates of the versions before 3789 -/
theorem isProvider_single (msg : Mem) (hv : v ≠ .xnu3789 ∧ v ≠ .xnu4570) :
    (v.handler.isProviderTcp (v.providerOf msg) = true ↔ v.protoOf msg = some .tcp) ∧
    (v.handler.isProviderUdp (v.providerOf msg) = true ↔ v.protoOf msg = some .udp) ∧
    v.acceptsOther = false := by
  have hsingle : ∀ p q : UInt32, (p.toUInt64 == q.toUInt64) = true ↔ q ∈ [p] := fun p q => by
    rw [beq_iff_eq, UInt32.toUInt64_inj, List.mem_singleton, eq_comm]
  rw [protoOf_tcp_iff, protoOf_udp_iff]
  cases v with
  | xnu3789 => exact absurd rfl hv.1
  | xnu4570 => exact absurd rfl hv.2
  | _ => exact ⟨hsingle _ _, hsingle _ _, rfl⟩

/-- from 3789 on both predicates are true of every provider -/
theorem isProvider_split (hv : v = .xnu3789 ∨ v = .xnu4570) (p : UInt64) :
    v.handler.isProviderTcp p = true ∧ v.handler.isProviderUdp p = true := by
  have htcp : isProviderTcpSplit p = true := Bool.or_true _
  have hudp : isProviderUdpSplit p = true := Bool.or_true _
  rcases hv with rfl | rfl
  · exact ⟨htcp, hudp⟩
  · exact ⟨htcp, hudp⟩

/-- a description of a provider that is read has a result if its name fits -/
theorem readSrcDesc_fits_iff {proto : Proto} (hp : v.protoOf msg = some proto) (n : Nat)
    (dest : NTStatStream) :
    (∃ d, v.handler.readSrcDesc msg n dest = some (true, d) ∧ d.key.ipproto = proto.ipproto) ↔
      v.NameFits msg := by
  have hfits : v.NameFits msg ↔ ∃ i < nameRoom,
      nameSrc msg (v.place proto).pid (v.place proto).pname i = 0 := by
    rw [nameSrc_nul_iff (by decide)]
    constructor
    · exact fun h => h proto hp
    · intro h proto' hp'
      obtain rfl := Option.some.inj (hp.symm.trans hp')
      exact h
  rw [hfits, readSrcDesc_of_proto hp]
  constructor
  · intro hex
    obtain ⟨d, hd, -⟩ := hex
    obtain ⟨d', hd', -⟩ := Option.map_eq_some_iff.mp hd
    obtain ⟨l, hl, -⟩ := readDescAt_eq_some.mp hd'
    obtain ⟨h1, h2, -⟩ := findNul_eq_some.mp hl
    exact ⟨l, h1, h2⟩
  · intro hex
    obtain ⟨i, hi, h0⟩ := hex
    obtain ⟨l, -, hl⟩ := findNul_isSome hi h0
    refine ⟨_, by rw [readDescAt_eq_some.mpr ⟨l, hl, rfl⟩, Option.map_some], ?_⟩
    rw [NTStatStream.writeName_key]
    exact (readKey_key (v.place proto) msg proto.ipproto dest.key).ipproto

/-- **Predicates and `readSrcDesc` agree in the versions before 3789, if the name fits.** -/
theorem classified_iff : v.Classified msg n dest ↔
    (v ≠ .xnu3789 ∧ v ≠ .xnu4570) ∧ v.NameFits msg := by
  by_cases hv : v = .xnu3789 ∨ v = .xnu4570
  · obtain ⟨ht, hu⟩ := isProvider_split hv (v.providerOf msg)
    refine iff_of_false (fun hc => ?_) fun h => ?_
    · unfold KernelVersion.Classified exactlyOne at hc
      simp [ht, hu] at hc
    · exact hv.elim h.1.1 h.1.2
  · have hv := not_or.mp hv
    obtain ⟨ht, hu, ho⟩ := isProvider_single msg hv
    unfold KernelVersion.Classified exactlyOne
    cases hp : v.protoOf msg with
    | none =>
      have hfits : v.NameFits msg := fun proto h => by
        rw [hp] at h
        cases h
      simp [hp] at ht hu
      simp [ht, hu, readSrcDesc_of_other hp, ho, hv.1, hv.2, hfits]
    | some proto =>
      have hread := readSrcDesc_fits_iff hp n dest
      cases proto with
      | tcp =>
        simp [hp] at ht hu
        simp only [Proto.ipproto] at hread
        simp [ht, hu, hread, hv.1, hv.2]
      | udp =>
        simp [hp] at ht hu
        simp only [Proto.ipproto] at hread
        simp [ht, hu, hread, hv.1, hv.2]

/-- a route provider: the predicates take it for TCP and for UDP, and its description is accepted -/
theorem not_classified_route :
    ¬ KernelVersion.xnu4570.Classified (structs4570.udpDescMsg 7 1 80 81) 296 {} := by
  intro hc
  obtain ⟨ht, hu⟩ := isProvider_split (v := .xnu4570) (Or.inr rfl)
    (KernelVersion.xnu4570.providerOf (structs4570.udpDescMsg 7 1 80 81))
  unfold KernelVersion.Classified exactlyOne at hc
  simp [ht, hu] at hc

end

/-! ## references of requests -/

section
variable {v : KernelVersion} {context srcRef : UInt64} {m : Mem} {msg : List UInt8}

/-- only some versions of `getSrcRef` look at requests -/
theorem getSrcRef_request (n : Nat) (out : UInt64 × UInt32)
    (h : hdrType m = .getSrcDesc ∨ hdrType m = .querySrc) : v.handler.getSrcRef m n out =
      if v = .xnu2782 ∨ v = .xnu4570 then out else (v.srcrefIn m, out.2) := by
  have hreq : ∀ v : KernelVersion,
      v.structs.getSrcRefWithRequests m n out = (v.srcrefIn m, out.2) := by
    intro v
    unfold getSrcRefWithRequests KernelVersion.srcrefIn
    rcases h with h | h <;> rw [h]
  have hnot : ∀ K : KernelStructs, K.getSrcRef m n out = out := by
    intro K
    unfold KernelStructs.getSrcRef
    rcases h with h | h <;> rw [h]
  cases v with
  | xnu2782 => exact hnot structs2782
  | xnu4570 => exact hnot structs4570
  | xnu2422 => exact hreq .xnu2422
  | xnu3248 => exact hreq .xnu3248
  | xnu3789 => exact hreq .xnu3789

/-- the message that `writeSrcDesc` or `writeQuerySrc` passes to `send` -/
def KernelVersion.Asks (v : KernelVersion) (context srcRef : UInt64) (msg : List UInt8) : Prop :=
  (∃ providerId, msg = v.handler.writeSrcDesc context providerId srcRef) ∨
    msg = v.handler.writeQuerySrc context srcRef

/-- **The reference of a request is read back by some versions only.** -/
theorem getSrcRef_request_iff (h : v.Asks context srcRef msg)
    (hr : srcRef.toNat < 256 ^ v.structs.srcRefSize) (n : Nat) (out : UInt64 × UInt32) :
    (v.handler.getSrcRef (Mem.ofList msg) n out).1 = srcRef ↔
      (v ≠ .xnu2782 ∧ v ≠ .xnu4570) ∨ out.1 = srcRef := by
  have hmsg : (hdrType (Mem.ofList msg) = .getSrcDesc ∨ hdrType (Mem.ofList msg) = .querySrc) ∧
      v.srcrefIn (Mem.ofList msg) = srcRef := by
    rcases h with ⟨providerId, rfl⟩ | rfl
    · exact ⟨Or.inl (v.hdrType_srcDesc _ _ _), v.srcrefIn_srcDesc _ _ hr⟩
    · exact ⟨Or.inr (v.hdrType_querySrc _ _), v.srcrefIn_querySrc _ hr⟩
  rw [getSrcRef_request n out hmsg.1, ← not_or]
  by_cases hv : v = .xnu2782 ∨ v = .xnu4570
  · rw [if_pos hv]
    exact ⟨Or.inr, fun ho => ho.resolve_left (not_not.mpr hv)⟩
  · rw [if_neg hv]
    exact iff_of_true hmsg.2 (Or.inl hv)

theorem getSrcRef_request_query : (ntStatKernel3789.getSrcRef
    (Mem.ofList (ntStatKernel3789.writeQuerySrc 5 0x1122334455667788)) 24 (0, 0)).1 =
      0x1122334455667788 :=
  (getSrcRef_request_iff (v := .xnu3789) (Or.inr rfl) (by decide) 24 (0, 0)).mpr
    (Or.inl (by decide))

/-- `SEND` reads the reference 0 in every request of this version -/
theorem not_getSrcRef_request_query : (ntStatKernel4570.getSrcRef
    (Mem.ofList (ntStatKernel4570.writeQuerySrc 5 7)) 24 (0, 0)).1 ≠ 7 := by decide

end

end Ntstat
