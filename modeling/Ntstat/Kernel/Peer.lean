import Ntstat.Kernel.Messages
import Ntstat.Kernel.Protocol
import Ntstat.Machine.Link

/-!
# A kernel at the other end of the socket

* `KernelAct`, `kernelStep`   what a kernel does: sources appear and disappear, are spoken of
                              unasked, and requests for descriptions are answered, in any order;
* `SourceLife.Of`             what was said of a source, and what is true of it;
* `kernel_orderly`            a kernel keeps the order of `SourceLife`;
* `removed_mem`               a source is not gone before it is said to be;
* `noticeMsg_reads`           every notice can be written down so that the handlers read it.
-/

namespace Ntstat
open Memory Machine KernelStructs

/-- what a kernel does about one source -/
inductive KernelAct where
  | appears (ports : Bool)
  | disappears
  /-- SRC_ADDED is sent again -/
  | repeats
  | describes
  | counts
  /-- a GET_SRC_DESC is answered; where there is no such source, with an error that says nothing
  about one -/
  | answers
deriving DecidableEq

/-- whether a source is there and has ports, after the act, and what is said of it -/
def KernelAct.apply : Option Bool → KernelAct → Option (Option Bool × List Notice)
  | none, appears ports => some (some ports, [.added])
  | none, answers => some (none, [])
  | none, _ => none
  | some _, appears _ => none
  | some _, disappears => some (none, [.removed])
  | some ports, repeats => some (some ports, [.added])
  | some ports, counts => some (some ports, [.counts])
  | some ports, _ => some (some ports, [.desc (some ports)])

/-- an act of a kernel with the sources `k` about the source `m.1` -/
def kernelStep (k : UInt64 → Option Bool) (requests : List UInt64) (m : UInt64 × KernelAct) :
    Option ((UInt64 → Option Bool) × List (UInt64 × Notice) × List UInt64) :=
  if m.2 = .answers ∧ m.1 ∉ requests then none
  else (m.2.apply (k m.1)).map fun x => (Function.update k m.1 x.1, x.2.map fun n => (m.1, n),
    if m.2 = .answers then requests.erase m.1 else requests)

/-- what is said of `r` -/
def noticeAbout (r : UInt64) (m : UInt64 × Notice) : Option Notice :=
  if m.1 = r then some m.2 else none

theorem noticeAbout_self (r : UInt64) (ns : List Notice) :
    (ns.map fun n => (r, n)).filterMap (noticeAbout r) = ns := by
  rw [List.filterMap_map,
    show noticeAbout r ∘ (fun n => (r, n)) = some from funext fun _ => if_pos rfl]
  exact List.filterMap_some

theorem noticeAbout_other {r r' : UInt64} (h : r' ≠ r) (ns : List Notice) :
    (ns.map fun n => (r', n)).filterMap (noticeAbout r) = [] := by
  rw [List.filterMap_map,
    show noticeAbout r ∘ (fun n => (r', n)) = fun _ => none from funext fun _ => if_neg h]
  exact List.filterMap_none ns

/-- what was said of a source agrees with what is true of it; it may not be described yet -/
inductive SourceLife.Of : SourceLife → Option Bool → Prop
  | unseen : Of .unseen none
  | removed : Of .removed none
  | undescribed (ports : Bool) : Of (.live none) (some ports)
  | described (ports : Bool) : Of (.live (some ports)) (some ports)

variable {other : Bool} {a : SourceLife} {r : UInt64}

theorem KernelAct.orderly {act : KernelAct} {b b' : Option Bool} {ns : List Notice} (ha : a.Of b)
    (h : act.apply b = some (b', ns)) :
    ∃ a', Follows (SourceLife.next other) a ns a' ∧ a'.Of b' := by
  cases ha with
  | unseen =>
    cases act <;> cases h
    · exact ⟨_, rfl, .undescribed _⟩
    · exact ⟨_, rfl, .unseen⟩
  | removed =>
    cases act <;> cases h
    · exact ⟨_, rfl, .undescribed _⟩
    · exact ⟨_, rfl, .removed⟩
  | undescribed ports =>
    cases act <;> cases h
    · exact ⟨_, rfl, .removed⟩
    · exact ⟨_, rfl, .undescribed _⟩
    · exact ⟨_, rfl, .described _⟩
    · exact ⟨_, rfl, .undescribed _⟩
    · exact ⟨_, rfl, .described _⟩
  | described ports =>
    have hsame : Follows (SourceLife.next other) (.live (some ports)) [.desc (some ports)]
        (.live (some ports)) := follows_single.mpr (if_pos rfl)
    cases act <;> cases h
    · exact ⟨_, rfl, .removed⟩
    · exact ⟨_, rfl, .described _⟩
    · exact ⟨_, hsame, .described _⟩
    · exact ⟨_, rfl, .described _⟩
    · exact ⟨_, hsame, .described _⟩

variable {k k' : UInt64 → Option Bool} {requests requests' : List UInt64}
  {m : UInt64 × KernelAct} {said : List (UInt64 × Notice)}

/-- what an act does -/
theorem acts_of_step (h : kernelStep k requests m = some (k', said, requests')) :
    ∃ b ns, m.2.apply (k m.1) = some (b, ns) ∧ k' = Function.update k m.1 b ∧
      said = ns.map (fun n => (m.1, n)) ∧
      (m.2 = .answers ∧ m.1 ∈ requests ∧ requests' = requests.erase m.1 ∨
        m.2 ≠ .answers ∧ requests' = requests) := by
  unfold kernelStep at h
  split at h
  · cases h
  · next hm =>
    obtain ⟨⟨b, ns⟩, hb, he⟩ := Option.map_eq_some_iff.mp h
    obtain ⟨hk, hrest⟩ := Prod.mk.inj he
    obtain ⟨hsaid, hreq⟩ := Prod.mk.inj hrest
    subst hk hsaid hreq
    refine ⟨b, ns, hb, rfl, rfl, ?_⟩
    by_cases ha : m.2 = .answers
    · exact Or.inl ⟨ha, by_contra fun hn => hm ⟨ha, hn⟩, if_pos ha⟩
    · exact Or.inr ⟨ha, if_neg ha⟩

/-- **A kernel keeps the order about every source.** -/
theorem kernel_orderly (ha : a.Of (k r))
    (h : kernelStep k requests m = some (k', said, requests')) :
    ∃ a', Follows (SourceLife.next other) a (said.filterMap (noticeAbout r)) a' ∧ a'.Of (k' r) := by
  obtain ⟨b, ns, hb, rfl, rfl, -⟩ := acts_of_step h
  by_cases hr : m.1 = r
  · subst hr
    rw [noticeAbout_self, Function.update_self]
    exact KernelAct.orderly ha hb
  · have hk : Function.update k m.1 b r = k r := Function.update_of_ne (fun he => hr he.symm) ..
    rw [noticeAbout_other hr, hk]
    exact ⟨a, follows_nil.mpr rfl, ha⟩

/-- it describes a source only in a way that the handlers read -/
theorem kernel_describes (h : kernelStep k requests m = some (k', said, requests')) :
    ∀ x ∈ said, x.2 ≠ .desc none := by
  obtain ⟨b, ns, hb, -, rfl, -⟩ := acts_of_step h
  intro x hx
  obtain ⟨n, hn, rfl⟩ := List.mem_map.mp hx
  rintro rfl
  generalize k m.1 = b0 at hb
  cases b0 <;> cases hm : m.2 <;> rw [hm] at hb <;> cases hb <;> simp at hn

/-- a live source stays so until it is removed -/
theorem SourceLife.next_live {ports : Option Bool} {x : Notice} {a : SourceLife}
    (h : (SourceLife.live ports).next other x = some a) (hx : x ≠ .removed) :
    ∃ ports', a = .live ports' := by
  cases x with
  | removed => exact absurd rfl hx
  | desc p =>
    cases p with
    | none =>
      cases ports <;> cases other <;> cases h
      · exact ⟨_, rfl⟩
      · exact ⟨_, rfl⟩
    | some q =>
      cases ports with
      | none => exact ⟨_, (Option.some.inj h).symm⟩
      | some p =>
        obtain ⟨rfl, rfl⟩ : q = p ∧ SourceLife.live (some p) = a := by
          simpa [SourceLife.next] using h
        exact ⟨_, rfl⟩
  | _ => cases ports <;> exact ⟨_, (Option.some.inj h).symm⟩

/-- so one that is gone was said to be removed -/
theorem removed_mem {l : List Notice} {ports : Option Bool} {b : SourceLife}
    (h : Follows (SourceLife.next other) (.live ports) l b) (hb : b.Of none) : .removed ∈ l := by
  induction l generalizing ports with
  | nil =>
    obtain rfl := follows_nil.mp h
    cases hb
  | cons x l ih =>
    obtain ⟨a, ha, hl⟩ := follows_cons.mp h
    by_cases hx : x = .removed
    · exact hx ▸ List.mem_cons_self
    · obtain ⟨ports', rfl⟩ := SourceLife.next_live ha hx
      exact List.mem_cons_of_mem _ (ih hl)

/-! ## the messages of a kernel -/

namespace KernelVersion

/-- a message with the notice, in a buffer of zeros -/
def noticeMsg (v : KernelVersion) (r : UInt64) : Notice → Mem
  | .added => v.structs.srcrefMsg v.structs.srcAdded .srcAdded r
  | .removed => v.structs.removedMsg r
  | .counts => v.structs.srcrefMsg v.structs.srcCounts .srcCounts r
  | .desc ports => v.structs.udpDescMsg r (v.provider .udp) (if ports = some true then 1 else 0) 0

/-- the references stand behind the types -/
theorem srcref_behind (v : KernelVersion) : ∀ s ∈ [v.structs.srcAdded, v.structs.srcRemoved,
    v.structs.srcCounts, v.structs.srcDescription], 12 ≤ s.offsetOf .srcref := by
  cases v <;> decide

/-- a description has its reference, its provider, its addresses and its name in this order -/
theorem desc_places (v : KernelVersion) :
    v.structs.srcDescription.offsetOf .srcref + v.structs.srcRefSize ≤
      v.structs.srcDescription.offsetOf .provider ∧
    v.structs.srcDescription.offsetOf .provider + 4 ≤ v.structs.udpOff .localAddr ∧
    v.structs.udpOff .localAddr + 4 ≤ v.structs.udpOff .remoteAddr ∧
    v.structs.udpOff .remoteAddr + 4 ≤ v.structs.udpOff .pname := by
  cases v <;> decide

section
variable {v : KernelVersion} {s : CStruct MsgMember} {t : MsgType} {r : UInt64} {m : Mem}

/-- what has the type and the reference -/
theorem srcrefMsg_reads (hs : 12 ≤ s.offsetOf .srcref)
    (hr : r.toNat < 256 ^ v.structs.srcRefSize)
    (hm : Mem.Agree (s.offsetOf .srcref + v.structs.srcRefSize) m (v.structs.srcrefMsg s t r)) :
    hdrType m = t ∧ v.structs.readSrcref s m = r := by
  unfold KernelStructs.srcrefMsg at hm
  constructor
  · refine hdrType_of_hasType fun i hi => ?_
    have h8 := hdr_offsets.2.1
    rw [hm _ (by omega), Mem.poke_of_lt (Or.inl (by omega))]
    exact Mem.poke_at hi
  · unfold KernelStructs.readSrcref
    rw [readLE_byteOf (v := r.toNat) fun i hi => (hm _ (by omega)).trans (Mem.poke_at hi),
      Nat.mod_eq_of_lt hr, UInt64.ofNat_toNat]

/-- a description without a name is read back -/
theorem udpDescMsg_reads (v : KernelVersion) (hr : r.toNat < 256 ^ v.structs.srcRefSize)
    (lport rport : UInt16)
    (hm : m = v.structs.udpDescMsg r (v.provider .udp) lport rport) :
    (hdrType m = .srcDesc ∧ v.structs.readSrcref v.structs.srcDescription m = r) ∧
      v.describesPorts m = some !(lport == 0 && rport == 0) ∧
      ∀ n dest, (v.handler.readSrcDesc m n dest).isSome := by
  obtain ⟨h1, h2, h3, h4⟩ := v.desc_places
  have hbehind := v.srcref_behind v.structs.srcDescription (by simp)
  have hport : sinPort = 2 := rfl
  have hprov : v.provider .udp ∉ v.tcpProviders ∧ v.provider .udp ∈ v.udpProviders := by
    cases v <;> decide
  unfold udpDescMsg at hm
  have hproto : v.protoOf m = some .udp := by
    have hread : readProvider v.structs.srcDescription m = v.provider .udp := by
      refine u32_byteOf fun i hi => ?_
      rw [hm, Mem.poke_of_lt (Or.inl (by omega)), Mem.poke_of_lt (Or.inl (by omega))]
      exact Mem.poke_at hi
    unfold protoOf
    rw [hread, if_neg hprov.1, if_pos hprov.2]
  refine ⟨srcrefMsg_reads hbehind hr fun i hi => ?_, ?_, fun n dest => ?_⟩
  · rw [hm, Mem.poke_of_lt (Or.inl (by omega)), Mem.poke_of_lt (Or.inl (by omega)),
      Mem.poke_of_lt (Or.inl (by omega))]
  · have hl : u16 m (v.structs.udpOff .localAddr + sinPort) = lport := by
      refine u16_byteOf fun i hi => ?_
      rw [hm, Mem.poke_of_lt (Or.inl (by omega))]
      exact Mem.poke_at hi
    have hrem : u16 m (v.structs.udpOff .remoteAddr + sinPort) = rport := by
      refine u16_byteOf fun i hi => ?_
      rw [hm]
      exact Mem.poke_at hi
    unfold describesPorts
    rw [hproto, Option.map_some]
    show some (!(u16 m (v.structs.udpOff .localAddr + sinPort) == 0 &&
      u16 m (v.structs.udpOff .remoteAddr + sinPort) == 0)) = _
    rw [hl, hrem]
  · have hname : m ((v.place .udp).pname + 0) = 0 := by
      have h8 := hdr_offsets.2.1
      show m (v.structs.udpOff .pname + 0) = 0
      rw [hm, Mem.poke_of_lt (Or.inr (by omega)), Mem.poke_of_lt (Or.inr (by omega)),
        Mem.poke_of_lt (Or.inr (by omega))]
      unfold srcrefMsg
      rw [Mem.poke_of_lt (Or.inr (by omega)), Mem.poke_of_lt (Or.inr (by omega))]
    obtain ⟨l, -, -, he⟩ := readDescAt_of_nul Proto.udp.ipproto dest.states dest
      ((nameSrc_nul_iff (by decide)).mpr (Or.inr ⟨0, by decide, hname⟩))
    rw [readSrcDesc_of_proto hproto, if_neg (by decide), he]
    rfl

/-- **Every notice can be written down so that the handlers read it.** -/
theorem noticeMsg_reads {x : Notice} (hr : r.toNat < 256 ^ v.structs.srcRefSize)
    (hx : x ≠ .desc none) (n : Nat) :
    v.notice (v.noticeMsg r x) = some x ∧ (v.handler.getSrcRef (v.noticeMsg r x) n (0, 0)).1 = r ∧
      ∀ ports, x = .desc ports →
        ∀ dest, (v.handler.readSrcDesc (v.noticeMsg r x) n dest).isSome := by
  have hs := v.srcref_behind
  simp only [List.forall_mem_cons, List.not_mem_nil, false_implies, implies_true, and_true] at hs
  obtain ⟨ha, hd, hc, -⟩ := hs
  unfold notice
  cases x with
  | added =>
    obtain ⟨ht, href⟩ := srcrefMsg_reads (v := v) (t := .srcAdded) ha hr fun _ _ => rfl
    rw [show hdrType (v.noticeMsg r .added) = .srcAdded from ht]
    refine ⟨rfl, (congrArg Prod.fst (v.getSrcRef_added n _ ht)).trans href, fun ports he => ?_⟩
    cases he
  | removed =>
    obtain ⟨ht, href⟩ := srcrefMsg_reads (v := v) (t := .srcRemoved) hd hr fun _ _ => rfl
    rw [show hdrType (v.noticeMsg r .removed) = .srcRemoved from ht]
    refine ⟨rfl, (congrArg Prod.fst (v.getSrcRef_removed n _ ht)).trans href, fun ports he => ?_⟩
    cases he
  | counts =>
    obtain ⟨ht, href⟩ := srcrefMsg_reads (v := v) (t := .srcCounts) hc hr fun _ _ => rfl
    rw [show hdrType (v.noticeMsg r .counts) = .srcCounts from ht]
    refine ⟨rfl, (congrArg Prod.fst (v.getSrcRef_counts n _ ht)).trans href, fun ports he => ?_⟩
    cases he
  | desc ports =>
    cases ports with
    | none => exact absurd rfl hx
    | some ports =>
      obtain ⟨⟨ht, href⟩, hports, hsome⟩ := udpDescMsg_reads v hr
        (if some ports = some true then 1 else 0) 0 rfl
      have hm : v.structs.udpDescMsg r (v.provider .udp) (if some ports = some true then 1 else 0)
          0 = v.noticeMsg r (.desc (some ports)) := rfl
      rw [hm] at ht href hports hsome
      rw [ht, hports]
      refine ⟨?_, (congrArg Prod.fst (v.getSrcRef_desc n _ ht)).trans href, fun _ _ => hsome n⟩
      cases ports <;> rfl

end

end KernelVersion

end Ntstat
