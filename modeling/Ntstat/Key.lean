import Ntstat.Memory.Compare
import Ntstat.Order.Rank
import Ntstat.Stream

/-!
# The order of stream keys

`NTStatStreamKey.lt` is `operator<`, by which applications keep streams in a `std::map`.

* `rank`, `lt_iff_rank`   what it compares, as one list of digits;
* `incomparable_iff`      two keys are the same to a map if they are `Same`;
* `lt_strictWeakOrder`    `operator<` is a strict weak ordering.
-/

namespace Ntstat
open Memory

namespace NTStatStreamKey

/-- `addr4.s_addr` -/
def sAddr (a : Addr) : UInt32 := u32 (Mem.ofVector a) 0

/-- `operator<` -/
def lt (k b : NTStatStreamKey) : Bool :=
  if k.isV6 < b.isV6 then true
  else if k.isV6 > b.isV6 then false
  else if k.ipproto < b.ipproto then true
  else if k.ipproto > b.ipproto then false
  else if k.lport < b.lport then true
  else if k.lport > b.lport then false
  else if k.rport < b.rport then true
  else if k.rport > b.rport then false
  else if k.ifindex < b.ifindex then true
  else if k.ifindex > b.ifindex then false
  else if k.isV6 ≠ 0 then
    let d := memcmp (Mem.ofVector k.localAddr) (Mem.ofVector b.localAddr) 16
    if d < 0 then true
    else if d > 0 then false
    else
      let d := memcmp (Mem.ofVector k.remoteAddr) (Mem.ofVector b.remoteAddr) 16
      if d < 0 then true
      else if d > 0 then false
      else false
  else
    if sAddr k.localAddr < sAddr b.localAddr then true
    else if sAddr k.localAddr > sAddr b.localAddr then false
    else if sAddr k.remoteAddr < sAddr b.remoteAddr then true
    else if sAddr k.remoteAddr > sAddr b.remoteAddr then false
    else false

instance : LT NTStatStreamKey := ⟨fun k b => k.lt b = true⟩

/-! ## what is compared -/

/-- the digits of an address: its bytes, or the value of `s_addr` -/
def addrRank (isV6 : UInt8) (a : Addr) : List Nat :=
  if isV6 ≠ 0 then digits a.toList else [(sAddr a).toNat]

/-- what `operator<` compares, in order -/
def rank (k : NTStatStreamKey) : List Nat :=
  k.isV6.toNat :: k.ipproto.toNat :: k.lport.toNat :: k.rport.toNat :: k.ifindex.toNat ::
    (addrRank k.isV6 k.localAddr ++ (addrRank k.isV6 k.remoteAddr ++ []))

theorem addr_length (a : Addr) : a.toList.length = 16 := a.length_toList

/-- `memcmp` of two addresses compares their ranks -/
theorem memcmp_addr (a b : Addr) :
    (memcmp (Mem.ofVector a) (Mem.ofVector b) 16 < 0 ↔ digits a.toList < digits b.toList) ∧
    (memcmp (Mem.ofVector a) (Mem.ofVector b) 16 > 0 ↔ digits b.toList < digits a.toList) := by
  have hlen : a.toList.length = b.toList.length := (addr_length a).trans (addr_length b).symm
  have h1 := memcmp_neg_iff hlen
  have h2 := memcmp_pos_iff hlen
  rw [addr_length] at h1 h2
  exact ⟨h1, h2⟩

/-- **`operator<` compares the ranks.** -/
theorem lt_iff_rank (k b : NTStatStreamKey) : k < b ↔ k.rank < b.rank := by
  have h8 : ∀ x y : UInt8, x < y ↔ x.toNat < y.toNat := fun _ _ => UInt8.lt_iff_toNat_lt
  have h16 : ∀ x y : UInt16, x < y ↔ x.toNat < y.toNat := fun _ _ => UInt16.lt_iff_toNat_lt
  have h32 : ∀ x y : UInt32, x < y ↔ x.toNat < y.toNat := fun _ _ => UInt32.lt_iff_toNat_lt
  have hnil : false = true ↔ ([] : List Nat) < [] := iff_of_false Bool.false_ne_true (lt_irrefl _)
  show k.lt b = true ↔ _
  unfold lt rank
  refine Rank.level_iff h8 fun hv => Rank.level_iff h8 fun _ => Rank.level_iff h16 fun _ =>
    Rank.level_iff h16 fun _ => Rank.level_iff h32 fun _ => ?_
  -- both keys are of one family
  have hv : k.isV6 = b.isV6 := UInt8.toNat_inj.mp hv
  unfold addrRank
  rw [← hv]
  by_cases h6 : k.isV6 ≠ 0
  · obtain ⟨l1, l2⟩ := memcmp_addr k.localAddr b.localAddr
    obtain ⟨r1, r2⟩ := memcmp_addr k.remoteAddr b.remoteAddr
    simp only [if_pos h6]
    refine Rank.signed_iff ?_ l1 l2 fun _ => Rank.signed_iff ?_ r1 r2 fun _ => hnil
    · rw [digits_length, digits_length, addr_length, addr_length]
    · rw [digits_length, digits_length, addr_length, addr_length]
  · simp only [if_neg h6]
    exact Rank.level_iff h32 fun _ => Rank.level_iff h32 fun _ => hnil

/-! ## equivalent keys -/

/-- the first four bytes are the same -/
def SameAddr4 (a b : Addr) : Prop := Mem.Agree 4 (Mem.ofVector a) (Mem.ofVector b)

/-- the same stream: the bytes of the addresses that the family does not use do not matter -/
structure Same (k b : NTStatStreamKey) : Prop where
  isV6 : k.isV6 = b.isV6
  ipproto : k.ipproto = b.ipproto
  lport : k.lport = b.lport
  rport : k.rport = b.rport
  ifindex : k.ifindex = b.ifindex
  addr6 : k.isV6 ≠ 0 → k.localAddr = b.localAddr ∧ k.remoteAddr = b.remoteAddr
  addr4 : k.isV6 = 0 → SameAddr4 k.localAddr b.localAddr ∧ SameAddr4 k.remoteAddr b.remoteAddr

theorem sAddr_eq_iff {a b : Addr} : sAddr a = sAddr b ↔ SameAddr4 a b := by
  constructor
  · intro h i hi
    have := u32_inj h i hi
    rwa [Nat.zero_add] at this
  · exact fun h => u32_agree h (by decide)

theorem addrRank_length {v : UInt8} (a b : Addr) :
    (addrRank v a).length = (addrRank v b).length := by
  unfold addrRank
  split
  · rw [digits_length, digits_length, addr_length, addr_length]
  · rfl

theorem addrRank_eq_iff {v : UInt8} {a b : Addr} :
    addrRank v a = addrRank v b ↔ (v ≠ 0 → a = b) ∧ (v = 0 → SameAddr4 a b) := by
  unfold addrRank
  by_cases hv : v = 0
  · subst hv
    simp only [ne_eq, not_true_eq_false, if_false, List.cons.injEq, and_true, UInt32.toNat_inj,
      sAddr_eq_iff, false_implies, true_and, true_implies]
  · rw [if_pos hv, if_pos hv, digits_inj, Vector.toList_inj]
    exact ⟨fun h => ⟨fun _ => h, fun h0 => absurd h0 hv⟩, fun h => h.1 hv⟩

theorem rank_eq_iff {k b : NTStatStreamKey} : k.rank = b.rank ↔ k.Same b := by
  unfold rank
  simp only [List.cons.injEq, UInt8.toNat_inj, UInt16.toNat_inj, UInt32.toNat_inj, List.append_nil]
  constructor
  · intro h
    obtain ⟨h1, h2, h3, h4, h5, h6⟩ := h
    rw [← h1] at h6
    obtain ⟨hl, hr⟩ := List.append_inj h6 (addrRank_length _ _)
    obtain ⟨l6, l4⟩ := addrRank_eq_iff.mp hl
    obtain ⟨r6, r4⟩ := addrRank_eq_iff.mp hr
    exact ⟨h1, h2, h3, h4, h5, fun hv => ⟨l6 hv, r6 hv⟩, fun hv => ⟨l4 hv, r4 hv⟩⟩
  · intro h
    refine ⟨h.isV6, h.ipproto, h.lport, h.rport, h.ifindex, ?_⟩
    rw [← h.isV6, addrRank_eq_iff.mpr ⟨fun hv => (h.addr6 hv).1, fun hv => (h.addr4 hv).1⟩,
      addrRank_eq_iff.mpr ⟨fun hv => (h.addr6 hv).2, fun hv => (h.addr4 hv).2⟩]

/-- **Keys that are not ordered are the same.** -/
theorem incomparable_iff {k b : NTStatStreamKey} : ¬ k < b ∧ ¬ b < k ↔ k.Same b :=
  (Rank.incomparable_iff lt_iff_rank).trans rank_eq_iff

/-- **`operator<` is a strict weak ordering.** -/
theorem lt_strictWeakOrder : IsStrictWeakOrder NTStatStreamKey (· < ·) ∧
    (∀ k b : NTStatStreamKey, k < b → ¬ b < k) ∧
    ∀ k b : NTStatStreamKey, ¬ k < b ∧ ¬ b < k ↔ k.Same b :=
  ⟨Rank.strictWeakOrder lt_iff_rank, fun _ _ => Rank.asymm lt_iff_rank, fun _ _ => incomparable_iff⟩

end NTStatStreamKey

end Ntstat
