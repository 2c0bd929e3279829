import Mathlib.Data.Nat.ModEq
import Mathlib.Data.List.Range
import Mathlib.Tactic.Ring

/-!
# Bytes behind a pointer: little-endian integers, C strings, copies into fixed arrays

`Mem` is what a C pointer can reach: the byte at every distance from it.

* `readLE m off k`       the little-endian integer in the `k` bytes at `off`; it depends on these
                         bytes only (`readLE_congr`) and determines them (`readLE_inj`);
* `byteOf v i`           byte `i` of `v`, and `readLE_byteOf`: reading the bytes back gives the
                         value modulo `256 ^ k`;
* `u16`, `u32`, `u64`    the fixed-width reads;
* `findNul m room`       the place of the first NUL among the first `room` bytes;
* `overwrite`            the first `k` bytes of an array replaced.
-/

namespace Memory

/-- the bytes a pointer can reach -/
abbrev Mem := Nat → UInt8

/-- the pointer moved by `off` bytes -/
def Mem.shift (m : Mem) (off : Nat) : Mem := fun i => m (off + i)

/-- a buffer filled from a list, zero behind it -/
def Mem.ofList (l : List UInt8) : Mem := fun i => l.getD i 0

/-- the first `n` bytes -/
def Mem.take (m : Mem) (n : Nat) : List UInt8 := (List.range n).map m

/-- `m` and `m'` hold the same first `n` bytes -/
def Mem.Agree (n : Nat) (m m' : Mem) : Prop := ∀ i < n, m i = m' i

instance (n : Nat) (m m' : Mem) : Decidable (Mem.Agree n m m') := by
  unfold Mem.Agree
  infer_instance

@[simp] theorem Mem.shift_apply (m : Mem) (off i : Nat) : m.shift off i = m (off + i) := rfl

@[simp] theorem Mem.take_length (m : Mem) (n : Nat) : (m.take n).length = n := by
  simp [Mem.take]

theorem Mem.ofList_take (m : Mem) {n i : Nat} (hi : i < n) : Mem.ofList (m.take n) i = m i := by
  simp [Mem.ofList, Mem.take, hi]

theorem Mem.Agree.symm {n : Nat} {m m' : Mem} (h : Mem.Agree n m m') : Mem.Agree n m' m :=
  fun i hi => (h i hi).symm

theorem Mem.Agree.mono {n k : Nat} {m m' : Mem} (h : Mem.Agree n m m') (hk : k ≤ n) :
    Mem.Agree k m m' := fun i hi => h i (by omega)

/-! ## little-endian integers -/

/-- the little-endian integer in the `k` bytes at `off` -/
def readLE (m : Mem) (off : Nat) : Nat → Nat
  | 0 => 0
  | k + 1 => (m off).toNat + 256 * readLE m (off + 1) k

/-- byte `i` of `v` -/
def byteOf (v i : Nat) : UInt8 := UInt8.ofNat (v / 256 ^ i)

/-- the `k` bytes at `off` set to the little-endian `v` -/
def Mem.poke (m : Mem) (off k v : Nat) : Mem := fun a =>
  if off ≤ a ∧ a < off + k then byteOf v (a - off) else m a

@[simp] theorem readLE_zero (m : Mem) (off : Nat) : readLE m off 0 = 0 := rfl
theorem readLE_succ (m : Mem) (off k : Nat) :
    readLE m off (k + 1) = (m off).toNat + 256 * readLE m (off + 1) k := rfl

theorem readLE_lt (m : Mem) (off k : Nat) : readLE m off k < 256 ^ k := by
  induction k generalizing off with
  | zero => simp
  | succ k ih =>
    have hb : (m off).toNat < 256 := (m off).toNat_lt
    have hk := ih (off + 1)
    rw [readLE_succ, pow_succ]
    omega

theorem readLE_congr {m m' : Mem} {off off' k : Nat} (h : ∀ i < k, m (off + i) = m' (off' + i)) :
    readLE m off k = readLE m' off' k := by
  induction k generalizing off off' with
  | zero => rfl
  | succ k ih =>
    have h0 : m off = m' off' := h 0 (Nat.succ_pos k)
    have ht : readLE m (off + 1) k = readLE m' (off' + 1) k := by
      refine ih (fun i hi => ?_)
      have := h (i + 1) (by omega)
      rwa [show off + (i + 1) = off + 1 + i by omega,
        show off' + (i + 1) = off' + 1 + i by omega] at this
    rw [readLE_succ, readLE_succ, h0, ht]

theorem readLE_agree {n off k : Nat} {m m' : Mem} (h : Mem.Agree n m m') (hk : off + k ≤ n) :
    readLE m off k = readLE m' off k :=
  readLE_congr (fun i hi => h (off + i) (by omega))

theorem readLE_shift (m : Mem) (a off k : Nat) :
    readLE (m.shift a) off k = readLE m (a + off) k :=
  readLE_congr (fun i _ => by rw [Mem.shift_apply, Nat.add_assoc])

/-- the value read determines the bytes -/
theorem readLE_inj {m m' : Mem} {off off' k : Nat} (h : readLE m off k = readLE m' off' k) :
    ∀ i < k, m (off + i) = m' (off' + i) := by
  induction k generalizing off off' with
  | zero => exact fun i hi => absurd hi (Nat.not_lt_zero i)
  | succ k ih =>
    have hb : (m off).toNat < 256 := (m off).toNat_lt
    have hb' : (m' off').toNat < 256 := (m' off').toNat_lt
    rw [readLE_succ, readLE_succ] at h
    intro i hi
    cases i with
    | zero => exact UInt8.toNat_inj.mp (by rw [Nat.add_zero, Nat.add_zero]; omega)
    | succ i =>
      have ht : readLE m (off + 1) k = readLE m' (off' + 1) k := by omega
      have hi' := ih ht i (by omega)
      rwa [show off + (i + 1) = off + 1 + i by omega,
        show off' + (i + 1) = off' + 1 + i by omega]

theorem byteOf_toNat (v i : Nat) : (byteOf v i).toNat = v / 256 ^ i % 256 := by
  simp [byteOf]

theorem byteOf_succ (v i : Nat) : byteOf v (i + 1) = byteOf (v / 256) i := by
  unfold byteOf
  rw [Nat.div_div_eq_div_mul, pow_succ']

/-- reading the bytes of `v` back -/
theorem readLE_byteOf {m : Mem} {off k v : Nat} (h : ∀ i < k, m (off + i) = byteOf v i) :
    readLE m off k = v % 256 ^ k := by
  induction k generalizing off v with
  | zero => simp [Nat.mod_one]
  | succ k ih =>
    have h0 : (m off).toNat = v % 256 := by
      have := h 0 (Nat.succ_pos k)
      rw [Nat.add_zero] at this
      rw [this, byteOf_toNat, pow_zero, Nat.div_one]
    have ht : readLE m (off + 1) k = v / 256 % 256 ^ k := by
      refine ih (fun i hi => ?_)
      rw [← byteOf_succ, ← h (i + 1) (by omega)]
      congr 1
      omega
    rw [readLE_succ, h0, ht, pow_succ', Nat.mod_mul]

/-! ## fixed widths -/

def u16 (m : Mem) (off : Nat) : UInt16 := UInt16.ofNat (readLE m off 2)
def u32 (m : Mem) (off : Nat) : UInt32 := UInt32.ofNat (readLE m off 4)
def u64 (m : Mem) (off : Nat) : UInt64 := UInt64.ofNat (readLE m off 8)

theorem u32_toNat (m : Mem) (off : Nat) : (u32 m off).toNat = readLE m off 4 := by
  have h := readLE_lt m off 4
  rw [u32, UInt32.toNat_ofNat']
  exact Nat.mod_eq_of_lt (by omega)

theorem u64_toNat (m : Mem) (off : Nat) : (u64 m off).toNat = readLE m off 8 := by
  have h := readLE_lt m off 8
  rw [u64, UInt64.toNat_ofNat']
  exact Nat.mod_eq_of_lt (by omega)

theorem u32_inj {m m' : Mem} {off off' : Nat} (h : u32 m off = u32 m' off') :
    ∀ i < 4, m (off + i) = m' (off' + i) :=
  readLE_inj (by rw [← u32_toNat, ← u32_toNat, h])

theorem u64_inj {m m' : Mem} {off off' : Nat} (h : u64 m off = u64 m' off') :
    ∀ i < 8, m (off + i) = m' (off' + i) :=
  readLE_inj (by rw [← u64_toNat, ← u64_toNat, h])

theorem u16_agree {n off : Nat} {m m' : Mem} (h : Mem.Agree n m m') (hk : off + 2 ≤ n) :
    u16 m off = u16 m' off := congrArg UInt16.ofNat (readLE_agree h hk)

theorem u32_agree {n off : Nat} {m m' : Mem} (h : Mem.Agree n m m') (hk : off + 4 ≤ n) :
    u32 m off = u32 m' off := congrArg UInt32.ofNat (readLE_agree h hk)

theorem u64_agree {n off : Nat} {m m' : Mem} (h : Mem.Agree n m m') (hk : off + 8 ≤ n) :
    u64 m off = u64 m' off := congrArg UInt64.ofNat (readLE_agree h hk)

theorem u64_byteOf {m : Mem} {off : Nat} {v : UInt64}
    (h : ∀ i < 8, m (off + i) = byteOf v.toNat i) : u64 m off = v := by
  rw [u64, readLE_byteOf h, Nat.mod_eq_of_lt (by simpa using v.toNat_lt), UInt64.ofNat_toNat]

theorem u32_byteOf {m : Mem} {off : Nat} {v : UInt32}
    (h : ∀ i < 4, m (off + i) = byteOf v.toNat i) : u32 m off = v := by
  rw [u32, readLE_byteOf h, Nat.mod_eq_of_lt (by simpa using v.toNat_lt), UInt32.ofNat_toNat]

theorem u16_byteOf {m : Mem} {off : Nat} {v : UInt16}
    (h : ∀ i < 2, m (off + i) = byteOf v.toNat i) : u16 m off = v := by
  rw [u16, readLE_byteOf h, Nat.mod_eq_of_lt (by simpa using v.toNat_lt), UInt16.ofNat_toNat]

theorem u32_byteOf_inj {m : Mem} {off : Nat} {v : UInt32} (h : u32 m off = v) :
    ∀ i < 4, m (off + i) = byteOf v.toNat i := by
  have hv : u32 (fun i => byteOf v.toNat i) 0 = v := u32_byteOf fun i _ => by rw [Nat.zero_add]
  intro i hi
  have := u32_inj (h.trans hv.symm) i hi
  rwa [Nat.zero_add] at this

/-- the little-endian `v` stands in the `k` bytes at `off` -/
def Mem.Holds (m : Mem) (off k v : Nat) : Prop := ∀ i < k, m (off + i) = byteOf v i

/-- a buffer filled from an array -/
def Mem.ofVector {n : Nat} (v : Vector UInt8 n) : Mem := Mem.ofList v.toList

theorem Mem.Holds.u32 {m : Mem} {off : Nat} {v : UInt32} (h : m.Holds off 4 v.toNat) :
    Memory.u32 m off = v := u32_byteOf h

theorem Mem.Holds.u64 {m : Mem} {off : Nat} {v : UInt64} (h : m.Holds off 8 v.toNat) :
    Memory.u64 m off = v := u64_byteOf h

theorem u16_shift (m : Mem) (a off : Nat) : u16 (m.shift a) off = u16 m (a + off) :=
  congrArg UInt16.ofNat (readLE_shift m a off 2)

/-! ## buffers that differ from the received bytes on -/

/-- a byte that is not `b`: `a`, or `a + 1` where `a` stands -/
def otherByte (a b : UInt8) : UInt8 := if b = a then a + 1 else a

theorem otherByte_ne (a b : UInt8) : b ≠ otherByte a b := by
  unfold otherByte
  split
  · next h =>
    subst h
    intro he
    have := congrArg UInt8.toNat he
    rw [UInt8.toNat_add] at this
    have hlt := b.toNat_lt
    simp only [UInt8.reduceToNat] at this
    omega
  · next h => exact h

/-- the first `n` bytes of `m`, and a different one at every place from there on: `a` wherever `m`
does not have it -/
def Mem.mutant (a : UInt8) (n : Nat) (m : Mem) : Mem := fun i =>
  if i < n then m i else otherByte a (m i)

theorem Mem.agree_mutant (a : UInt8) (n : Nat) (m : Mem) : Mem.Agree n m (m.mutant a n) :=
  fun i hi => by rw [mutant, if_pos hi]

theorem Mem.lt_of_mutant {a : UInt8} {n i : Nat} {m : Mem} (h : m i = m.mutant a n i) : i < n := by
  by_contra hi
  rw [mutant, if_neg hi] at h
  exact otherByte_ne _ _ h

/-- bytes that are the same in the mutant were received -/
theorem Mem.end_of_mutant {a : UInt8} {n off k : Nat} {m : Mem} (hk : 0 < k)
    (h : ∀ i < k, m (off + i) = m.mutant a n (off + i)) : off + k ≤ n := by
  have := lt_of_mutant (h (k - 1) (by omega))
  omega

/-- the received ones of the four bytes at `off` are those of `code` -/
def MayBe (n : Nat) (m : Mem) (off : Nat) (code : UInt32) : Prop :=
  ∀ i < 4, off + i < n → m (off + i) = byteOf code.toNat i

theorem mayBe_of_u32 {n off : Nat} {m : Mem} {code : UInt32} (h : u32 m off = code) :
    MayBe n m off code := fun i hi _ => u32_byteOf_inj h i hi

theorem u32_of_mayBe {n off : Nat} {m : Mem} {code : UInt32} (h : MayBe n m off code)
    (hn : off + 4 ≤ n) : u32 m off = code := u32_byteOf fun i hi => h i hi (by omega)

theorem MayBe.agree {n off : Nat} {m m' : Mem} {code : UInt32} (h : MayBe n m off code)
    (ha : Mem.Agree n m m') : MayBe n m' off code := fun i hi hn => by
  rw [← ha _ hn]
  exact h i hi hn

theorem Mem.poke_of_lt {m : Mem} {off k v i : Nat} (h : i < off ∨ off + k ≤ i) :
    m.poke off k v i = m i := by
  rw [poke, if_neg (by omega)]

theorem Mem.poke_at {m : Mem} {off k v i : Nat} (h : i < k) :
    m.poke off k v (off + i) = byteOf v i := by
  rw [poke, if_pos (by omega), Nat.add_sub_cancel_left]

@[simp] theorem Mem.u32_poke (m : Mem) (off : Nat) (v : UInt32) :
    u32 (m.poke off 4 v.toNat) off = v := u32_byteOf fun _ hi => poke_at hi

/-- what the four bytes may be, they are in some buffer with the same received bytes -/
theorem MayBe.agree_poke {n off : Nat} {m : Mem} {code : UInt32} (h : MayBe n m off code) :
    Mem.Agree n m (m.poke off 4 code.toNat) := by
  intro i hi
  by_cases hr : i < off ∨ off + 4 ≤ i
  · rw [Mem.poke_of_lt hr]
  · obtain ⟨j, rfl⟩ : ∃ j, i = off + j := ⟨i - off, by omega⟩
    have hj : j < 4 := by omega
    rw [Mem.poke_at hj]
    exact h j hj hi

/-- the first `n` bytes of `m`, ones from there on -/
def Mem.ones (n : Nat) (m : Mem) : Mem := fun i => if i < n then m i else 1

theorem Mem.agree_ones (n : Nat) (m : Mem) : Mem.Agree n m (m.ones n) :=
  fun i hi => by rw [ones, if_pos hi]

/-- a NUL in it was received -/
theorem Mem.lt_of_ones {n i : Nat} {m : Mem} (h : m.ones n i = 0) : i < n := by
  by_contra hi
  rw [ones, if_neg hi] at h
  exact absurd h (by decide)

/-! ## C strings -/

/-- the place of the first NUL among the first `room` bytes -/
def findNul (m : Mem) (room : Nat) : Option Nat := (List.range room).find? fun i => m i == 0

theorem findNul_eq_some {m : Mem} {room l : Nat} :
    findNul m room = some l ↔ l < room ∧ m l = 0 ∧ ∀ i < l, m i ≠ 0 := by
  simp only [findNul, List.find?_range_eq_some, beq_iff_eq, List.mem_range, Bool.not_eq_eq_eq_not,
    Bool.not_true, beq_eq_false_iff_ne, ne_eq]
  tauto

theorem findNul_eq_none {m : Mem} {room : Nat} : findNul m room = none ↔ ∀ i < room, m i ≠ 0 := by
  simp [findNul]

theorem findNul_isSome {m : Mem} {room i : Nat} (hi : i < room) (h : m i = 0) :
    ∃ l ≤ i, findNul m room = some l := by
  cases e : findNul m room with
  | none => exact absurd h (findNul_eq_none.mp e i hi)
  | some l =>
    obtain ⟨_, _, hne⟩ := findNul_eq_some.mp e
    exact ⟨l, Nat.le_of_not_lt (fun hl => hne i hl h), rfl⟩

/-- the search stops at a NUL inside the agreed bytes -/
theorem findNul_agree {m m' : Mem} {room n i : Nat} (h : Mem.Agree n m m') (hi : i < n)
    (hr : i < room) (h0 : m i = 0) : findNul m room = findNul m' room := by
  obtain ⟨l, hl, e⟩ := findNul_isSome hr h0
  obtain ⟨h1, h2, h3⟩ := findNul_eq_some.mp e
  rw [e]
  refine (findNul_eq_some.mpr ⟨h1, ?_, fun j hj => ?_⟩).symm
  · rw [← h l (by omega)]; exact h2
  · rw [← h j (by omega)]; exact h3 j hj

/-- the string at the start of the memory, which has `room` bytes -/
def cstring (m : Mem) (room : Nat) : List UInt8 := m.take ((findNul m room).getD room)

theorem Mem.take_congr {m m' : Mem} {n : Nat} (h : Mem.Agree n m m') : m.take n = m'.take n :=
  List.map_congr_left fun i hi => h i (List.mem_range.mp hi)

/-- only the bytes up to a NUL matter -/
theorem cstring_agree {m m' : Mem} {room n i : Nat} (h : Mem.Agree n m m') (hi : i < n)
    (hr : i < room) (h0 : m i = 0) : cstring m room = cstring m' room := by
  obtain ⟨l, hl, e⟩ := findNul_isSome hr h0
  unfold cstring
  rw [← findNul_agree h hi hr h0, e, Option.getD_some]
  exact Mem.take_congr (h.mono (show l ≤ n by omega))

theorem cstring_nil {m : Mem} {room : Nat} (hr : 0 < room) (h0 : m 0 = 0) :
    cstring m room = [] := by
  obtain ⟨l, hl, e⟩ := findNul_isSome hr h0
  obtain rfl : l = 0 := by omega
  unfold cstring
  rw [e]
  rfl

theorem cstring_length_lt {m : Mem} {room i : Nat} (hi : i < room) (h0 : m i = 0) :
    (cstring m room).length < room := by
  obtain ⟨l, hl, e⟩ := findNul_isSome hi h0
  unfold cstring
  rw [e, Option.getD_some, Mem.take_length]
  omega

/-! ## copies -/

/-- the first `k` bytes of the array replaced from `src` -/
def overwrite {n : Nat} (dst : Vector UInt8 n) (src : Mem) (k : Nat) : Vector UInt8 n :=
  Vector.ofFn fun i => if i.1 < k then src i.1 else dst[i]

@[simp] theorem overwrite_getElem {n : Nat} (dst : Vector UInt8 n) (src : Mem) (k i : Nat)
    (hi : i < n) : (overwrite dst src k)[i] = if i < k then src i else dst[i] := by
  simp [overwrite]

theorem overwrite_congr {n : Nat} (dst : Vector UInt8 n) {src src' : Mem} {k : Nat}
    (h : Mem.Agree k src src') : overwrite dst src k = overwrite dst src' k := by
  ext i hi
  rw [overwrite_getElem, overwrite_getElem]
  split
  · next hk => rw [h i hk]
  · rfl

theorem ofVector_overwrite {n : Nat} (dst : Vector UInt8 n) (src : Mem) {k : Nat} (hk : k ≤ n) :
    Mem.Agree k (Mem.ofVector (overwrite dst src k)) src := by
  intro i hi
  have hin : i < n := by omega
  show (overwrite dst src k).toList.getD i 0 = src i
  rw [List.getD_eq_getElem?_getD, Vector.getElem?_toList, Vector.getElem?_eq_getElem hin,
    Option.getD_some, overwrite_getElem, if_pos hi]

/-- a copy that does not fit fills the array -/
theorem ofVector_overwrite_full {n : Nat} (dst : Vector UInt8 n) (src : Mem) {k : Nat}
    (hk : n ≤ k) :
    Mem.Agree n (Mem.ofVector (overwrite dst src k)) src := by
  have he : overwrite dst src k = overwrite dst src n := by
    refine Vector.ext fun i hi => ?_
    rw [overwrite_getElem, overwrite_getElem, if_pos (by omega), if_pos hi]
  rw [he]
  exact ofVector_overwrite dst src le_rfl

/-- **The string in an array after a `strcpy` that fits.** -/
theorem cstring_overwrite {n l : Nat} (dst : Vector UInt8 n) {src : Mem} (hl : l < n)
    (h0 : src l = 0) : cstring (Mem.ofVector (overwrite dst src (l + 1))) n = cstring src n :=
  (cstring_agree (ofVector_overwrite dst src (show l + 1 ≤ n by omega)).symm (Nat.lt_succ_self l)
    hl h0).symm

end Memory
