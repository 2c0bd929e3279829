import Mathlib.Data.List.Lex
import Ntstat.Memory.Bytes

/-!
# `memcmp`

* `memcmp_neg_iff`, `memcmp_pos_iff`   the sign of the result is the lexicographic order of the
                                       bytes.
-/

namespace Memory

/-- `memcmp`, whose result has the sign of the first difference -/
def memcmp : Mem → Mem → Nat → Int
  | _, _, 0 => 0
  | a, b, n + 1 =>
    if a 0 < b 0 then -1
    else if b 0 < a 0 then 1
    else memcmp (a.shift 1) (b.shift 1) n

/-- the values of the bytes -/
def digits (l : List UInt8) : List Nat := l.map UInt8.toNat

@[simp] theorem digits_length (l : List UInt8) : (digits l).length = l.length := List.length_map ..

theorem digits_inj {l l' : List UInt8} : digits l = digits l' ↔ l = l' :=
  (List.map_injective_iff.mpr fun _ _ h => UInt8.toNat_inj.mp h).eq_iff

theorem ofList_cons_shift (x : UInt8) (l : List UInt8) :
    (Mem.ofList (x :: l)).shift 1 = Mem.ofList l := by
  funext i
  rw [Mem.shift_apply, Nat.add_comm]
  rfl

/-- one byte -/
theorem memcmp_cons (x y : UInt8) (l l' : List UInt8) (n : Nat) :
    memcmp (Mem.ofList (x :: l)) (Mem.ofList (y :: l')) (n + 1) =
      if x < y then -1 else if y < x then 1 else memcmp (Mem.ofList l) (Mem.ofList l') n := by
  rw [memcmp, ofList_cons_shift, ofList_cons_shift]
  rfl

theorem memcmp_neg_iff {l l' : List UInt8} (hlen : l.length = l'.length) :
    memcmp (Mem.ofList l) (Mem.ofList l') l.length < 0 ↔ digits l < digits l' := by
  induction l generalizing l' with
  | nil =>
    obtain rfl := List.length_eq_zero_iff.mp hlen.symm
    exact iff_of_false (lt_irrefl _) (lt_irrefl _)
  | cons x l ih =>
    obtain ⟨y, l', rfl⟩ := List.exists_cons_of_length_eq_add_one hlen.symm
    have ih := ih (Nat.succ.inj hlen)
    show memcmp _ _ (l.length + 1) < 0 ↔ x.toNat :: digits l < y.toNat :: digits l'
    rw [memcmp_cons, List.cons_lt_cons_iff]
    split
    · next h => exact iff_of_true (by decide) (Or.inl (UInt8.lt_iff_toNat_lt.mp h))
    · next h =>
      have h : ¬ x.toNat < y.toNat := mt UInt8.lt_iff_toNat_lt.mpr h
      split
      · next h' =>
        have h' : y.toNat < x.toNat := UInt8.lt_iff_toNat_lt.mp h'
        refine iff_of_false (by decide) ?_
        rintro (hc | ⟨hc, -⟩) <;> omega
      · next h' =>
        have h' : ¬ y.toNat < x.toNat := mt UInt8.lt_iff_toNat_lt.mpr h'
        rw [ih]
        exact ⟨fun hl => Or.inr ⟨by omega, hl⟩, fun hc => (hc.resolve_left h).2⟩

theorem memcmp_neg (a b : Mem) (n : Nat) : memcmp b a n = -memcmp a b n := by
  induction n generalizing a b with
  | zero => rfl
  | succ n ih =>
    unfold memcmp
    by_cases h : a 0 < b 0
    · have h' : ¬ b 0 < a 0 := fun h' => UInt8.lt_asymm h h'
      rw [if_neg h', if_pos h, if_pos h]
      rfl
    · by_cases h' : b 0 < a 0
      · rw [if_pos h', if_neg h, if_pos h']
      · rw [if_neg h', if_neg h, if_neg h, if_neg h', ih]

theorem memcmp_pos_iff {l l' : List UInt8} (hlen : l.length = l'.length) :
    memcmp (Mem.ofList l) (Mem.ofList l') l.length > 0 ↔ digits l' < digits l := by
  rw [← memcmp_neg_iff hlen.symm, memcmp_neg (Mem.ofList l), hlen]
  exact Int.neg_neg_iff_pos.symm

end Memory
