import Mathlib.Algebra.Order.Ring.Int
import Mathlib.Data.List.TakeWhile

/-!
# Numbers in texts

What `printf` writes for a number and what `atol` and `strstr` of the C library find in a text.

* `decimal`, `signed`, `padded`   the conversions `%llu`, `%d` and `%4llu`;
* `decimal_append_inj`            a number can be told from the text behind it;
* `atol_decimal`, `atol_signed`   `atol` reads what was written;
* `strstr_eq_some`, `strstr_eq_none`   the first occurrence.
-/

namespace Text

/-! ## writing -/

/-- `%llu` -/
def decimal (n : Nat) : List Char := Nat.toDigits 10 n

/-- `%d` -/
def signed (i : Int) : List Char := if i < 0 then '-' :: decimal i.natAbs else decimal i.natAbs

/-- a text that is filled up with blanks from the left, as in `%4llu` -/
def padded (width : Nat) (s : List Char) : List Char := List.replicate (width - s.length) ' ' ++ s

/-- the text does not go on with a digit -/
def Ends (s : List Char) : Prop := ∀ c ∈ s.head?, c.isDigit = false

theorem ends_nil : Ends [] := fun c hc => by cases hc

theorem ends_cons {c : Char} {s : List Char} (h : c.isDigit = false) : Ends (c :: s) := by
  intro d hd
  obtain rfl := Option.some.inj hd
  exact h

theorem isDigit_decimal {n : Nat} {c : Char} (h : c ∈ decimal n) : c.isDigit = true :=
  Nat.isDigit_of_mem_toDigits (by decide) (by decide) h

theorem decimal_inj {n m : Nat} (h : decimal n = decimal m) : n = m := by
  have := congrArg (fun s => Nat.ofDigitChars 10 s 0) h
  unfold decimal at this
  simpa only [Nat.ofDigitChars_ten_toDigits] using this

theorem decimal_length {n k : Nat} (hk : 0 < k) (h : n < 10 ^ k) : (decimal n).length ≤ k :=
  (Nat.length_toDigits_le_iff (by decide) hk).mpr h

theorem decimal_head (n : Nat) : ∃ c s, decimal n = c :: s ∧ c.isDigit = true := by
  cases h : decimal n with
  | nil => exact absurd h Nat.toDigits_ne_nil
  | cons c s => exact ⟨c, s, rfl, isDigit_decimal (h ▸ List.mem_cons_self)⟩

/-- the digits in front of a text that does not go on with one -/
theorem takeWhile_decimal (n : Nat) {s : List Char} (hs : Ends s) :
    (decimal n ++ s).takeWhile Char.isDigit = decimal n := by
  rw [List.takeWhile_append_of_pos fun c hc => isDigit_decimal hc]
  cases s with
  | nil => exact List.append_nil _
  | cons c s =>
    rw [List.takeWhile_cons_of_neg (by simp [hs c rfl]), List.append_nil]

/-- **A number can be told from the text behind it.** -/
theorem decimal_append_inj {n m : Nat} {s t : List Char} (hs : Ends s) (ht : Ends t)
    (h : decimal n ++ s = decimal m ++ t) : n = m ∧ s = t := by
  have hd : decimal n = decimal m := by
    rw [← takeWhile_decimal n hs, ← takeWhile_decimal m ht, h]
  rw [hd] at h
  exact ⟨decimal_inj hd, List.append_cancel_left h⟩

theorem signed_append_inj {i j : Int} {s t : List Char} (hs : Ends s) (ht : Ends t)
    (h : signed i ++ s = signed j ++ t) : i = j ∧ s = t := by
  have hminus : ∀ {n : Nat} {u v : List Char}, '-' :: u ≠ decimal n ++ v := by
    intro n u v he
    obtain ⟨c, w, hc, hd⟩ := decimal_head n
    rw [hc] at he
    obtain ⟨rfl, -⟩ := List.cons.inj he
    exact absurd hd (by decide)
  unfold signed at h
  by_cases hi : i < 0
  · by_cases hj : j < 0
    · rw [if_pos hi, if_pos hj] at h
      obtain ⟨he, hst⟩ := decimal_append_inj hs ht (List.cons.inj h).2
      exact ⟨by omega, hst⟩
    · rw [if_pos hi, if_neg hj] at h
      exact absurd h hminus
  · by_cases hj : j < 0
    · rw [if_neg hi, if_pos hj] at h
      exact absurd h.symm hminus
    · rw [if_neg hi, if_neg hj] at h
      obtain ⟨he, hst⟩ := decimal_append_inj hs ht h
      exact ⟨by omega, hst⟩

theorem signed_length {i : Int} {k : Nat} (hk : 0 < k) (h : i.natAbs < 10 ^ k) :
    (signed i).length ≤ k + 1 := by
  have hd := decimal_length hk h
  unfold signed
  split
  · exact Nat.succ_le_succ hd
  · exact Nat.le_succ_of_le hd

theorem padded_length (width : Nat) (s : List Char) :
    (padded width s).length = max width s.length := by
  unfold padded
  rw [List.length_append, List.length_replicate]
  omega

/-- the blanks in front of a number can be taken off -/
theorem dropWhile_padded (width n : Nat) (s : List Char) :
    (padded width (decimal n) ++ s).dropWhile (· == ' ') = decimal n ++ s := by
  unfold padded
  obtain ⟨c, t, hc, hd⟩ := decimal_head n
  have hne : (c == ' ') = false := by
    rw [beq_eq_false_iff_ne]
    intro he
    rw [he] at hd
    exact absurd hd (by decide)
  rw [List.append_assoc, List.dropWhile_append_of_pos (by simp), hc, List.cons_append,
    List.dropWhile_cons_of_neg (by simp [hne])]

/-! ## reading -/

/-- `isspace` -/
def isSpace (c : Char) : Bool := c.toNat == 32 || (9 ≤ c.toNat && c.toNat ≤ 13)

/-- the digits at the start -/
def number (s : List Char) : Nat := Nat.ofDigitChars 10 (s.takeWhile Char.isDigit) 0

/-- `atol`, which stops at the bounds of a `long` -/
def atol (s : List Char) : Int :=
  match s.dropWhile isSpace with
  | '-' :: s => max (-(number s : Int)) (-2 ^ 63)
  | '+' :: s => min (number s : Int) (2 ^ 63 - 1)
  | s => min (number s : Int) (2 ^ 63 - 1)

/-- `atoi`, which gives what an `int` can hold of it -/
def atoi (s : List Char) : Int := (atol s).bmod (2 ^ 32)

theorem number_decimal (n : Nat) {s : List Char} (hs : Ends s) : number (decimal n ++ s) = n := by
  unfold number
  rw [takeWhile_decimal n hs]
  exact Nat.ofDigitChars_ten_toDigits

/-- **`atol` reads what was written.** -/
theorem atol_decimal {n : Nat} (hn : n < 2 ^ 63) {s : List Char} (hs : Ends s) :
    atol (decimal n ++ s) = n := by
  obtain ⟨c, t, hc, hd⟩ := decimal_head n
  have hnum := number_decimal n hs
  rw [hc, List.cons_append] at hnum ⊢
  have hspace : ¬ isSpace c = true := by
    intro hsp
    unfold isSpace at hsp
    unfold Char.isDigit at hd
    simp only [Bool.or_eq_true, Bool.and_eq_true, beq_iff_eq, decide_eq_true_eq] at hsp hd
    have h48 : 48 ≤ c.toNat := UInt32.le_iff_toNat_le.mp hd.1
    omega
  unfold atol
  rw [List.dropWhile_cons_of_neg hspace]
  split
  · next h =>
    obtain ⟨rfl, -⟩ := List.cons.inj h
    exact absurd hd (by decide)
  · next h =>
    obtain ⟨rfl, -⟩ := List.cons.inj h
    exact absurd hd (by decide)
  · rw [hnum]
    omega

theorem atol_signed {i : Int} (hi : i.natAbs < 2 ^ 63) : atol (signed i) = i := by
  unfold signed
  split
  · have hnum := number_decimal i.natAbs ends_nil
    rw [List.append_nil] at hnum
    show max (-(number (decimal i.natAbs) : Int)) (-2 ^ 63) = i
    rw [hnum]
    omega
  · have h := atol_decimal hi ends_nil
    rw [List.append_nil] at h
    rw [h]
    omega

/-- `strstr`: the text from the first occurrence on -/
def strstr (pattern : List Char) : List Char → Option (List Char)
  | [] => if pattern = [] then some [] else none
  | c :: s => if pattern <+: c :: s then some (c :: s) else strstr pattern s

variable {pattern s t : List Char}

/-- **Nothing is found exactly if there is no occurrence.** -/
theorem strstr_eq_none : strstr pattern s = none ↔ ¬ pattern <:+: s := by
  induction s with
  | nil =>
    unfold strstr
    rw [List.infix_nil]
    split
    · next h => simp [h]
    · next h => simp [h]
  | cons c s ih =>
    unfold strstr
    rw [List.infix_cons_iff]
    by_cases h : pattern <+: c :: s
    · rw [if_pos h]
      simp [h]
    · rw [if_neg h, ih]
      simp [h]

/-- **What is found is the text from the first occurrence on.** -/
theorem strstr_eq_some : strstr pattern s = some t ↔
    ∃ pre, s = pre ++ t ∧ pattern <+: t ∧ ∀ k < pre.length, ¬ pattern <+: s.drop k := by
  induction s with
  | nil =>
    unfold strstr
    constructor
    · intro h
      split at h
      · next hp =>
        obtain rfl := Option.some.inj h
        exact ⟨[], rfl, hp ▸ List.prefix_rfl, fun k hk => absurd hk (Nat.not_lt_zero k)⟩
      · cases h
    · intro hex
      obtain ⟨pre, he, hp, -⟩ := hex
      obtain ⟨rfl, rfl⟩ := List.append_eq_nil_iff.mp he.symm
      rw [if_pos (List.prefix_nil.mp hp)]
  | cons c s ih =>
    unfold strstr
    constructor
    · intro h
      split at h
      · next hp =>
        obtain rfl := Option.some.inj h
        exact ⟨[], rfl, hp, fun k hk => absurd hk (Nat.not_lt_zero k)⟩
      · next hp =>
        obtain ⟨pre, rfl, hp', hfirst⟩ := ih.mp h
        refine ⟨c :: pre, rfl, hp', fun k hk => ?_⟩
        cases k with
        | zero => exact hp
        | succ k => exact hfirst k (Nat.lt_of_succ_lt_succ hk)
    · intro hex
      obtain ⟨pre, he, hp, hfirst⟩ := hex
      cases pre with
      | nil =>
        obtain rfl : t = c :: s := he.symm
        rw [if_pos hp]
      | cons d pre =>
        obtain ⟨rfl, hrest⟩ := List.cons.inj he
        have hhead : ¬ pattern <+: c :: s := hfirst 0 (Nat.succ_pos _)
        rw [if_neg hhead]
        refine ih.mpr ⟨pre, hrest, hp, fun k hk => ?_⟩
        exact hfirst (k + 1) (Nat.succ_lt_succ hk)

end Text
