import Mathlib.Data.List.Lex
import Mathlib.Order.Lattice
import Mathlib.Order.RelClasses

/-!
# Comparing by rank

A comparison that goes through several values and stops at the first difference is the
lexicographic comparison of lists of digits, the ranks.

* `level_iff`            one value: its digit in front of the rank of what is compared next;
* `signed_iff`           the same for several digits that were compared by the sign of a result;
* `strictWeakOrder`      what is compared by rank is a strict weak order;
* `incomparable_iff`     and only equal ranks are incomparable.
-/

namespace Rank

section
variable {α β : Type*} [LinearOrder β] {lt : α → α → Prop} {rank : α → β}

theorem asymm (h : ∀ a b, lt a b ↔ rank a < rank b) {a b : α} (hab : lt a b) : ¬ lt b a := by
  rw [h] at hab ⊢
  exact lt_asymm hab

theorem incomparable_iff (h : ∀ a b, lt a b ↔ rank a < rank b) {a b : α} :
    ¬ lt a b ∧ ¬ lt b a ↔ rank a = rank b := by
  rw [h, h, not_lt, not_lt]
  exact ⟨fun hab => le_antisymm hab.2 hab.1, fun he => ⟨he.ge, he.le⟩⟩

theorem strictWeakOrder (h : ∀ a b, lt a b ↔ rank a < rank b) : IsStrictWeakOrder α lt where
  irrefl a haa := lt_irrefl _ ((h a a).mp haa)
  trans a b c hab hbc := (h a c).mpr (lt_trans ((h a b).mp hab) ((h b c).mp hbc))
  incomp_trans _ _ _ hab hbc := (incomparable_iff h).mpr
    (((incomparable_iff h).mp hab).trans ((incomparable_iff h).mp hbc))

end

section
variable {α : Type*} [LT α] [DecidableLT α] {digit : α → Nat}

/-- one level of a comparison -/
theorem level_iff (hd : ∀ x y, x < y ↔ digit x < digit y) {x y : α} {next : Bool} {l l' : List Nat}
    (h : digit x = digit y → (next = true ↔ l < l')) :
    (if x < y then true else if x > y then false else next) = true ↔
      digit x :: l < digit y :: l' := by
  rw [List.cons_lt_cons_iff]
  by_cases hxy : x < y
  · rw [if_pos hxy]
    exact iff_of_true rfl (Or.inl ((hd x y).mp hxy))
  · rw [if_neg hxy]
    by_cases hyx : x > y
    · have hlt : digit y < digit x := (hd y x).mp hyx
      rw [if_pos hyx]
      refine iff_of_false Bool.false_ne_true ?_
      rintro (hc | ⟨hc, -⟩) <;> omega
    · have he : digit x = digit y := by
        have h1 := mt (hd x y).mpr hxy
        have h2 := mt (hd y x).mpr hyx
        omega
      rw [if_neg hyx, h he, he]
      exact ⟨fun hl => Or.inr ⟨rfl, hl⟩, fun hc => (hc.resolve_left (lt_irrefl _)).2⟩

end

/-- lists of one length are compared before what follows them -/
theorem append_lt_append {k k' l l' : List Nat} (hlen : k.length = k'.length) :
    k ++ l < k' ++ l' ↔ k < k' ∨ k = k' ∧ l < l' := by
  induction k generalizing k' with
  | nil =>
    obtain rfl := List.length_eq_zero_iff.mp hlen.symm
    simp
  | cons x k ih =>
    obtain ⟨y, k', rfl⟩ := List.exists_cons_of_length_eq_add_one hlen.symm
    rw [List.cons_append, List.cons_append, List.cons_lt_cons_iff, List.cons_lt_cons_iff,
      ih (Nat.succ.inj hlen), List.cons.injEq]
    constructor
    · rintro (h | ⟨h, h' | ⟨h', hl⟩⟩)
      · exact Or.inl (Or.inl h)
      · exact Or.inl (Or.inr ⟨h, h'⟩)
      · exact Or.inr ⟨⟨h, h'⟩, hl⟩
    · rintro ((h | ⟨h, h'⟩) | ⟨⟨h, h'⟩, hl⟩)
      · exact Or.inl h
      · exact Or.inr ⟨h, Or.inl h'⟩
      · exact Or.inr ⟨h, Or.inr ⟨h', hl⟩⟩

/-- one level of a comparison that a signed result decides -/
theorem signed_iff {d : Int} {next : Bool} {k k' l l' : List Nat} (hlen : k.length = k'.length)
    (hneg : d < 0 ↔ k < k') (hpos : d > 0 ↔ k' < k) (h : k = k' → (next = true ↔ l < l')) :
    (if d < 0 then true else if d > 0 then false else next) = true ↔ k ++ l < k' ++ l' := by
  rw [append_lt_append hlen]
  by_cases hd : d < 0
  · rw [if_pos hd]
    exact iff_of_true rfl (Or.inl (hneg.mp hd))
  · rw [if_neg hd]
    by_cases hd' : d > 0
    · have hlt := hpos.mp hd'
      rw [if_pos hd']
      refine iff_of_false Bool.false_ne_true ?_
      rintro (hc | ⟨rfl, -⟩)
      · exact lt_asymm hlt hc
      · exact lt_irrefl _ hlt
    · have he : k = k' := le_antisymm (not_lt.mp (mt hpos.mpr hd')) (not_lt.mp (mt hneg.mpr hd))
      rw [if_neg hd', h he, he]
      exact ⟨fun hl => Or.inr ⟨rfl, hl⟩, fun hc => (hc.resolve_left (lt_irrefl _)).2⟩

end Rank
