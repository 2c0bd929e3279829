import Mathlib.Data.Finset.Card

/-!
# What is held under names

A name is taken for a thing of some kind, and dropped again.  What is held is a set of names, each
with its kind.

* `Op`, `held`   taking and dropping, and what is held afterwards;
* `Always`       a condition on every operation and on what is held before it;
* `TakesNew`     no name is taken that is held, so that every name has one kind;
* `DropOf`       whatever is dropped is held, as a thing of one kind;
* `card_held`    then what is held of a kind is what was taken of it, less what was dropped.
-/

namespace Machine

inductive Op (ν κ : Type*) where
  | take (n : ν) (k : κ)
  | drop (n : ν)
deriving DecidableEq

section
variable {ν κ : Type*} [DecidableEq ν] [DecidableEq κ]

def Op.apply (s : Finset (ν × κ)) : Op ν κ → Finset (ν × κ)
  | take n k => insert (n, k) s
  | drop n => s.filter fun x => x.1 ≠ n

/-- what is held after the operations, if it was `s` before them -/
def held (s : Finset (ν × κ)) (ops : List (Op ν κ)) : Finset (ν × κ) := ops.foldl Op.apply s

@[simp] theorem held_nil (s : Finset (ν × κ)) : held s [] = s := rfl

theorem held_cons (s : Finset (ν × κ)) (op : Op ν κ) (ops : List (Op ν κ)) :
    held s (op :: ops) = held (op.apply s) ops := rfl

theorem held_append (s : Finset (ν × κ)) (ops ops' : List (Op ν κ)) :
    held s (ops ++ ops') = held (held s ops) ops' := List.foldl_append

theorem mem_take {s : Finset (ν × κ)} {x : ν × κ} {n : ν} {k : κ} :
    x ∈ (Op.take n k).apply s ↔ x = (n, k) ∨ x ∈ s := Finset.mem_insert

theorem mem_drop {s : Finset (ν × κ)} {x : ν × κ} {n : ν} :
    x ∈ (Op.drop n).apply s ↔ x ∈ s ∧ x.1 ≠ n := Finset.mem_filter

/-- `P` holds of every operation and of what is held before it -/
def Always (P : Finset (ν × κ) → Op ν κ → Prop) : Finset (ν × κ) → List (Op ν κ) → Prop
  | _, [] => True
  | s, op :: ops => P s op ∧ Always P (op.apply s) ops

instance instDecidableAlways (P : Finset (ν × κ) → Op ν κ → Prop) [∀ s op, Decidable (P s op)] :
    (s : Finset (ν × κ)) → (ops : List (Op ν κ)) → Decidable (Always P s ops)
  | _, [] => .isTrue trivial
  | s, op :: ops =>
    have := instDecidableAlways P (op.apply s) ops
    inferInstanceAs (Decidable (P s op ∧ Always P (op.apply s) ops))

variable {P : Finset (ν × κ) → Op ν κ → Prop} {s : Finset (ν × κ)} {ops ops' : List (Op ν κ)}
  {k k0 : κ}

theorem always_append : Always P s (ops ++ ops') ↔ Always P s ops ∧ Always P (held s ops) ops' := by
  induction ops generalizing s with
  | nil => exact (iff_of_eq (true_and _)).symm
  | cons op ops ih =>
    show P s op ∧ Always P (op.apply s) (ops ++ ops') ↔ _
    rw [ih, ← and_assoc]
    rfl

/-- no name is taken that is held -/
def TakesNew (s : Finset (ν × κ)) : Op ν κ → Prop
  | .take n _ => ∀ x ∈ s, x.1 ≠ n
  | .drop _ => True

instance (s : Finset (ν × κ)) : (op : Op ν κ) → Decidable (TakesNew s op)
  | .take n _ => inferInstanceAs (Decidable (∀ x ∈ s, x.1 ≠ n))
  | .drop _ => .isTrue trivial

/-- what is dropped is held, as a thing of kind `k` -/
def DropOf (k : κ) (s : Finset (ν × κ)) : Op ν κ → Prop
  | .take _ _ => True
  | .drop n => (n, k) ∈ s

instance (k : κ) (s : Finset (ν × κ)) : (op : Op ν κ) → Decidable (DropOf k s op)
  | .take _ _ => .isTrue trivial
  | .drop n => inferInstanceAs (Decidable ((n, k) ∈ s))

/-- a name has one kind -/
def Functional (s : Finset (ν × κ)) : Prop := ∀ x ∈ s, ∀ y ∈ s, x.1 = y.1 → x = y

theorem functional_apply {op : Op ν κ} (hs : Functional s) (hf : TakesNew s op) :
    Functional (op.apply s) := by
  intro x hx y hy hxy
  cases op with
  | take n k =>
    rcases mem_take.mp hx with rfl | hx'
    · rcases mem_take.mp hy with rfl | hy'
      · rfl
      · exact absurd hxy.symm (hf y hy')
    · rcases mem_take.mp hy with rfl | hy'
      · exact absurd hxy (hf x hx')
      · exact hs x hx' y hy' hxy
  | drop n => exact hs x (mem_drop.mp hx).1 y (mem_drop.mp hy).1 hxy

/-! ## counting -/

/-- what is held of a kind -/
def ofKind (k : κ) (s : Finset (ν × κ)) : Finset (ν × κ) := s.filter fun x => x.2 = k

omit [DecidableEq ν] in
theorem mem_ofKind {x : ν × κ} : x ∈ ofKind k s ↔ x ∈ s ∧ x.2 = k := Finset.mem_filter

def Op.takes (k : κ) : Op ν κ → Bool
  | take _ k' => k' = k
  | drop _ => false

def Op.drops : Op ν κ → Bool
  | take _ _ => false
  | drop _ => true

theorem card_take {n : ν} {k' : κ} (hf : TakesNew s (.take n k')) :
    (ofKind k ((Op.take n k').apply s)).card =
      (ofKind k s).card + if k' = k then 1 else 0 := by
  unfold ofKind Op.apply
  dsimp only
  rw [Finset.filter_insert]
  by_cases hk : k' = k
  · rw [if_pos hk, if_pos hk, Finset.card_insert_of_notMem]
    exact fun hm => hf _ (Finset.mem_filter.mp hm).1 rfl
  · rw [if_neg hk, if_neg hk, Nat.add_zero]

theorem card_drop {n : ν} (hs : Functional s) (hd : (n, k0) ∈ s) :
    (ofKind k ((Op.drop n).apply s)).card + (if k0 = k then 1 else 0) = (ofKind k s).card := by
  have hrest : ofKind k ((Op.drop n).apply s) = (ofKind k s).erase (n, k0) := by
    ext x
    rw [mem_ofKind, mem_drop, Finset.mem_erase, mem_ofKind]
    constructor
    · intro h
      exact ⟨fun he => h.1.2 (congrArg Prod.fst he), h.1.1, h.2⟩
    · intro h
      exact ⟨⟨h.2.1, fun he => h.1 (hs x h.2.1 _ hd he)⟩, h.2.2⟩
  rw [hrest]
  by_cases hk : k0 = k
  · rw [if_pos hk]
    exact Finset.card_erase_add_one (mem_ofKind.mpr ⟨hd, hk⟩)
  · rw [if_neg hk, Finset.erase_eq_of_notMem fun hm => hk (mem_ofKind.mp hm).2, Nat.add_zero]

/-- **Nothing gets lost**: of the one kind that is dropped, what is held and what was dropped is
what was there and what was taken; of another kind, all of it is held. -/
theorem card_held (hs : Functional s) (hf : Always TakesNew s ops) (hd : Always (DropOf k0) s ops) :
    (ofKind k (held s ops)).card + (if k0 = k then ops.countP Op.drops else 0) =
      (ofKind k s).card + ops.countP (Op.takes k) := by
  induction ops generalizing s with
  | nil => simp
  | cons op ops ih =>
    have h := ih (functional_apply hs hf.1) hf.2 hd.2
    rw [held_cons, List.countP_cons, List.countP_cons]
    cases op with
    | take n k' =>
      have hc := card_take (k := k) hf.1
      rw [hc] at h
      show _ + (if k0 = k then _ + (if false = true then 1 else 0) else 0) =
        _ + (_ + if decide (k' = k) = true then 1 else 0)
      simp only [Bool.false_eq_true, if_false, decide_eq_true_eq, Nat.add_zero]
      omega
    | drop n =>
      have hc := card_drop (k := k) hs hd.1
      show _ + (if k0 = k then _ + (if true = true then 1 else 0) else 0) =
        _ + (_ + if false = true then 1 else 0)
      by_cases hk : k0 = k
      · rw [if_pos hk] at h hc ⊢
        simp only [Bool.false_eq_true, if_false, if_true]
        omega
      · rw [if_neg hk] at h hc ⊢
        simp only [Bool.false_eq_true, if_false]
        omega

end

end Machine
