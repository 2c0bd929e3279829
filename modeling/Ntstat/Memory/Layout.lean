import Mathlib.Data.List.Nodup
import Ntstat.Memory.Bytes

/-!
# C struct layout under `#pragma pack`

A struct is its list of members (name, size, alignment) and the pack limit in force.  Every member
goes to the next multiple of its alignment, capped by the limit; the size of the struct is its end
rounded up to its largest member alignment.

* `CStruct.offsetOf`, `CStruct.sizeOf`   what the compiler computes;
* `CStruct.slots_disjoint`, `CStruct.slot_end`   members do not overlap and lie inside the struct;
* `CStruct.image`        the bytes of a struct value, member by member;
* `CStruct.image_at`     byte `j` of member `i` stands at `offsetOf i + j`.
-/

namespace Memory

/-- a member of a struct -/
structure Member (ι : Type) where
  name : ι
  size : Nat
  align : Nat

/-- a struct definition with the pack limit it is compiled under; member names differ -/
structure CStruct (ι : Type) where
  pack : Nat
  members : List (Member ι)
  nodup : (members.map Member.name).Nodup

/-- where a member is placed -/
structure Slot (ι : Type) where
  name : ι
  off : Nat
  size : Nat

/-- the next multiple of `a` -/
def alignUp (off a : Nat) : Nat := off + (a - off % a) % a

theorem le_alignUp (off a : Nat) : off ≤ alignUp off a := Nat.le_add_right _ _

section
variable {ι : Type}

/-- the members placed one after the other from `off` -/
def place (pack : Nat) : Nat → List (Member ι) → List (Slot ι)
  | _, [] => []
  | off, m :: ms =>
    let o := alignUp off (min m.align pack)
    ⟨m.name, o, m.size⟩ :: place pack (o + m.size) ms

/-- the end of the last member -/
def placeEnd (pack : Nat) : Nat → List (Member ι) → Nat
  | off, [] => off
  | off, m :: ms => placeEnd pack (alignUp off (min m.align pack) + m.size) ms

theorem place_names (pack off : Nat) (ms : List (Member ι)) :
    (place pack off ms).map Slot.name = ms.map Member.name := by
  induction ms generalizing off with
  | nil => rfl
  | cons m ms ih => rw [place, List.map_cons, ih, List.map_cons]

theorem place_sizes (pack off : Nat) (ms : List (Member ι)) {m : Member ι} (hm : m ∈ ms) :
    ∃ o, (⟨m.name, o, m.size⟩ : Slot ι) ∈ place pack off ms := by
  induction ms generalizing off with
  | nil => simp at hm
  | cons m' ms ih =>
    rcases List.mem_cons.mp hm with rfl | h
    · exact ⟨_, List.mem_cons_self⟩
    · obtain ⟨o, ho⟩ := ih (alignUp off (min m'.align pack) + m'.size) h
      exact ⟨o, List.mem_cons_of_mem _ ho⟩

theorem le_placeEnd (pack off : Nat) (ms : List (Member ι)) : off ≤ placeEnd pack off ms := by
  induction ms generalizing off with
  | nil => exact le_rfl
  | cons m ms ih =>
    have h1 := le_alignUp off (min m.align pack)
    have h2 := ih (alignUp off (min m.align pack) + m.size)
    rw [placeEnd]
    omega

theorem place_bounds (pack off : Nat) (ms : List (Member ι)) :
    ∀ p ∈ place pack off ms, off ≤ p.off ∧ p.off + p.size ≤ placeEnd pack off ms := by
  induction ms generalizing off with
  | nil => simp [place]
  | cons m ms ih =>
    have h1 := le_alignUp off (min m.align pack)
    intro p hp
    rw [placeEnd]
    rcases List.mem_cons.mp hp with rfl | h
    · exact ⟨h1, le_placeEnd _ _ _⟩
    · obtain ⟨h2, h3⟩ := ih _ p h
      exact ⟨by omega, h3⟩

theorem place_sorted (pack off : Nat) (ms : List (Member ι)) :
    (place pack off ms).Pairwise fun p q => p.off + p.size ≤ q.off := by
  induction ms generalizing off with
  | nil => exact List.Pairwise.nil
  | cons m ms ih =>
    exact List.Pairwise.cons (fun q hq => (place_bounds _ _ _ q hq).1) (ih _)

end

namespace CStruct
variable {ι : Type} (s : CStruct ι)

def slots : List (Slot ι) := place s.pack 0 s.members

/-- the largest member alignment -/
def alignOf : Nat := (s.members.map fun m => min m.align s.pack).foldr max 1

/-- `sizeof` -/
def sizeOf : Nat := alignUp (placeEnd s.pack 0 s.members) s.alignOf

theorem slot_end {p : Slot ι} (hp : p ∈ s.slots) : p.off + p.size ≤ s.sizeOf :=
  le_trans (place_bounds _ _ _ p hp).2 (le_alignUp _ _)

theorem slots_disjoint {p q : Slot ι} (hp : p ∈ s.slots) (hq : q ∈ s.slots) {a : Nat}
    (ha : p.off ≤ a ∧ a < p.off + p.size) (hb : q.off ≤ a ∧ a < q.off + q.size) : p = q := by
  by_contra hne
  have hs : s.slots.Pairwise fun p q => p.off + p.size ≤ q.off := place_sorted _ _ _
  rcases List.Pairwise.forall_of_forall_of_flip (R := fun p q : Slot ι =>
      p ≠ q → p.off + p.size ≤ q.off ∨ q.off + q.size ≤ p.off) (fun _ _ h => absurd rfl h)
      (hs.imp fun h _ => Or.inl h) (hs.imp fun h _ => Or.inr h) hp hq hne with h | h <;> omega

variable [DecidableEq ι]

/-- `offsetof` (0 for a name that is not a member) -/
def offsetOf (i : ι) : Nat := ((s.slots.find? fun p => p.name = i).map Slot.off).getD 0

/-- `i` is a member of size `k` -/
def Has (i : ι) (k : Nat) : Prop := ∃ m ∈ s.members, m.name = i ∧ m.size = k

instance (i : ι) (k : Nat) : Decidable (s.Has i k) := by unfold Has; infer_instance

theorem slot_of_has {i : ι} {k : Nat} (h : s.Has i k) :
    (⟨i, s.offsetOf i, k⟩ : Slot ι) ∈ s.slots := by
  obtain ⟨m, hm, rfl, rfl⟩ := h
  obtain ⟨o, ho⟩ := place_sizes s.pack 0 s.members hm
  have hnd : (s.slots.map Slot.name).Nodup := by
    rw [slots, place_names]
    exact s.nodup
  cases e : s.slots.find? fun p => p.name = m.name with
  | none => exact absurd (List.find?_eq_none.mp e _ ho) (by simp)
  | some p =>
    have hp : p ∈ s.slots := List.mem_of_find?_eq_some e
    have hn : p.name = m.name := by simpa using List.find?_some e
    have heq : p = ⟨m.name, o, m.size⟩ := List.inj_on_of_nodup_map hnd hp ho hn
    subst heq
    have : s.offsetOf m.name = o := by simp [offsetOf, e]
    rw [this]
    exact ho

/-- a member lies inside the struct -/
theorem has_end {i : ι} {k : Nat} (h : s.Has i k) : s.offsetOf i + k ≤ s.sizeOf :=
  s.slot_end (s.slot_of_has h)

/-- the bytes of a struct value: `vals i` are the bytes of member `i`, `pad` stands between -/
def image (vals : ι → Mem) (pad : Mem) : Mem := fun a =>
  match s.slots.find? fun p => p.off ≤ a && a < p.off + p.size with
  | some p => vals p.name (a - p.off)
  | none => pad a

/-- **Byte `j` of member `i` stands at `offsetOf i + j`.** -/
theorem image_at {i : ι} {k : Nat} (h : s.Has i k) (vals : ι → Mem) (pad : Mem) {j : Nat}
    (hj : j < k) : s.image vals pad (s.offsetOf i + j) = vals i j := by
  have hs := s.slot_of_has h
  unfold image
  cases e : s.slots.find? fun p =>
      p.off ≤ s.offsetOf i + j && s.offsetOf i + j < p.off + p.size with
  | none =>
    have := List.find?_eq_none.mp e _ hs
    simp [hj] at this
  | some p =>
    have hp : p ∈ s.slots := List.mem_of_find?_eq_some e
    have ha := List.find?_some e
    simp only [Bool.and_eq_true, decide_eq_true_eq] at ha
    have heq := s.slots_disjoint hp hs ha ⟨Nat.le_add_right _ _, Nat.add_lt_add_left hj _⟩
    subst heq
    simp

end CStruct

end Memory
