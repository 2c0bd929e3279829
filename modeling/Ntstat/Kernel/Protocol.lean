import Ntstat.Kernel.Contents
import Ntstat.Machine.Contract

/-!
# The order in which a kernel speaks of a source

A source is added, described and counted any number of times, and removed; SRC_ADDED may be sent
again before the removal, and the reference may be given to a new source after it.

* `Notice`               a notification about one source, as far as its order matters;
* `SourceLife.next`      the order that a kernel keeps; what a source says before its first
                         SRC_ADDED, which the client may have missed, is arbitrary;
* `Loses`                reports get lost when the buffer of the socket is full;
* `readSrcDesc_ports`    the handlers read ports exactly where the description has them.
-/

namespace Ntstat
open Memory Machine KernelStructs

inductive Notice where
  | added
  | removed
  /-- whether the description has ports, if the handler reads it -/
  | desc (ports : Option Bool)
  | counts
deriving DecidableEq

/-- what the kernel has said of a source; `ports` is what its descriptions said -/
inductive SourceLife where
  | unseen
  | live (ports : Option Bool)
  | removed
deriving DecidableEq

namespace SourceLife

/-- the source after a notice, none where no kernel sends it: nothing is said of a removed source
before it is added again, a source has ports in all of its descriptions or in none, and none of
them is one that the handler takes without reading it (`other`) -/
def next (other : Bool) : SourceLife → Notice → Option SourceLife
  | unseen, .added => some (live none)
  | unseen, _ => some unseen
  | removed, .added => some (live none)
  | removed, _ => none
  | live _, .removed => some removed
  | live none, .desc (some ports) => some (live (some ports))
  | live (some ports), .desc (some ports') =>
    if ports' = ports then some (live (some ports)) else none
  | live ports, .desc none => if other then none else some (live ports)
  | live ports, _ => some (live ports)

end SourceLife

/-! ## lost reports -/

/-- descriptions and counts are answers to requests, or are repeated -/
def Notice.isReport : Notice → Bool
  | desc _ => true
  | counts => true
  | _ => false

/-- the second list is what is left of the first one when reports get lost -/
inductive Loses : List Notice → List Notice → Prop
  | nil : Loses [] []
  | keep {x l l'} (h : Loses l l') : Loses (x :: l) (x :: l')
  | lose {x l l'} (hx : x.isReport = true) (h : Loses l l') : Loses (x :: l) l'

namespace SourceLife
variable {other : Bool} {a a1 a' : SourceLife} {x : Notice}

/-- the client may have missed the description -/
inductive Behind : SourceLife → SourceLife → Prop
  | same (a : SourceLife) : Behind a a
  | late (ports : Option Bool) : Behind (live ports) (live none)

/-- a report describes the source at most -/
theorem next_report (hx : x.isReport = true) (h : a.next other x = some a1) :
    a1 = a ∨ a = live none ∧ ∃ ports, a1 = live ports := by
  cases a with
  | live ports =>
    cases x with
    | desc p =>
      cases p with
      | none => cases ports <;> simp_all [next]
      | some q =>
        cases ports with
        | none => exact Or.inr ⟨rfl, some q, (Option.some.inj h).symm⟩
        | some ports => simp_all [next]
    | counts => cases ports <;> simp_all [next]
    | _ => cases hx
  | _ => cases x <;> simp_all [next, Notice.isReport]

/-- a report that is lost leaves the client behind -/
theorem behind_lost (h : a.Behind a') (hx : x.isReport = true) (hn : a.next other x = some a1) :
    a1.Behind a' := by
  rcases next_report hx hn with rfl | ⟨rfl, ports, rfl⟩
  · exact h
  · cases h <;> exact .late ports

/-- one that arrives does not -/
theorem behind_kept (h : a.Behind a') (hn : a.next other x = some a1) :
    ∃ a1', a'.next other x = some a1' ∧ a1.Behind a1' := by
  cases h with
  | same => exact ⟨a1, hn, .same _⟩
  | late ports =>
    cases ports with
    | none => exact ⟨a1, hn, .same _⟩
    | some ports =>
      cases x with
      | added => exact ⟨_, rfl, Option.some.inj hn ▸ .late _⟩
      | removed => exact ⟨_, rfl, Option.some.inj hn ▸ .same _⟩
      | counts => exact ⟨_, rfl, Option.some.inj hn ▸ .late _⟩
      | desc p =>
        cases p with
        | none =>
          by_cases ho : other = true
          · exact absurd hn (by simp [next, ho])
          · obtain rfl : live (some ports) = a1 := by simpa [next, ho] using hn
            exact ⟨live none, by simp [next, ho], .late _⟩
        | some ports' =>
          unfold next at hn
          dsimp only at hn
          split at hn
          · next he => exact ⟨_, rfl, he ▸ Option.some.inj hn ▸ .same _⟩
          · cases hn

/-- **What is left of an orderly sequence of notices is orderly.** -/
theorem behind_of_loses {l l' : List Notice} (h : Loses l l') (hb : a.Behind a')
    (hl : Follows (next other) a l a1) : ∃ a1', Follows (next other) a' l' a1' ∧ a1.Behind a1' := by
  induction h generalizing a a' with
  | nil =>
    obtain rfl := follows_nil.mp hl
    exact ⟨a', follows_nil.mpr rfl, hb⟩
  | keep _ ih =>
    obtain ⟨a2, h1, h2⟩ := follows_cons.mp hl
    obtain ⟨a2', h3, hb'⟩ := behind_kept hb h1
    obtain ⟨a1', h4, hb1⟩ := ih hb' h2
    exact ⟨a1', follows_cons.mpr ⟨a2', h3, h4⟩, hb1⟩
  | lose hx _ ih =>
    obtain ⟨a2, h1, h2⟩ := follows_cons.mp hl
    exact ih (behind_lost hb hx h1) h2

end SourceLife

/-! ## notices in messages -/

/-- whether the description has a port, if the handler reads it -/
def KernelVersion.describesPorts (v : KernelVersion) (msg : Mem) : Option Bool :=
  (v.protoOf msg).map fun proto => !(u16 msg ((v.place proto).localAddr + sinPort) == 0 &&
    u16 msg ((v.place proto).remoteAddr + sinPort) == 0)

/-- the notice in a message -/
def KernelVersion.notice (v : KernelVersion) (msg : Mem) : Option Notice :=
  match hdrType msg with
  | .srcAdded => some .added
  | .srcRemoved => some .removed
  | .srcDesc => some (.desc (v.describesPorts msg))
  | .srcCounts => some .counts
  | _ => none

/-- **What a handler leaves of a description as far as its ports go.** -/
theorem readSrcDesc_ports {v : KernelVersion} {msg : Mem} {n : Nat} {dest obj : NTStatStream}
    {b : Bool} (h : v.handler.readSrcDesc msg n dest = some (b, obj)) :
    (∃ ports, v.describesPorts msg = some ports ∧ b = true ∧ obj.key.noPorts = !ports) ∨
      v.describesPorts msg = none ∧ b = v.acceptsOther ∧ obj = dest := by
  unfold KernelVersion.describesPorts
  cases hp : v.protoOf msg with
  | none =>
    rw [readSrcDesc_of_other hp] at h
    obtain ⟨rfl, rfl⟩ := Prod.mk.inj (Option.some.inj h)
    exact Or.inr ⟨rfl, rfl, rfl⟩
  | some proto =>
    rw [readSrcDesc_of_proto hp] at h
    obtain ⟨d, hd, he⟩ := Option.map_eq_some_iff.mp h
    obtain ⟨rfl, rfl⟩ := Prod.mk.inj he
    refine Or.inl ⟨_, rfl, rfl, ?_⟩
    unfold readDescAt readName NTStatStream.strcpyName at hd
    obtain ⟨l, -, rfl⟩ := Option.map_eq_some_iff.mp hd
    have hkey := readKey_key (v.place proto) msg proto.ipproto dest.key
    rw [NTStatStream.writeName_key, NTStatStreamKey.noPorts, hkey.lport, hkey.rport, Bool.not_not]

end Ntstat
