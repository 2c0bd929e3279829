import Ntstat.Kernel.Protocol
import Ntstat.Laws.Independence

/-!
# A kernel that keeps the order, and an application that relies on one

* `listens`        what the listener may be told of one reference, one call after another;
* `Tracks`         the cell of a source that the kernel has said something of;
* `tracks_step`    every step keeps it, whatever other sources, sweeps and requests come between;
* `conforms`       so the listener is told of a source as it expects, and has it open exactly while
                   the kernel has it described with ports;
* `conforms_lossy`   the same when descriptions and counts get lost on the way.
-/

namespace Ntstat
open Memory Machine

/-- the calls about one reference; `true` between `onStreamAdded` and `onStreamRemoved` -/
def listens : Bool → Callback → Option Bool
  | false, .onStreamAdded => some true
  | true, .onStreamStatsUpdate => some true
  | true, .onStreamRemoved => some false
  | _, _ => none

/-- the notice about `r` in a step -/
def Step.notice (v : KernelVersion) (r : UInt64) : Step → Option Notice
  | readNextMessage _ _ buf n =>
    if 0 < n ∧ (v.handler.getSrcRef buf n.toNat (0, 0)).1 = r then v.notice buf else none
  | _ => none

/-- the source has ports in what the kernel has said of it -/
def SourceLife.isOpen : SourceLife → Bool
  | live (some true) => true
  | _ => false

/-- the cell of a source of which the kernel has said `a` -/
inductive Tracks : SourceLife → Option NetstatSource → Prop
  | unseen : Tracks .unseen none
  | live {t : NetstatSource} {ports : Option Bool} (h0 : t.tsRemoved = 0)
    (hn : t.haveNotifiedAdded = ports.isSome) (hp : t.obj.key.noPorts = (ports != some true))
    (hr : ports ≠ some true → t.requestedCount = false) : Tracks (.live ports) (some t)
  | removed {c : Option NetstatSource} (h : ∀ t, c = some t → t.tsRemoved > 0) : Tracks .removed c

theorem Tracks.fields {ports : Option Bool} {t : NetstatSource}
    (h : Tracks (.live ports) (some t)) :
    t.tsRemoved = 0 ∧ t.haveNotifiedAdded = ports.isSome ∧
      t.obj.key.noPorts = (ports != some true) ∧
        (ports ≠ some true → t.requestedCount = false) := by
  cases h with
  | live h0 hn hp hr => exact ⟨h0, hn, hp, hr⟩

/-! ## notices and inputs -/

section
variable {v : KernelVersion} {st : Step} {r r' : UInt64}

theorem notice_of_added {now : Time} {prov : UInt32} (h : st.input v.handler = .added now r' prov) :
    st.notice v r = if r' = r then some .added else none := by
  obtain ⟨_, buf, n, rfl, hn, ht, he⟩ := added_of_input h
  unfold Step.notice KernelVersion.notice
  dsimp only
  rw [he, ht]
  simp [hn]

/-- the notice in a message about a source -/
def SrcEvent.Noticed (v : KernelVersion) (e : SrcEvent) : Notice → Prop
  | .removed => ∃ now, e = .removed now
  | .desc ports => ∃ buf n, ports = v.describesPorts buf ∧ e = .desc (v.handler.readSrcDesc buf n)
  | .counts => ∃ now read, e = .counts now read
  | .added => False

theorem notice_of_message {e : SrcEvent} (h : st.input v.handler = .message r' e) :
    ∃ x, e.Noticed v x ∧ st.notice v r = if r' = r then some x else none := by
  obtain ⟨now, _, buf, n, rfl, hn, rfl, hcases⟩ := message_of_input h
  unfold Step.notice KernelVersion.notice
  dsimp only
  rcases hcases with ⟨ht, rfl⟩ | ⟨ht, rfl⟩ | ⟨ht, rfl⟩
  · exact ⟨.removed, ⟨now, rfl⟩, by simp [ht, hn]⟩
  · exact ⟨.desc (v.describesPorts buf), ⟨buf, n.toNat, rfl, rfl⟩, by simp [ht, hn]⟩
  · exact ⟨.counts, ⟨now, _, rfl⟩, by simp [ht, hn]⟩

theorem reading_of_message {H : NTStatKernelStructHandler} {now : Time}
    (h : st.input H = .message r (.removed now)) : st.reading = some now := by
  obtain ⟨now', _, _, n, rfl, hn, _, hcases⟩ := message_of_input h
  rcases hcases with ⟨_, he⟩ | ⟨_, he⟩ | ⟨_, he⟩
  · obtain rfl := SrcEvent.removed.inj he
    exact if_neg (Int.not_le.mpr hn)
  · cases he
  · cases he

/-- any other step says nothing of a source -/
theorem notice_none (ha : ∀ now r prov, st.input v.handler ≠ .added now r prov)
    (hm : ∀ r e, st.input v.handler ≠ .message r e) : st.notice v r = none := by
  cases st with
  | readNextMessage now timestamp buf n =>
    unfold Step.input messageInput at ha hm
    unfold Step.notice KernelVersion.notice
    dsimp only at ha hm ⊢
    by_cases hn : 0 < n
    · rw [if_neg (Int.not_le.mpr hn)] at ha hm
      cases ht : hdrType buf <;> simp_all
    · rw [if_neg (fun h => hn h.1)]
  | _ => rfl

end

/-! ## one cell -/

section
variable {v : KernelVersion} {r : UInt64} {a a' : SourceLife} {t : NetstatSource}
  {c : Option NetstatSource}

/-- SRC_REMOVED ends the life, and is reported if the source is open -/
theorem tracks_removed {ports : Option Bool} (h : Tracks (.live ports) (some t)) {now : Time}
    (hnow : 0 < now) : Tracks .removed (some (t.removed now).1) ∧
      Follows listens (SourceLife.isOpen (.live ports)) ((t.removed now).2.map Prod.fst) false := by
  obtain ⟨h0, hn, hp, hr⟩ := h.fields
  refine ⟨.removed fun t' he => Option.some.inj he ▸ hnow, ?_⟩
  unfold NetstatSource.removed
  dsimp only
  rw [hp]
  match ports with
  | some true => exact follows_single.mpr rfl
  | some false => exact follows_nil.mpr rfl
  | none => exact follows_nil.mpr rfl

/-- SRC_COUNTS goes on, and is reported only if the source is open -/
theorem tracks_counted {ports : Option Bool} (h : Tracks (.live ports) (some t)) (now : Time)
    (stats : NTStatCounters) : Tracks (.live ports) (some (t.counted now stats).1) ∧
      Follows listens (SourceLife.isOpen (.live ports)) ((t.counted now stats).2.map Prod.fst)
        (SourceLife.isOpen (.live ports)) := by
  obtain ⟨h0, hn, hp, hr⟩ := h.fields
  refine ⟨.live h0 hn hp fun _ => rfl, ?_⟩
  unfold NetstatSource.counted
  dsimp only
  by_cases ho : ports = some true
  · subst ho
    split
    · exact follows_single.mpr rfl
    · exact follows_nil.mpr rfl
  · rw [hr ho, Bool.false_and, Bool.and_false, if_neg (by decide)]
    exact follows_nil.mpr rfl

/-- the first SRC_DESC with ports opens the source -/
theorem tracks_described {ports : Option Bool} (h : Tracks (.live ports) (some t)) {q : Bool}
    (hq : ports = none ∨ ports = some q) {obj : NTStatStream} (ho : obj.key.noPorts = !q) :
    Tracks (.live (some q)) (some (t.described obj).1) ∧
      Follows listens (SourceLife.isOpen (.live ports)) ((t.described obj).2.map Prod.fst)
        (SourceLife.isOpen (.live (some q))) := by
  obtain ⟨h0, hn, hp, hr⟩ := h.fields
  constructor
  · refine .live h0 rfl ?_ fun hne => hr fun he => ?_
    · show (NetstatSource.fixName obj).key.noPorts = _
      rw [NetstatSource.fixName_key, ho]
      cases q <;> rfl
    · rcases hq with rfl | rfl
      · cases he
      · exact hne he
  · unfold NetstatSource.described
    dsimp only
    rw [hn, NetstatSource.fixName_key, ho]
    rcases hq with rfl | rfl
    · cases q
      · exact follows_nil.mpr rfl
      · exact follows_single.mpr rfl
    · cases q
      · exact follows_nil.mpr rfl
      · exact follows_nil.mpr rfl

/-- a message that finds a live source -/
theorem tracks_message {ports : Option Bool} (h : Tracks (.live ports) (some t)) {e : SrcEvent}
    {x : Notice} (hx : e.Noticed v x) (hn : (SourceLife.live ports).next v.acceptsOther x = some a')
    (hpos : ∀ now, e = .removed now → 0 < now) {y : NetstatSource × List Call}
    (hy : e.apply t = some y) : Tracks a' (some y.1) ∧
      Follows listens (SourceLife.isOpen (.live ports)) (y.2.map Prod.fst) a'.isOpen := by
  cases x with
  | added => cases hx
  | removed =>
    obtain ⟨now, rfl⟩ := hx
    obtain rfl := Option.some.inj hy
    obtain rfl : SourceLife.removed = a' := by cases ports <;> exact Option.some.inj hn
    exact tracks_removed h (hpos now rfl)
  | counts =>
    obtain ⟨now, read, rfl⟩ := hx
    obtain rfl := Option.some.inj hy
    obtain rfl : SourceLife.live ports = a' := by cases ports <;> exact Option.some.inj hn
    exact tracks_counted h now _
  | desc p =>
    obtain ⟨buf, n, rfl, rfl⟩ := hx
    obtain ⟨⟨b, obj⟩, hread, he⟩ := Option.map_eq_some_iff.mp hy
    rcases readSrcDesc_ports hread with ⟨q, hp, rfl, ho⟩ | ⟨hp, rfl, rfl⟩
    · rw [hp] at hn
      obtain rfl := he
      cases ports with
      | none =>
        obtain rfl := Option.some.inj hn
        exact tracks_described h (Or.inl rfl) ho
      | some p =>
        obtain ⟨rfl, rfl⟩ : q = p ∧ SourceLife.live (some p) = a' := by
          simpa [SourceLife.next] using hn
        exact tracks_described h (Or.inr rfl) ho
    · -- the handler rejects what it does not read
      rw [hp] at hn
      obtain ⟨hother, rfl⟩ : v.acceptsOther = false ∧ SourceLife.live ports = a' := by
        cases ports <;> simpa [SourceLife.next] using hn
      rw [hother] at he
      obtain rfl := he
      exact ⟨h, follows_nil.mpr rfl⟩

/-- a sweep marks a source only if it is open -/
theorem tracks_sweep (h : Tracks a c) (now : Time) :
    Tracks a (c.map fun t => if t.wantsCount now then t.marked else t) := by
  cases h with
  | unseen => exact .unseen
  | @live t ports h0 hn hp hr =>
    rw [Option.map_some]
    by_cases hw : t.wantsCount now = true
    · rw [if_pos hw]
      refine .live h0 hn hp fun hne => ?_
      -- a source without ports is passed over
      unfold NetstatSource.wantsCount at hw
      simp [hp, bne_iff_ne.mpr hne] at hw
    · rw [if_neg hw]
      exact .live h0 hn hp hr
  | removed h =>
    refine .removed fun t' he => ?_
    obtain ⟨t, ht, rfl⟩ := Option.map_eq_some_iff.mp he
    split <;> exact h t ht

/-- the eviction takes removed sources only -/
theorem tracks_evict (h : Tracks a c) (now : Time) :
    Tracks a (c.filter fun t => !t.expired now) := by
  cases h with
  | unseen => exact .unseen
  | @live t ports h0 hn hp hr =>
    have hx : t.expired now = false := by
      unfold NetstatSource.expired
      rw [h0]
      rfl
    rw [Option.filter_some, hx]
    exact .live h0 hn hp hr
  | removed h => exact .removed fun t' he => h t' (Option.filter_eq_some_iff.mp he).1

/-- **Every step of a cell goes with the notice in it.** -/
theorem tracks_step {st : Step} {c' : Option NetstatSource} {calls : List Call} (h : Tracks a c)
    (hpos : ∀ t, st.reading = some t → 0 < t)
    (ha : Follows (SourceLife.next v.acceptsOther) a (st.notice v r).toList a')
    (hst : cellStep r c (st.input v.handler) = some (c', calls)) :
    Tracks a' c' ∧ Follows listens a.isOpen (calls.map Prod.fst) a'.isOpen := by
  have hm := cellMoves_of_step hst
  generalize hin : st.input v.handler = i at hm
  have hquiet : st.notice v r = none → a' = a := fun hn => by
    rw [hn] at ha
    exact (follows_nil.mp ha).symm
  have hsays : ∀ {x}, st.notice v r = some x → a.next v.acceptsOther x = some a' := fun hn => by
    rw [hn] at ha
    exact follows_single.mp ha
  cases hm with
  | @fresh _ now prov hf =>
    have hn := hsays ((notice_of_added hin).trans (if_pos rfl))
    cases h with
    | live h0 => exact absurd (hf _ rfl) (by rw [h0]; exact Int.lt_irrefl 0)
    | unseen =>
      obtain rfl := Option.some.inj hn
      exact ⟨.live rfl rfl rfl fun _ => rfl, follows_nil.mpr rfl⟩
    | removed =>
      obtain rfl := Option.some.inj hn
      exact ⟨.live rfl rfl rfl fun _ => rfl, follows_nil.mpr rfl⟩
  | @kept t now prov ht =>
    have hn := hsays ((notice_of_added hin).trans (if_pos rfl))
    cases h with
    | @live _ ports h0 hnot hp hr =>
      obtain rfl : SourceLife.live ports = a' := by cases ports <;> exact Option.some.inj hn
      exact ⟨.live h0 hnot hp hr, follows_nil.mpr rfl⟩
    | removed h => exact absurd (h t rfl) ht
  | addedOther hr =>
    obtain rfl := hquiet ((notice_of_added hin).trans (if_neg hr))
    exact ⟨h, follows_nil.mpr rfl⟩
  | unknown =>
    obtain ⟨x, hx, hnx⟩ := notice_of_message (r := r) hin
    have hn := hsays (hnx.trans (if_pos rfl))
    cases h with
    | unseen =>
      obtain rfl : SourceLife.unseen = a' := by
        cases x <;> first | exact absurd hx id | exact Option.some.inj hn
      exact ⟨.unseen, follows_nil.mpr rfl⟩
    | removed =>
      cases x <;> first | exact absurd hx id | cases hn
  | @found t e x hx =>
    obtain ⟨y, hy, hny⟩ := notice_of_message (r := r) hin
    have hn := hsays (hny.trans (if_pos rfl))
    cases h with
    | @live _ ports h0 hnot hp hr =>
      refine tracks_message (.live h0 hnot hp hr) hy hn (fun now he => hpos now ?_) hx
      exact reading_of_message (he ▸ hin)
    | removed =>
      cases y <;> first | exact absurd hy id | cases hn
  | messageOther hr =>
    obtain ⟨x, -, hnx⟩ := notice_of_message (r := r) hin
    obtain rfl := hquiet (hnx.trans (if_neg hr))
    exact ⟨h, follows_nil.mpr rfl⟩
  | requestCounts =>
    obtain rfl := hquiet (notice_none (by simp [hin]) (by simp [hin]))
    exact ⟨tracks_sweep h _, follows_nil.mpr rfl⟩
  | evict =>
    obtain rfl := hquiet (notice_none (by simp [hin]) (by simp [hin]))
    exact ⟨tracks_evict h _, follows_nil.mpr rfl⟩
  | other =>
    obtain rfl := hquiet (notice_none (by simp [hin]) (by simp [hin]))
    exact ⟨h, follows_nil.mpr rfl⟩

end

/-! ## sessions -/

namespace Session
variable {S : Session} {steps : List Step} {c : Client} {effs : List Effect} {r : UInt64}
  {a : SourceLife}

/-- the callbacks about `r`, in order -/
def reports (r : UInt64) (effs : List Effect) : List Callback :=
  (callsFor r (callbacks effs)).map Prod.fst

/-- the notices about `r` that the steps read, in order -/
def heard (S : Session) (r : UInt64) (steps : List Step) : List Notice :=
  steps.filterMap (Step.notice S.version r)

/-- the order that a kernel of the version keeps -/
abbrev order (S : Session) : SourceLife → Notice → Option SourceLife :=
  SourceLife.next S.version.acceptsOther

theorem reports_eq_filterMap (r : UInt64) (effs : List Effect) :
    reports r effs = effs.filterMap fun e => (e.callFor r).map Prod.fst := by
  unfold reports
  rw [← filterMap_callFor, List.map_filterMap]

/-- **A run keeps the cell of a source with what the kernel has said of it.** -/
theorem run_tracks (h : S.run steps = some (c, effs)) (hpos : Positive steps)
    (ha : Follows S.order .unseen (S.heard r steps) a) :
    Tracks a (c.sources.cell r) ∧ Follows listens false (reports r effs) a.isOpen := by
  have hstart : S.start.sources.Coherent ∧ Tracks .unseen (S.start.sources.cell r) := by
    rw [start_sources]
    exact ⟨Sources.coherent_init, .unseen⟩
  have hstep : ∀ a (c : Client) b st a' c' o,
      (c.sources.Coherent ∧ Tracks a (c.sources.cell r)) ∧ b = a.isOpen →
      (∀ t, st.reading = some t → 0 < t) →
      Follows S.order a (Step.notice S.version r st).toList a' → S.step c st = some (c', o) →
      ∃ b', Follows listens b (o.filterMap fun e => (e.callFor r).map Prod.fst) b' ∧
        (c'.sources.Coherent ∧ Tracks a' (c'.sources.cell r)) ∧ b' = a'.isOpen := by
    intro a c b st a' c' o hR hQ hnext hst
    obtain ⟨⟨hc, ht⟩, rfl⟩ := hR
    have hi := input_lawful S.version.lawful st
    have hs := step_sources hst
    obtain ⟨ht', hl⟩ := tracks_step ht hQ hnext (Sources.step_cell hc hi hs r)
    refine ⟨a'.isOpen, ?_, ⟨Sources.step_coherent hc hi hs, ht'⟩, rfl⟩
    rw [← reports_eq_filterMap]
    exact hl
  obtain ⟨b, hb, ⟨-, ht⟩, rfl⟩ := exec_contract hstep ⟨hstart, rfl⟩ (positive_iff.mp hpos) ha h
  rw [reports_eq_filterMap]
  exact ⟨ht, hb⟩

/-- **If the kernel keeps its order, the listener is told of a source in the order it expects, and
has the source open exactly if the kernel has described it with ports and not removed it.** -/
theorem conforms (h : S.run steps = some (c, effs)) (hpos : Positive steps)
    (ha : Follows S.order .unseen (S.heard r steps) a) :
    Follows listens false (reports r effs) a.isOpen := (run_tracks h hpos ha).2

/-- **The same if descriptions and counts get lost; then the application may miss a source, but
never has one open that the kernel has not described with ports or has removed.** -/
theorem conforms_lossy (h : S.run steps = some (c, effs)) (hpos : Positive steps)
    {sent : List Notice} (hl : Loses sent (S.heard r steps))
    (ha : Follows S.order .unseen sent a) :
    ∃ b, Follows listens false (reports r effs) b ∧ (b = true → a.isOpen = true) := by
  obtain ⟨a', ha', hb⟩ := SourceLife.behind_of_loses hl (.same _) ha
  refine ⟨a'.isOpen, (run_tracks h hpos ha').2, fun ho => ?_⟩
  cases hb with
  | same => exact ho
  | late => cases ho

/-- source 8 has no ports; source 7 is described, counted, announced again, removed and reused -/
def orderly : List Step :=
  [.sendNextMsg 1 24,
   .readNextMessage 1 1 (structs3789.addedMsg 7 4) 28,
   .readNextMessage 1 1 (structs3789.addedMsg 8 4) 28,
   .readNextMessage 2 2 (structs3789.udpDescMsg 8 4 0 0) 248,
   .readNextMessage 2 2 (structs3789.udpDescMsg 7 4 80 81) 248,
   .updateWaitForCountsQueue 20,
   .readNextMessage 21 21 (structs3789.countsMsg 7 5) 136,
   .readNextMessage 22 22 (structs3789.addedMsg 7 4) 28,
   .readNextMessage 22 22 (structs3789.removedMsg 7) 24,
   .removeOldSources 60,
   .readNextMessage 61 61 (structs3789.addedMsg 7 4) 28]

theorem conforms_orderly : ∃ c effs, session3789.run orderly = some (c, effs) ∧
    reports 7 effs = [.onStreamAdded, .onStreamStatsUpdate, .onStreamRemoved] ∧
    Follows listens false (reports 7 effs) false := by
  have hrun : (session3789.run orderly).map (fun x => reports 7 x.2) =
      some [.onStreamAdded, .onStreamStatsUpdate, .onStreamRemoved] := by decide
  obtain ⟨⟨c, effs⟩, h, ht⟩ := Option.map_eq_some_iff.mp hrun
  have ha : Follows session3789.order .unseen (session3789.heard 7 orderly) (.live none) := by
    decide
  exact ⟨c, effs, h, ht, conforms h (by unfold Positive; decide) ha⟩

/-- of what the kernel sent, the counts did not arrive -/
theorem conforms_lossy_orderly : ∃ c effs, session3789.run (orderly.take 5) = some (c, effs) ∧
    ∃ b, Follows listens false (reports 7 effs) b ∧
      (b = true → SourceLife.isOpen (.live (some true)) = true) := by
  obtain ⟨⟨c, effs⟩, h⟩ := Option.isSome_iff_exists.mp
    (show (session3789.run (orderly.take 5)).isSome = true by decide)
  have hheard : session3789.heard 7 (orderly.take 5) = [.added, .desc (some true)] := by
    decide
  have hl : Loses [.added, .counts, .desc (some true)]
      (session3789.heard 7 (orderly.take 5)) := by
    rw [hheard]
    exact .keep (.lose rfl (.keep .nil))
  exact ⟨c, effs, h, conforms_lossy h (by unfold Positive; decide) hl rfl⟩

end Session

end Ntstat
