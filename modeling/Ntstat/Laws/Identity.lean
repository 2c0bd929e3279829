import Ntstat.Laws.Announce
import Ntstat.Sources.History

/-!
# The identity of a stream

* `told_iff`          which streams were shown by `onStreamAdded`;
* `identity_iff`      later calls show the identity that the object was announced with in exactly
                      the runs in which no object is reported while its latest accepted description
                      has another key or process than the announcing one.
-/

namespace Ntstat
open Memory Machine

/-- the part of a stream that its header calls constant -/
structure NTStatStream.SameIdentity (a b : NTStatStream) : Prop where
  id : b.id = a.id
  key : b.key = a.key
  process : b.process = a.process

theorem NTStatStream.sameIdentity_iff {a b : NTStatStream} : a.SameIdentity b ↔ b.id = a.id ∧
    b.key = a.key ∧ b.process.pid = a.process.pid ∧
      b.process.name.toList = a.process.name.toList := by
  constructor
  · intro h
    exact ⟨h.id, h.key, congrArg _ h.process, congrArg _ (congrArg _ h.process)⟩
  · intro h
    obtain ⟨hid, hkey, hpid, hname⟩ := h
    refine ⟨hid, hkey, ?_⟩
    rw [NTStatProcess.mk.injEq]
    exact ⟨hpid, Vector.toList_inj.mp hname⟩

instance (a b : NTStatStream) : Decidable (a.SameIdentity b) :=
  decidable_of_iff' _ NTStatStream.sameIdentity_iff

/-- a source is announced with the stream -/
def Sources.AnnouncesAs (s : Sources) (i : Input) (p : Ptr) (stream : NTStatStream) : Prop :=
  s.Accepts i p stream ∧ (s.heap p).haveNotifiedAdded = false ∧ stream.key.noPorts = false

/-- a call other than the announcement -/
def Sources.Reports (s : Sources) (i : Input) (p : Ptr) : Prop :=
  s.RemovesWithPorts i p ∨ s.CountsWanted i p

/-- every call after the announcement of its object shows the identity that was announced -/
def IdentityConstant (l : List Shown) : Prop :=
  ∀ pre post p cb stream stream', l = pre ++ (p, cb, stream') :: post →
    (p, .onStreamAdded, stream) ∈ pre → stream.SameIdentity stream'

theorem identityConstant_nil : IdentityConstant [] := by
  intro pre post p cb stream stream' h
  simp at h

/-- calls that all show one identity -/
theorem identityConstant_of_one {l : List Shown} {shown : NTStatStream}
    (h : ∀ x ∈ l, shown.SameIdentity x.2.2) : IdentityConstant l := by
  intro pre post p cb stream stream' he hm
  have ha := h (p, .onStreamAdded, stream) (he ▸ List.mem_append_left _ hm)
  have hb := h (p, cb, stream') (he ▸ List.mem_append_right _ List.mem_cons_self)
  exact ⟨hb.id.trans ha.id.symm, hb.key.trans ha.key.symm, hb.process.trans ha.process.symm⟩

theorem identityConstant_concat {l : List Shown} {p : Ptr} {cb : Callback}
    {stream' : NTStatStream} : IdentityConstant (l ++ [(p, cb, stream')]) ↔ IdentityConstant l ∧
      ∀ stream, (p, .onStreamAdded, stream) ∈ l → stream.SameIdentity stream' := by
  constructor
  · intro h
    refine ⟨fun pre post q cb' a b e hm => ?_, fun stream hm => h l [] p cb stream stream' rfl hm⟩
    exact h pre (post ++ [(p, cb, stream')]) q cb' a b (by simp [e]) hm
  · intro hex
    obtain ⟨h1, h2⟩ := hex
    intro pre post q cb' a b e hm
    cases post using List.reverseRecOn with
    | nil =>
      obtain ⟨rfl, hx⟩ := List.append_inj' e rfl
      obtain ⟨rfl, hy⟩ := Prod.mk.inj (List.singleton_inj.mp hx)
      obtain ⟨-, rfl⟩ := Prod.mk.inj hy
      exact h2 a hm
    | append_singleton post x =>
      rw [← List.cons_append, ← List.append_assoc] at e
      obtain ⟨rfl, -⟩ := List.append_inj' e rfl
      exact h1 pre post q cb' a b rfl hm

/-- such a call shows the object as it is -/
theorem Sources.shown_report {s s' : Sources} {i : Input} {shown : List Shown} {p : Ptr}
    {cb : Callback} {stream : NTStatStream} (h : s.step i = some (s', shown))
    (hcb : cb ≠ .onStreamAdded) (hm : (p, cb, stream) ∈ shown) :
    s.Reports i p ∧ (s.heap p).obj.SameIdentity stream := by
  cases cb with
  | onStreamAdded => exact absurd rfl hcb
  | onStreamRemoved =>
    obtain ⟨hr, rfl⟩ := (shown_removed h).mp hm
    exact ⟨Or.inl hr, rfl, rfl, rfl⟩
  | onStreamStatsUpdate =>
    obtain ⟨stats, _, _, _, _, rfl⟩ := (shown_stats h).mp hm
    exact ⟨Or.inr ((countsWanted_iff h).mpr ⟨_, hm⟩), rfl, rfl, rfl⟩

theorem Sources.reports_iff {s s' : Sources} {i : Input} {shown : List Shown} {p : Ptr}
    (h : s.step i = some (s', shown)) :
    s.Reports i p ↔ ∃ cb stream, cb ≠ .onStreamAdded ∧ (p, cb, stream) ∈ shown := by
  constructor
  · rintro (hr | hr)
    · obtain ⟨stream, hm⟩ := (removesWithPorts_iff h).mp hr
      exact ⟨_, stream, by decide, hm⟩
    · obtain ⟨stream, hm⟩ := (countsWanted_iff h).mp hr
      exact ⟨_, stream, by decide, hm⟩
  · intro hex
    obtain ⟨cb, stream, hcb, hm⟩ := hex
    exact (shown_report h hcb hm).1

namespace Session
variable (S : Session)

/-- the stream that the latest accepted description of `p` left -/
def lastAccepted (p : Ptr) (steps : List Step) : Option NTStatStream :=
  latest S.step (fun c st => Sources.accepted p c.sources (st.input S.handler)) S.start steps

/-- some step reports an announced object while its latest accepted description has another key or
process than the announcing one -/
def ReportsChanged (steps : List Step) : Prop :=
  Sometime S.step S.start steps fun pre c st => ∃ p stream obj,
    c.sources.Reports (st.input S.handler) p ∧
    (S.Ever pre fun s i => s.AnnouncesAs i p stream) ∧ S.lastAccepted p pre = some obj ∧
    (obj.key ≠ stream.key ∨ obj.process ≠ stream.process)

variable {S} {steps : List Step} {c : Client} {effs : List Effect} {p : Ptr}

/-- the object has key and process of the latest accepted description -/
theorem heap_lastAccepted (h : S.run steps = some (c, effs)) :
    (S.lastAccepted p steps = none → (c.heap p).haveNotifiedAdded = false) ∧
    ∀ obj, S.lastAccepted p steps = some obj →
      (c.heap p).obj.key = obj.key ∧ (c.heap p).obj.process = obj.process := by
  refine exec_inv (P := fun steps c _ =>
    (S.lastAccepted p steps = none → (c.heap p).haveNotifiedAdded = false) ∧
    ∀ obj, S.lastAccepted p steps = some obj →
      (c.heap p).obj.key = obj.key ∧ (c.heap p).obj.process = obj.process) ?_ ?_ h
  · have h0 : S.start.heap p = .blank := congrArg (fun s => s.heap p) (start_sources (S := S))
    rw [h0]
    exact ⟨fun _ => rfl, fun _ h => by cases h⟩
  · intro steps c1 e1 st c2 e2 hx hP hst
    obtain ⟨hP1, hP2⟩ := hP
    have hs := step_sources hst
    have hc := (session_life hx).1
    have hi := input_lawful S.version.lawful st
    obtain ⟨hacc, hrest⟩ := Sources.identity_step hc hi hs p
    unfold lastAccepted at hP1 hP2 ⊢
    rw [latest_concat hx]
    cases ha : Sources.accepted p c1.sources (st.input S.handler) with
    | some obj =>
      have hobj := hacc obj (Sources.accepted_iff.mp ha)
      refine ⟨fun h => by simp at h, fun obj' h => ?_⟩
      obtain rfl : obj = obj' := by simpa using h
      exact ⟨congrArg _ hobj, congrArg _ hobj⟩
    | none =>
      have hn : ∀ obj, ¬ c1.sources.Accepts (st.input S.handler) p obj := fun obj hx => by
        rw [Sources.accepted_iff.mpr hx] at ha
        cases ha
      obtain ⟨hk, hp⟩ := hrest hn
      refine ⟨fun h => ?_, fun obj h => ?_⟩
      · have hf := (Sources.flags_step hc hs p).1
        have h1 := hP1 (by simpa using h)
        by_contra hne
        rcases hf.mp (Bool.eq_true_of_not_eq_false hne) with h2 | ⟨obj, h2⟩
        · exact absurd (h1.symm.trans h2) Bool.false_ne_true
        · exact hn obj h2
      · obtain ⟨h1, h2⟩ := hP2 obj (by simpa using h)
        exact ⟨hk.trans h1, hp.trans h2⟩

/-- **Who was announced, and with which stream.** -/
theorem told_iff (h : S.run steps = some (c, effs)) {stream : NTStatStream} :
    (p, .onStreamAdded, stream) ∈ callbacks effs ↔
      S.Ever steps fun s i => s.AnnouncesAs i p stream := by
  refine exec_inv (P := fun steps _ effs => (p, .onStreamAdded, stream) ∈ callbacks effs ↔
    S.Ever steps fun s i => s.AnnouncesAs i p stream) ?_ ?_ h
  · simp [Ever, callbacks]
  · intro steps c1 e1 st c2 e2 hx hP hst
    have hever : S.Ever (steps ++ [st]) (fun s i => s.AnnouncesAs i p stream) ↔
        (S.Ever steps fun s i => s.AnnouncesAs i p stream) ∨
          c1.sources.AnnouncesAs (st.input S.handler) p stream := sometime_concat hx
    rw [callbacks_append, List.mem_append, hP, hever, Sources.shown_added (step_sources hst)]
    rfl

/-- all calls for an object show its id -/
theorem told_id (h : S.run steps = some (c, effs)) {cb : Callback} {stream : NTStatStream}
    (hm : (p, cb, stream) ∈ callbacks effs) :
    p < c.next ∧ stream.id = (c.heap p).obj.id := by
  refine exec_inv (P := fun _ c effs => (p, cb, stream) ∈ callbacks effs →
    p < c.next ∧ stream.id = (c.heap p).obj.id) (fun h => by cases h) ?_ h hm
  intro steps c1 e1 st c2 e2 hx hP hst hm
  have hs := step_sources hst
  have hi := input_lawful S.version.lawful st
  rw [callbacks_append, List.mem_append] at hm
  have h1 : p < c1.next ∧ stream.id = (c1.heap p).obj.id :=
    hm.elim hP (Sources.shown_id (session_life hx).1 hi hs)
  exact ⟨lt_of_lt_of_le h1.1 (Sources.next_step hs), h1.2.trans (Sources.id_step hi h1.1 hs).symm⟩

/-- an announced object has an accepted description -/
theorem lastAccepted_of_told (h : S.run steps = some (c, effs)) {stream : NTStatStream}
    (hm : (p, .onStreamAdded, stream) ∈ callbacks effs) :
    ∃ obj, S.lastAccepted p steps = some obj := by
  have hl := (session_life h).2 p
  have hnot : (c.sources.heap p).haveNotifiedAdded = true :=
    hl.first.mpr (Or.inl (hl.announced.mp ⟨stream, hm⟩))
  by_contra hn
  have h0 := (heap_lastAccepted h).1 (Option.eq_none_iff_forall_not_mem.mpr (not_exists.mp hn))
  exact absurd (h0.symm.trans hnot) Bool.false_ne_true

/-- one more call -/
theorem identity_step {st : Step} {c' : Client} {effs' : List Effect}
    (h : S.run steps = some (c, effs)) (hst : S.step c st = some (c', effs')) :
    IdentityConstant (callbacks (effs ++ effs')) ↔ IdentityConstant (callbacks effs) ∧
      ¬ ∃ p stream obj, c.sources.Reports (st.input S.handler) p ∧
        (S.Ever steps fun s i => s.AnnouncesAs i p stream) ∧ S.lastAccepted p steps = some obj ∧
        (obj.key ≠ stream.key ∨ obj.process ≠ stream.process) := by
  have hs := step_sources hst
  simp only [← told_iff h, Sources.reports_iff hs, callbacks_append]
  rcases Sources.shown_cases hs with he | ⟨q, cb, stream', he⟩
  · simp [he]
  rw [he, identityConstant_concat]
  have hmem : (q, cb, stream') ∈ callbacks effs' := by simp [he]
  refine and_congr_right fun _ => ?_
  by_cases hcb : cb = .onStreamAdded
  · subst hcb
    -- the object was not announced before
    have hfresh : ∀ stream, (q, .onStreamAdded, stream) ∉ callbacks effs := by
      intro stream hm
      have hl := (session_life h).2 q
      have hnot := hl.first.mpr (Or.inl (hl.announced.mp ⟨stream, hm⟩))
      exact absurd (hnot.symm.trans ((Sources.shown_added hs).mp hmem).2.1) Bool.false_ne_true.symm
    constructor
    · rintro - ⟨p, stream, obj, ⟨cb', stream'', hne, hm⟩, -⟩
      obtain ⟨-, hm⟩ := Prod.mk.inj (List.mem_singleton.mp hm)
      exact hne (Prod.mk.inj hm).1
    · exact fun _ stream hm => absurd hm (hfresh stream)
  · have hcur := (Sources.shown_report hs hcb hmem).2
    constructor
    · rintro hsame ⟨p, stream, obj, ⟨cb', stream'', -, hm⟩, htold, hlast, hne⟩
      obtain ⟨rfl, -⟩ := Prod.mk.inj (List.mem_singleton.mp hm)
      obtain ⟨hk, hp⟩ := (heap_lastAccepted h).2 obj hlast
      obtain ⟨-, hk', hp'⟩ := hsame stream htold
      rcases hne with hne | hne
      · exact hne (hk.symm.trans (hcur.key.symm.trans hk'))
      · exact hne (hp.symm.trans (hcur.process.symm.trans hp'))
    · intro hn stream htold
      obtain ⟨obj, hlast⟩ := lastAccepted_of_told h htold
      obtain ⟨hk, hp⟩ := (heap_lastAccepted h).2 obj hlast
      have hid := (told_id h htold).2
      have hall : obj.key = stream.key ∧ obj.process = stream.process := by
        by_contra hne
        exact hn ⟨q, stream, obj, ⟨cb, stream', hcb, List.mem_singleton.mpr rfl⟩, htold, hlast,
          not_and_or.mp hne⟩
      exact ⟨hcur.id.trans hid.symm, hcur.key.trans (hk.trans hall.1),
        hcur.process.trans (hp.trans hall.2)⟩

/-- **The identity is constant in exactly the runs that report no object whose latest accepted
description has another key or process than the announcing one.** -/
theorem identity_iff (h : S.run steps = some (c, effs)) :
    IdentityConstant (callbacks effs) ↔ ¬ S.ReportsChanged steps := by
  refine exec_inv (P := fun steps _ effs =>
    IdentityConstant (callbacks effs) ↔ ¬ S.ReportsChanged steps) ?_ ?_ h
  · simp [ReportsChanged, callbacks, identityConstant_nil]
  · intro steps c1 e1 st c2 e2 hx hP hst
    have hrep : S.ReportsChanged (steps ++ [st]) ↔ S.ReportsChanged steps ∨ ∃ p stream obj,
        c1.sources.Reports (st.input S.handler) p ∧
        (S.Ever steps fun s i => s.AnnouncesAs i p stream) ∧ S.lastAccepted p steps = some obj ∧
        (obj.key ≠ stream.key ∨ obj.process ≠ stream.process) := sometime_concat hx
    rw [identity_step hx hst, hP, hrep, not_or]

/-- a UDP source that is described twice, with other ports -/
def describedTwice : List Step :=
  [.readNextMessage 1 1 (structs3789.addedMsg 7 4) 28,
   .readNextMessage 2 2 (structs3789.udpDescMsg 7 4 80 81) 248,
   .readNextMessage 3 3 (structs3789.udpDescMsg 7 4 82 83) 248,
   .readNextMessage 4 4 (structs3789.removedMsg 7) 24]

theorem key_changes : ∃ c effs, session3789.run describedTwice = some (c, effs) ∧
    ¬ IdentityConstant (callbacks effs) := by
  have h : (session3789.run describedTwice).map (fun x => (callbacks x.2).map fun y =>
      (y.1, y.2.1, y.2.2.key.lport)) =
        some [(0, .onStreamAdded, 80), (0, .onStreamRemoved, 82)] := by decide
  obtain ⟨⟨c, effs⟩, hr, hm⟩ := Option.map_eq_some_iff.mp h
  refine ⟨c, effs, hr, fun hc => ?_⟩
  obtain ⟨⟨p, cb, stream⟩, rest, he, hx, hm⟩ := List.map_eq_cons_iff.mp hm
  obtain ⟨⟨p', cb', stream'⟩, he', hx'⟩ := List.map_eq_singleton_iff.mp hm
  simp only [Prod.mk.injEq] at hx hx'
  obtain ⟨rfl, rfl, hl⟩ := hx
  obtain ⟨rfl, rfl, hl'⟩ := hx'
  have hsame := hc [(0, .onStreamAdded, stream)] [] 0 .onStreamRemoved stream stream'
    (by rw [he, he']; rfl) List.mem_cons_self
  rw [hsame.key, hl] at hl'
  exact absurd hl' (by decide)

/-- the identity of source 7 after its description by `structs3789.udpDescMsg 7 4 80 81` -/
def shownSeven : NTStatStream :=
  NetstatSource.fixName { id := 7, key := { ipproto := 17, lport := 80, rport := 81 } }

theorem identity_describedAgain : ∃ c effs,
    session3789.run describedAgain = some (c, effs) ∧
    (callbacks effs).map (fun x => x.2.1) =
      [.onStreamAdded, .onStreamStatsUpdate, .onStreamRemoved] ∧
    (∀ x ∈ callbacks effs, shownSeven.SameIdentity x.2.2) ∧
    IdentityConstant (callbacks effs) ∧ ¬ session3789.ReportsChanged describedAgain := by
  have hrun : (session3789.run describedAgain).map (fun x =>
      ((callbacks x.2).map fun y => y.2.1,
        (callbacks x.2).all fun y => decide (shownSeven.SameIdentity y.2.2))) =
      some ([.onStreamAdded, .onStreamStatsUpdate, .onStreamRemoved], true) := by decide
  obtain ⟨⟨c, effs⟩, h, he⟩ := Option.map_eq_some_iff.mp hrun
  obtain ⟨hm, hall⟩ := Prod.mk.inj he
  have hshown : ∀ x ∈ callbacks effs, shownSeven.SameIdentity x.2.2 := fun x hx =>
    of_decide_eq_true (List.all_eq_true.mp hall x hx)
  have hsame : IdentityConstant (callbacks effs) := identityConstant_of_one hshown
  exact ⟨c, effs, h, hm, hshown, hsame, (identity_iff h).mp hsame⟩

end Session

end Ntstat
