import Ntstat.Laws.Matching

/-!
# The subscription

* `ClientState.advance`, `step_subscription`   what a step does to the state and what it subscribes
                          to depends only on the answer that it carries;
* `subscription_sequence`   the subscriptions of a run, and that none follows the running state;
* `advances_iff`          when the subscription advances on its own answers only.
-/

namespace Ntstat
open Memory Machine Std

/-- the providers of the subscriptions sent, in order -/
def KernelVersion.subscriptions (v : KernelVersion) (effs : List Effect) : List UInt32 :=
  (enqueued effs).filterMap fun msg => v.subscription (Mem.ofList msg)

@[simp] theorem subscriptions_append (v : KernelVersion) (e e' : List Effect) :
    v.subscriptions (e ++ e') = v.subscriptions e ++ v.subscriptions e' := by
  unfold KernelVersion.subscriptions
  rw [enqueued_append, List.filterMap_append]

theorem subscriptions_notify (v : KernelVersion) {effs : List Effect}
    (h : ∀ e ∈ effs, e.isNotify = true) : v.subscriptions effs = [] := by
  rw [KernelVersion.subscriptions, (quiet_of_notify h).1]
  rfl

/-- of a SUCCESS or ERROR, whether it is a SUCCESS or an error that is not fatal -/
def answerOf (msg : Mem) (numBytes : Nat) : Option Bool :=
  match hdrType msg with
  | .success => some true
  | .error => some (notFatal (Client.getAndLogError {} msg numBytes).1)
  | _ => none

/-- the answer that the step handles -/
def Step.answer : Step → Option Bool
  | readNextMessage _ _ buf n => if n ≤ 0 then none else answerOf buf n.toNat
  | _ => none

/-- the state after an answer, and what it makes the client subscribe to -/
def ClientState.advance (wantUdp : Bool) : ClientState → Option Bool → ClientState × List Proto
  | s, none => (s, [])
  | requestTcpSrc, some ok => if ok && wantUdp then (requestUdpSrc, [.udp]) else (running, [])
  | _, some _ => (running, [])

namespace Client
variable {v : KernelVersion} {c : Client}

/-- a live client after the start of `run` -/
structure Subscribing (c : Client) (cfg : Config) : Prop where
  live : c.inReplayMode = false
  wantUdp : c.wantUdp = cfg.wantUdp
  state : c.state = .requestTcpSrc ∨ c.state = .requestUdpSrc ∨ c.state = .running

/-- the operation that gives `x` advances the subscription by the answer -/
def AdvancesBy (v : KernelVersion) (c : Client) (answer : Option Bool)
    (x : Client × List Effect) : Prop :=
  ∀ cfg, c.Subscribing cfg → x.1.Subscribing cfg ∧
    x.1.state = (c.state.advance cfg.wantUdp answer).1 ∧
    v.subscriptions x.2 = (c.state.advance cfg.wantUdp answer).2.map v.provider

/-- only sources, queues and counters change, and no subscription is sent -/
structure Unsubscribed (v : KernelVersion) (c : Client) (x : Client × List Effect) : Prop where
  live : x.1.inReplayMode = c.inReplayMode
  wantUdp : x.1.wantUdp = c.wantUdp
  state : x.1.state = c.state
  effects : v.subscriptions x.2 = []

theorem Unsubscribed.advances {x : Client × List Effect} (h : c.Unsubscribed v x) :
    c.AdvancesBy v none x := by
  intro cfg hc
  refine ⟨⟨h.live.trans hc.live, h.wantUdp.trans hc.wantUdp, ?_⟩, h.state, h.effects⟩
  rw [h.state]
  exact hc.state

theorem Calm.unsubscribed {x : Client × List Effect} (h : c.Calm x) : c.Unsubscribed v x := by
  obtain ⟨x1, x2⟩ := x
  obtain ⟨⟨_, _, _, _, _, _, rfl⟩, he⟩ := h
  exact ⟨rfl, rfl, rfl, subscriptions_notify v he⟩

theorem Unsubscribed.trans {x y : Client × List Effect} (hx : c.Unsubscribed v x)
    (hy : x.1.Unsubscribed v y) : c.Unsubscribed v (y.1, x.2 ++ y.2) :=
  ⟨hy.live.trans hx.live, hy.wantUdp.trans hx.wantUdp, hy.state.trans hx.state, by
    rw [subscriptions_append, hx.effects, hy.effects]
    rfl⟩

theorem getAndLogError_fst (c c' : Client) (msg : Mem) (n : Nat) :
    (c.getAndLogError msg n).1 = (c'.getAndLogError msg n).1 := by
  unfold getAndLogError
  dsimp only
  split <;> rfl

/-- a request of another kind -/
theorem unsubscribed_send {msg : List UInt8} (h : v.subscription (Mem.ofList msg) = none) :
    c.Unsubscribed v (c.send msg) := by
  unfold send
  split
  · exact ⟨rfl, rfl, rfl, rfl⟩
  · refine ⟨rfl, rfl, rfl, ?_⟩
    show List.filterMap _ [msg] = []
    simp [h]

/-- the client `c` after it entered the state and subscribed to the provider -/
structure Subscribed (v : KernelVersion) (c : Client) (s : ClientState) (proto : Proto)
    (x : Client × List Effect) : Prop where
  live : x.1.inReplayMode = false
  wantUdp : x.1.wantUdp = c.wantUdp
  state : x.1.state = s
  effects : ∃ msg, x.2 = [.enqueue msg] ∧
    v.subscription (Mem.ofList msg) = some (v.provider proto)

theorem Subscribed.subscriptions {s : ClientState} {proto : Proto} {x : Client × List Effect}
    (h : c.Subscribed v s proto x) : v.subscriptions x.2 = [v.provider proto] := by
  obtain ⟨msg, he, hp⟩ := h.effects
  rw [he]
  show List.filterMap _ [msg] = _
  simp [hp]

theorem subscribed_send (hl : c.inReplayMode = false) (s : ClientState) {proto : Proto}
    {msg : List UInt8} (h : v.subscription (Mem.ofList msg) = some (v.provider proto)) :
    c.Subscribed v s proto (send { c with state := s } msg) := by
  have hl' : ({ c with state := s } : Client).inReplayMode = false := hl
  unfold send
  rw [if_neg (by simp [hl'])]
  exact ⟨hl, rfl, rfl, msg, rfl, h⟩

theorem enterStateRequestUdpSrc_subscribed (hl : c.inReplayMode = false) :
    c.Subscribed v .requestUdpSrc .udp (c.enterStateRequestUdpSrc v.handler) :=
  subscribed_send hl _ (v.subscription_addAll _).2

theorem enterStateRequestTcpSrc_subscribed (hl : c.inReplayMode = false) :
    c.Subscribed v .requestTcpSrc .tcp (c.enterStateRequestTcpSrc v.handler) :=
  subscribed_send hl _ (v.subscription_addAll _).1

/-- an answer that comes before the running state -/
theorem handleState_advances {msg : Mem} {n : Nat} {ok : Bool} (hok : answerOf msg n = some ok)
    (hs : c.state ≠ .running) (reqMsg : QMsg) :
    c.AdvancesBy v (some ok) (c.handleState v.handler msg n reqMsg) := by
  intro cfg hc
  have he : c.Calm ((if hdrType msg = .error then c.getAndLogError msg n else (0, c)).2, []) := by
    split
    · exact calm_getAndLogError c msg n
    · exact calm_silent ⟨_, _, _, _, _, _, rfl⟩
  have hokay : (hdrType msg == .success && 0 < reqMsg.msgbytes.length ||
      notFatal (if hdrType msg = .error then c.getAndLogError msg n else (0, c)).1) = ok := by
    unfold answerOf at hok
    split at hok
    · next ht =>
      obtain rfl := Option.some.inj hok
      rw [if_neg (by rw [ht]; decide), show notFatal 0 = true from rfl, Bool.or_true]
    · next ht =>
      rw [if_pos ht, ht, getAndLogError_fst c {}, show (MsgType.error == .success) = false from rfl,
        Bool.false_and, Bool.false_or]
      exact Option.some.inj hok
    · cases hok
  unfold handleState
  generalize (if hdrType msg = .error then c.getAndLogError msg n else (0, c)) = e at he hokay ⊢
  obtain ⟨hl, hw, hst, -⟩ := he.unsubscribed (v := v)
  have hl' : e.2.inReplayMode = false := hl.trans hc.live
  have hw' : e.2.wantUdp = cfg.wantUdp := hw.trans hc.wantUdp
  have hst' : e.2.state = c.state := hst
  dsimp only
  rw [hokay, hst']
  rcases hc.state with h1 | h1 | h1
  · rw [h1]
    dsimp only [ClientState.advance]
    rw [hw']
    cases ok with
    | false => exact ⟨⟨hl', hw', Or.inr (Or.inr rfl)⟩, rfl, rfl⟩
    | true =>
      cases hu : cfg.wantUdp with
      | false => exact ⟨⟨hl', hw', Or.inr (Or.inr rfl)⟩, rfl, rfl⟩
      | true =>
        have hx := enterStateRequestUdpSrc_subscribed (v := v) hl'
        exact ⟨⟨hx.live, hx.wantUdp.trans hw', Or.inr (Or.inl hx.state)⟩, hx.state,
          hx.subscriptions⟩
  · rw [h1]
    exact ⟨⟨hl', hw', Or.inr (Or.inr rfl)⟩, rfl, rfl⟩
  · exact absurd h1 hs

theorem handleResponseMessage_advances {now : Time} {msg : Mem} {n : Nat}
    {x : Int × Client × List Effect} (h : c.handleResponseMessage v.handler now msg n = some x) :
    c.AdvancesBy v (answerOf msg n) x.2 := by
  intro cfg hc
  have hq : (c.takeRequest (hdrContext msg)).2.Subscribing cfg ∧
      (c.takeRequest (hdrContext msg)).2.state = c.state := by
    unfold takeRequest
    split <;> exact ⟨⟨hc.live, hc.wantUdp, hc.state⟩, rfl⟩
  obtain ⟨hq1, hq2⟩ := hq
  rcases handleResponseMessage_cases h with ⟨hs, ht, he⟩ | ⟨hnt, hcalm⟩
  · rw [he, ← hq2]
    have hok : ∃ ok, answerOf msg n = some ok := by
      unfold answerOf
      rcases ht with ht | ht <;> rw [ht] <;> exact ⟨_, rfl⟩
    obtain ⟨ok, hok⟩ := hok
    rw [hok]
    exact handleState_advances hok hs _ cfg hq1
  · have hx := (hcalm.unsubscribed (v := v)).advances cfg hq1
    rw [hq2] at hnt hx
    by_cases hr : c.state = .running
    · -- in the running state answers change nothing
      have hadv : c.state.advance cfg.wantUdp (answerOf msg n) =
          c.state.advance cfg.wantUdp none := by
        rw [hr]
        cases answerOf msg n <;> rfl
      rw [hadv]
      exact hx
    · obtain ⟨h1, h2⟩ := hnt hr
      have hnone : answerOf msg n = none := by
        unfold answerOf
        split <;> first | rfl | contradiction
      rw [hnone]
      exact hx

theorem sendNextMsg_unsubscribed (c : Client) (timestamp : UInt32) (rc : Int) :
    c.Unsubscribed v (c.sendNextMsg v.handler timestamp rc) := by
  have h1 : c.Unsubscribed v (c.sendWaitingDesc v.handler) := by
    unfold sendWaitingDesc
    split
    · next k p _ _ _ =>
      have hs := unsubscribed_send (c := c) (v.subscription_srcDesc c.seqnum.toUInt64
        (c.heap p).providerId.toUInt64 (c.heap p).srcRef)
      exact ⟨hs.live, hs.wantUdp, hs.state, hs.effects⟩
    · exact ⟨rfl, rfl, rfl, rfl⟩
  have h2 : ∀ c : Client, c.Unsubscribed v (c.sendWaitingCount v.handler) := by
    intro c
    unfold sendWaitingCount
    split
    · next k p _ _ _ =>
      dsimp only
      split
      · have hs := unsubscribed_send (c := c) (v.subscription_querySrc c.seqnum.toUInt64
          (c.heap p).srcRef)
        exact ⟨hs.live, hs.wantUdp, hs.state, hs.effects⟩
      · exact ⟨rfl, rfl, rfl, rfl⟩
    · exact ⟨rfl, rfl, rfl, rfl⟩
  have h3 : ∀ c : Client, c.Unsubscribed v (c.sendFirst timestamp rc) := by
    intro c
    unfold sendFirst
    split
    · exact ⟨rfl, rfl, rfl, rfl⟩
    · next qm outq ho =>
      refine ⟨rfl, rfl, rfl, ?_⟩
      dsimp only [sendQMsg]
      rw [subscriptions_append, KernelVersion.subscriptions, (c.quiet_record_effects timestamp _).1]
      rfl
  exact (h1.trans (h2 _)).trans (h3 _)

end Client

/-- **Every step advances the subscription by the answer that it carries.** -/
theorem step_subscription {v : KernelVersion} {c c' : Client} {st : Step} {effs : List Effect}
    (h : step v.handler c st = some (c', effs)) : c.AdvancesBy v st.answer (c', effs) := by
  unfold Step.answer
  cases turn_of_step h with
  | nothing hn =>
    dsimp only
    rw [if_pos hn]
    exact Client.Unsubscribed.advances ⟨rfl, rfl, rfl, rfl⟩
  | @message now timestamp buf n x hn hx =>
    dsimp only
    rw [if_neg (Int.not_le.mpr hn)]
    intro cfg hc
    obtain ⟨h1, h2, h3⟩ := Client.handleResponseMessage_advances hx cfg hc
    refine ⟨h1, h2, ?_⟩
    rw [subscriptions_append, KernelVersion.subscriptions, (c.quiet_record_effects timestamp _).1]
    exact h3
  | updateWaitForCountsQueue now =>
    obtain ⟨_, _, he⟩ := c.updateWaitForCountsQueue_changes now
    rw [he]
    exact Client.Unsubscribed.advances ⟨rfl, rfl, rfl, rfl⟩
  | removeOldSources now => exact Client.Unsubscribed.advances ⟨rfl, rfl, rfl, rfl⟩
  | sendNextMsg timestamp rc => exact (c.sendNextMsg_unsubscribed timestamp rc).advances

/-! ## runs -/

/-- the state and the subscription that `run` starts with -/
def Config.first (cfg : Config) : ClientState × Proto :=
  if cfg.wantTcp then (.requestTcpSrc, .tcp) else (.requestUdpSrc, .udp)

/-- what a run subscribes to, by the first answer that it handles -/
def Config.subscribesTo (cfg : Config) (answer : Option Bool) : List Proto :=
  cfg.first.2 :: if cfg.wantTcp ∧ cfg.wantUdp ∧ answer = some true then [.udp] else []

/-- the context of the last subscription sent -/
def subscriptionContext (effs : List Effect) : Option UInt64 :=
  ((enqueued effs).filter fun msg => hdrType (Mem.ofList msg) = .addAllSrcs).getLast?.map
    fun msg => hdrContext (Mem.ofList msg)

/-- under the context no request is found, or one about a source -/
def Client.FindsOther (c : Client) (context : UInt64) : Prop :=
  ∀ qm, c.qmsgMap[context]? = some qm →
    hdrType (Mem.ofList qm.msgbytes) = .getSrcDesc ∨ hdrType (Mem.ofList qm.msgbytes) = .querySrc

namespace Session
variable (S : Session)

/-- in every step of the run, the subscription advances only on an answer to the last subscription,
and never on an answer to another request or to none -/
def AdvancesOnOwn (steps : List Step) : Prop :=
  ∀ pre st post c effs c' effs', S.At steps pre st post c effs → S.step c st = some (c', effs') →
    ((c.state = .requestTcpSrc ∨ c.state = .requestUdpSrc) → c'.state ≠ c.state →
      st.answer.isSome ∧ ∃ context, st.Answers context ∧
        subscriptionContext (S.prologue ++ effs) = some context) ∧
    ∀ context, st.Answers context → c.FindsOther context → c'.state = c.state

/-- before the running state, the run handles only answers to the last subscription -/
def AnsweredOwn (steps : List Step) : Prop :=
  ∀ pre st post c effs context, S.At steps pre st post c effs → c.state ≠ .running →
    st.answer.isSome → st.Answers context →
      subscriptionContext (S.prologue ++ effs) = some context ∧ ¬ c.FindsOther context

variable {S} {steps : List Step} {c : Client} {effs : List Effect}

theorem start_subscribed (S : Session) : ∃ c : Client, c.wantUdp = S.cfg.wantUdp ∧
    c.Subscribed S.version S.cfg.first.1 S.cfg.first.2 (S.start, S.prologue) := by
  have hl : (Client.configured S.cfg).inReplayMode = false := (configured_numbered S.cfg).live
  have hw : (Client.configured S.cfg).wantTcp = S.cfg.wantTcp ∧
      (Client.configured S.cfg).wantUdp = S.cfg.wantUdp := by
    obtain ⟨_, _, _, he, -⟩ := Client.configured_changes S.cfg
    rw [he]
    exact ⟨rfl, rfl⟩
  refine ⟨{ (Client.configured S.cfg).connectToKernel S.fd with keepRunning := true }, hw.2, ?_⟩
  unfold start prologue Client.live Client.beginRun Config.first
  dsimp only
  rw [show ((Client.configured S.cfg).connectToKernel S.fd).wantTcp = S.cfg.wantTcp from hw.1]
  cases S.cfg.wantTcp with
  | true => exact Client.enterStateRequestTcpSrc_subscribed hl
  | false => exact Client.enterStateRequestUdpSrc_subscribed hl

/-- where a run stands, by the first answer that it handled -/
structure Phase (S : Session) (answer : Option Bool) (c : Client) (effs : List Effect) : Prop where
  subscribing : c.Subscribing S.cfg
  subscriptions : S.version.subscriptions (S.prologue ++ effs) =
    (S.cfg.subscribesTo answer).map S.version.provider
  pending : answer = none → c.state = S.cfg.first.1
  answered : answer ≠ none → c.state = .requestUdpSrc ∨ c.state = .running

theorem start_phase (S : Session) : S.Phase none S.start [] := by
  obtain ⟨c0, hw, h⟩ := start_subscribed S
  refine ⟨⟨h.live, h.wantUdp.trans hw, ?_⟩, ?_, fun _ => h.state, fun hn => absurd rfl hn⟩
  · rw [show S.start.state = _ from h.state]
    unfold Config.first
    split
    · exact Or.inl rfl
    · exact Or.inr (Or.inl rfl)
  · rw [List.append_nil, show S.version.subscriptions S.prologue = _ from h.subscriptions]
    simp [Config.subscribesTo]

theorem phase_step {c' : Client} {st : Step} {effs' : List Effect} {answer : Option Bool}
    (hst : S.step c st = some (c', effs')) (h : S.Phase answer c effs) :
    S.Phase (answer.or st.answer) c' (effs ++ effs') := by
  obtain ⟨h1, h2, h3⟩ := step_subscription hst S.cfg h.subscribing
  dsimp only at h1 h2 h3
  have hsub : S.version.subscriptions (S.prologue ++ (effs ++ effs')) =
      (S.cfg.subscribesTo answer ++ (c.state.advance S.cfg.wantUdp st.answer).2).map
        S.version.provider := by
    rw [← List.append_assoc, subscriptions_append, h.subscriptions, h3, List.map_append]
  cases answer with
  | some ok =>
    -- after the first answer nothing is subscribed to
    have hs := h.answered (Option.some_ne_none ok)
    have hadv : (c.state.advance S.cfg.wantUdp st.answer).2 = [] ∧
        ((c.state.advance S.cfg.wantUdp st.answer).1 = .requestUdpSrc ∨
          (c.state.advance S.cfg.wantUdp st.answer).1 = .running) := by
      rcases hs with hs | hs <;> rw [hs] <;> cases st.answer
      · exact ⟨rfl, Or.inl rfl⟩
      · exact ⟨rfl, Or.inr rfl⟩
      · exact ⟨rfl, Or.inr rfl⟩
      · exact ⟨rfl, Or.inr rfl⟩
    rw [hadv.1, List.append_nil] at hsub
    exact ⟨h1, hsub, fun hn => absurd hn (Option.some_ne_none ok), fun _ => h2 ▸ hadv.2⟩
  | none =>
    have hs := h.pending rfl
    rw [Option.none_or]
    cases ha : st.answer with
    | none =>
      rw [ha] at h2 hsub
      refine ⟨h1, ?_, fun _ => h2.trans hs, fun hn => absurd rfl hn⟩
      rw [hsub]
      exact congrArg (List.map _) (List.append_nil _)
    | some ok =>
      -- the first answer
      rw [ha, hs] at h2 hsub
      have hadv : S.cfg.subscribesTo none ++
            (S.cfg.first.1.advance S.cfg.wantUdp (some ok)).2 = S.cfg.subscribesTo (some ok) ∧
          ((S.cfg.first.1.advance S.cfg.wantUdp (some ok)).1 = .requestUdpSrc ∨
            (S.cfg.first.1.advance S.cfg.wantUdp (some ok)).1 = .running) := by
        unfold Config.subscribesTo Config.first
        cases S.cfg.wantTcp <;> cases S.cfg.wantUdp <;> cases ok <;>
          simp [ClientState.advance]
      rw [hadv.1] at hsub
      exact ⟨h1, hsub, fun hn => absurd hn (Option.some_ne_none ok), fun _ => h2 ▸ hadv.2⟩

theorem run_phase (h : S.run steps = some (c, effs)) :
    S.Phase (steps.findSome? Step.answer) c effs := by
  refine exec_inv (P := fun steps c effs => S.Phase (steps.findSome? Step.answer) c effs)
    (start_phase S) ?_ h
  intro steps c1 e1 st c2 e2 _ hP hst
  rw [List.findSome?_append]
  have := phase_step hst hP
  cases ha : st.answer <;> simpa [ha] using this

/-- the running state is kept, and nothing is subscribed to in it -/
theorem running_kept {c' : Client} {post : List Step} {effs' : List Effect}
    (hc : c.Subscribing S.cfg) (hr : c.state = .running)
    (h : exec S.step c post = some (c', effs')) :
    c'.state = .running ∧ S.version.subscriptions effs' = [] := by
  have hinv : c'.Subscribing S.cfg ∧ c'.state = .running ∧
      S.version.subscriptions effs' = [] := by
    refine exec_inv (P := fun _ c' effs' => c'.Subscribing S.cfg ∧ c'.state = .running ∧
      S.version.subscriptions effs' = []) ⟨hc, hr, rfl⟩ ?_ h
    intro _ c1 e1 st c2 e2 _ hP hst
    obtain ⟨hc1, hr1, hs1⟩ := hP
    obtain ⟨h1, h2, h3⟩ := step_subscription hst S.cfg hc1
    dsimp only at h1 h2 h3
    have hadv : ∀ a, ClientState.running.advance S.cfg.wantUdp a = (.running, []) := by
      intro a
      cases a <;> rfl
    rw [hr1, hadv] at h2 h3
    refine ⟨h1, h2, ?_⟩
    rw [subscriptions_append, hs1, h3]
    rfl
  exact hinv.2

/-- **The subscription sequence.** -/
theorem subscription_sequence (h : S.run steps = some (c, effs)) :
    S.version.subscriptions (S.prologue ++ effs) =
      (S.cfg.subscribesTo (steps.findSome? Step.answer)).map S.version.provider ∧
    (∃ msg rest, enqueued (S.prologue ++ effs) = msg :: rest ∧
      S.version.subscription (Mem.ofList msg) = some (S.version.provider S.cfg.first.2)) ∧
    ∀ pre post c1 e1 e2, steps = pre ++ post → S.run pre = some (c1, e1) →
      exec S.step c1 post = some (c, e2) → c1.state = .running →
        c.state = .running ∧ S.version.subscriptions e2 = [] := by
  refine ⟨(run_phase h).subscriptions, ?_, ?_⟩
  · obtain ⟨_, -, hs⟩ := start_subscribed S
    obtain ⟨msg, he, hp⟩ := hs.effects
    refine ⟨msg, enqueued effs, ?_, hp⟩
    rw [show S.prologue = _ from he]
    rfl
  · intro pre post c1 e1 e2 _ h1 h2 hr
    exact running_kept (run_phase h1).subscribing hr h2

/-- a session that subscribes to both providers -/
def sessionBoth : Session := { session3789 with cfg := { wantUdp := true } }

/-- a SUCCESS, or an ERROR with a code, for the request with the context -/
def answerMsg (type : MsgType) (context : UInt64) (err : UInt32) : Mem :=
  ((Mem.poke (fun _ => 0) 0 8 context.toNat).poke 8 4 type.code.toNat).poke 16 4 err.toNat

/-- both subscriptions are answered -/
def bothAnswered : List Step :=
  [.sendNextMsg 1 24, .readNextMessage 1 1 (answerMsg .success 1 0) 16,
   .sendNextMsg 1 24, .readNextMessage 1 1 (answerMsg .success 2 0) 16]

theorem subscription_sequence_bothAnswered : ∃ c effs,
    sessionBoth.run bothAnswered = some (c, effs) ∧
    sessionBoth.cfg.subscribesTo (bothAnswered.findSome? Step.answer) = [.tcp, .udp] ∧
    sessionBoth.version.subscriptions (sessionBoth.prologue ++ effs) =
      (sessionBoth.cfg.subscribesTo (bothAnswered.findSome? Step.answer)).map
        sessionBoth.version.provider := by
  obtain ⟨⟨c, effs⟩, h⟩ := Option.isSome_iff_exists.mp
    (show (sessionBoth.run bothAnswered).isSome = true by decide)
  exact ⟨c, effs, h, by decide, (subscription_sequence h).1⟩

/-! ### the answers that advance it -/

theorem step_of_answer {H : NTStatKernelStructHandler} {st : Step} (h : st.answer.isSome) :
    ∃ c' effs', Ntstat.step H c st = some (c', effs') := by
  cases st with
  | readNextMessage now timestamp buf n =>
    unfold Ntstat.step Client.readNextMessage
    dsimp only
    unfold Step.answer answerOf at h
    split
    · exact ⟨_, _, rfl⟩
    · next hn =>
      simp only [if_neg hn] at h
      split at h
      · next ht => exact ⟨_, _, by rw [Client.handle_success ht, Option.map_some]⟩
      · next ht => exact ⟨_, _, by rw [Client.handle_error ht, Option.map_some]⟩
      · cases h
  | _ => cases h

theorem answers_of_answer {st : Step} (h : st.answer.isSome) : ∃ context, st.Answers context := by
  cases st with
  | readNextMessage now timestamp buf n =>
    unfold Step.answer at h
    dsimp only at h
    split at h
    · cases h
    · next hn => exact ⟨hdrContext buf, by omega, rfl⟩
  | _ => cases h

theorem answers_unique {st : Step} {x y : UInt64} (hx : st.Answers x) (hy : st.Answers y) :
    x = y := by
  cases st with
  | readNextMessage now timestamp buf n => exact hx.2.symm.trans hy.2
  | _ => exact hx.elim

/-- **The subscription advances on its own answers only, exactly if it gets no others.** -/
theorem advances_iff (S : Session) (steps : List Step) :
    S.AdvancesOnOwn steps ↔ S.AnsweredOwn steps := by
  constructor
  · intro h pre st post c effs context hat hr hans hctx
    obtain ⟨c', effs', hst⟩ := step_of_answer (H := S.handler) (c := c) hans
    have hsub := (run_phase hat.reached).subscribing
    obtain ⟨ok, hok⟩ := Option.isSome_iff_exists.mp hans
    have hstate := (step_subscription hst S.cfg hsub).2.1
    have hwait : c.state = .requestTcpSrc ∨ c.state = .requestUdpSrc :=
      (or_assoc.mpr hsub.state).resolve_right hr
    have hne : c'.state ≠ c.state := by
      rw [show c'.state = _ from hstate, hok]
      rcases hwait with hw | hw <;> rw [hw]
      · unfold ClientState.advance
        dsimp only
        split <;> decide
      · exact ClientState.noConfusion
    obtain ⟨h1, h2⟩ := h pre st post c effs c' effs' hat hst
    obtain ⟨-, context', hctx', hlast⟩ := h1 hwait hne
    obtain rfl := answers_unique hctx hctx'
    exact ⟨hlast, fun ho => hne (h2 context hctx ho)⟩
  · intro h pre st post c effs c' effs' hat hst
    have hsub := (run_phase hat.reached).subscribing
    have hstate : c'.state = (c.state.advance S.cfg.wantUdp st.answer).1 :=
      (step_subscription hst S.cfg hsub).2.1
    -- without an answer the state stays
    have hkeep : ¬ st.answer.isSome → c'.state = c.state := by
      intro hnone
      rw [hstate, Option.not_isSome_iff_eq_none.mp hnone]
      rfl
    constructor
    · intro hwait hne
      have hans : st.answer.isSome := by
        by_contra hn
        exact hne (hkeep hn)
      obtain ⟨context, hctx⟩ := answers_of_answer hans
      have hr : c.state ≠ .running := by
        rcases hwait with hw | hw <;> rw [hw] <;> decide
      exact ⟨hans, context, hctx, (h pre st post c effs context hat hr hans hctx).1⟩
    · intro context hctx ho
      by_cases hr : c.state = .running
      · rw [hstate, hr]
        cases st.answer <;> rfl
      · exact hkeep fun hans => (h pre st post c effs context hat hr hans hctx).2 ho

/-- the description of source 7 is requested before the subscription is answered -/
def describedEarly : List Step :=
  [.sendNextMsg 1 24, .readNextMessage 1 1 (structs3789.addedMsg 7 4) 28, .sendNextMsg 1 24]

/-- ENOENT, in answer to the second request -/
def otherAnswer : Step := .readNextMessage 2 2 (answerMsg .error 2 2) 24

theorem advances_on_otherAnswer :
    ¬ sessionBoth.AdvancesOnOwn (describedEarly ++ [otherAnswer]) := by
  have hrun : (sessionBoth.run describedEarly).map (fun x => (x.1.state,
      x.1.qmsgMap[(2 : UInt64)]?.map fun qm => hdrType (Mem.ofList qm.msgbytes),
      (sessionBoth.step x.1 otherAnswer).map fun y => y.1.state)) =
        some (.requestTcpSrc, some .getSrcDesc, some .running) := by decide
  intro h
  obtain ⟨⟨c, effs⟩, hr, he⟩ := Option.map_eq_some_iff.mp hrun
  simp only [Prod.mk.injEq] at he
  obtain ⟨hs, hq, hst⟩ := he
  obtain ⟨⟨c', effs'⟩, hstep, hs'⟩ := Option.map_eq_some_iff.mp hst
  have hctx : otherAnswer.Answers 2 := ⟨by decide, by decide⟩
  have hother : c.FindsOther 2 := by
    intro qm hqm
    rw [hqm] at hq
    exact Or.inl (Option.some.inj hq)
  have hkept := (h describedEarly otherAnswer [] c effs c' effs' ⟨rfl, hr⟩ hstep).2 2 hctx hother
  rw [hs, show c'.state = .running from hs'] at hkept
  cases hkept

end Session

end Ntstat
