import Ntstat.Client.Traffic
import Ntstat.Kernel.Events

/-!
# Requests on the wire

What an operation sends, and what the bytes of a request say in the layout of its version.

* `enqueued`, `written`   the requests that were passed to `send`, and those that went out;
* `request_form`          a request is one of three structs of the version;
* `request_hdrLength`     its header has its length;
* `srcrefIn`, `hdrType_srcDesc`, `srcrefIn_srcDesc` and their companions   type and reference of a
                          request that is about a source;
* `subscription`, `subscription_addAll` and its companions   the provider that a request subscribes
                          to.
-/

namespace Ntstat
open Memory KernelStructs

def Effect.enqueued : Effect → Option (List UInt8)
  | enqueue msgbytes => some msgbytes
  | _ => none

def Effect.written : Effect → Option (List UInt8)
  | socketWrite msgbytes => some msgbytes
  | _ => none

/-- the requests passed to `send`, in order -/
def enqueued (effs : List Effect) : List (List UInt8) := effs.filterMap Effect.enqueued

/-- the requests written to the socket, in order -/
def written (effs : List Effect) : List (List UInt8) := effs.filterMap Effect.written

@[simp] theorem enqueued_append (e e' : List Effect) :
    enqueued (e ++ e') = enqueued e ++ enqueued e' := List.filterMap_append

@[simp] theorem written_append (e e' : List Effect) :
    written (e ++ e') = written e ++ written e' := List.filterMap_append

theorem mem_enqueued {effs : List Effect} {msg : List UInt8} :
    msg ∈ enqueued effs ↔ .enqueue msg ∈ effs := by
  unfold enqueued
  rw [List.mem_filterMap]
  constructor
  · intro hex
    obtain ⟨e, he, hm⟩ := hex
    cases e with
    | enqueue msg' =>
      obtain rfl := Option.some.inj hm
      exact he
    | _ => cases hm
  · exact fun h => ⟨_, h, rfl⟩

theorem quiet_of_notify {effs : List Effect} (h : ∀ e ∈ effs, e.isNotify = true) :
    enqueued effs = [] ∧ written effs = [] := by
  constructor
  · refine List.filterMap_eq_nil_iff.mpr fun e he => ?_
    have := h e he
    cases e <;> simp_all [Effect.isNotify, Effect.enqueued]
  · refine List.filterMap_eq_nil_iff.mpr fun e he => ?_
    have := h e he
    cases e <;> simp_all [Effect.isNotify, Effect.written]

theorem Client.quiet_record_effects (c : Client) (timestamp : UInt32) (data : List UInt8) :
    enqueued (c.record timestamp data) = [] ∧ written (c.record timestamp data) = [] := by
  unfold Client.record
  split <;> exact ⟨rfl, rfl⟩

def hdrLength (m : Mem) : UInt16 := u16 m (nstatMsgHdr.offsetOf .length)

/-- the types of the requests -/
def requestTypes : List MsgType := [.addAllSrcs, .getSrcDesc, .querySrc]

theorem KernelVersion.request_sizes (v : KernelVersion) :
    ∀ s ∈ [v.structs.addAllSrcs, v.structs.getSrcDescription, v.structs.querySrc],
      16 ≤ s.sizeOf ∧ s.sizeOf ≤ 2048 := by
  cases v <;> simp only [List.forall_mem_cons, List.not_mem_nil, false_implies, implies_true,
    and_true] <;> decide

/-- a request is a struct of the version -/
theorem request_form {v : KernelVersion} {context : UInt64} {msg : List UInt8}
    (h : Request v.handler context msg) :
    ∃ s ∈ [v.structs.addAllSrcs, v.structs.getSrcDescription, v.structs.querySrc],
      ∃ t ∈ requestTypes, ∃ vals, msg = KernelStructs.request s t context vals := by
  have mem0 : ∀ {α} (a b c : α), a ∈ [a, b, c] := by simp
  have mem1 : ∀ {α} (a b c : α), b ∈ [a, b, c] := by simp
  have mem2 : ∀ {α} (a b c : α), c ∈ [a, b, c] := by simp
  cases h with
  | addAllTcp => cases v <;> exact ⟨_, mem0 _ _ _, .addAllSrcs, mem0 _ _ _, _, rfl⟩
  | addAllUdp => cases v <;> exact ⟨_, mem0 _ _ _, .addAllSrcs, mem0 _ _ _, _, rfl⟩
  | srcDesc p r => cases v <;> exact ⟨_, mem1 _ _ _, .getSrcDesc, mem1 _ _ _, _, rfl⟩
  | querySrc r => cases v <;> exact ⟨_, mem2 _ _ _, .querySrc, mem2 _ _ _, _, rfl⟩

section
variable {v : KernelVersion} {context : UInt64} {msg : List UInt8}

/-- **The header of a request has its length.** -/
theorem request_hdrLength (h : Request v.handler context msg) :
    (hdrLength (Mem.ofList msg)).toNat = msg.length := by
  obtain ⟨s, hs, t, -, vals, rfl⟩ := request_form h
  obtain ⟨hh, h0⟩ := v.request_hdr s hs
  have hsize : s.sizeOf < 65536 := by
    have := (v.request_sizes s hs).2
    omega
  have hread : readLE (Mem.ofList (request s t context vals)) (nstatMsgHdr.offsetOf .length) 2
      = s.sizeOf % 256 ^ 2 := by
    refine readLE_byteOf fun i hi => ?_
    have hoff : nstatMsgHdr.offsetOf .length = 12 := by decide
    rw [request_byte hh h0 t context vals (by omega), hdrImage,
      nstatMsgHdr.image_at (show nstatMsgHdr.Has .length 2 by decide) _ _ hi]
  rw [request_length, hdrLength, u16, hread, UInt16.toNat_ofNat',
    Nat.mod_eq_of_lt (show s.sizeOf < 256 ^ 2 from hsize), Nat.mod_eq_of_lt hsize]

end

/-! ## what a request is about -/

namespace KernelVersion
variable (v : KernelVersion)

/-- the reference in a GET_SRC_DESC or QUERY_SRC -/
def srcrefIn (msg : Mem) : UInt64 :=
  match hdrType msg with
  | .getSrcDesc => v.structs.readSrcref v.structs.getSrcDescription msg
  | _ => v.structs.readSrcref v.structs.querySrc msg

/-- the provider in an ADD_ALL_SRCS -/
def subscription (msg : Mem) : Option UInt32 :=
  match hdrType msg with
  | .addAllSrcs => some (readProvider v.structs.addAllSrcs msg)
  | _ => none

theorem writeSrcDesc_eq (context providerId srcRef : UInt64) :
    v.handler.writeSrcDesc context providerId srcRef =
      request v.structs.getSrcDescription .getSrcDesc context (srcrefVals srcRef) := by
  cases v <;> rfl

theorem writeQuerySrc_eq (context srcRef : UInt64) :
    v.handler.writeQuerySrc context srcRef =
      request v.structs.querySrc .querySrc context (srcrefVals srcRef) := by
  cases v <;> rfl

/-- the provider that the version subscribes to -/
theorem writeAddAllSrc_eq (context : UInt64) :
    v.handler.writeAddAllTcpSrc context =
      request v.structs.addAllSrcs .addAllSrcs context (providerVals (v.provider .tcp)) ∧
    v.handler.writeAddAllUdpSrc context =
      request v.structs.addAllSrcs .addAllSrcs context (providerVals (v.provider .udp)) := by
  cases v <;> exact ⟨rfl, rfl⟩

/-- the reference in a request struct stands behind the header -/
theorem request_srcref_has : ∀ s ∈ [v.structs.getSrcDescription, v.structs.querySrc],
    s.Has .srcref v.structs.srcRefSize := by
  cases v <;> simp only [List.forall_mem_cons, List.not_mem_nil, false_implies, implies_true,
    and_true] <;> decide

/-- a reference that fits the version's references is read back -/
theorem readSrcref_request {s : CStruct MsgMember}
    (hs : s ∈ [v.structs.getSrcDescription, v.structs.querySrc]) (t : MsgType)
    (context : UInt64) {srcRef : UInt64} (hr : srcRef.toNat < 256 ^ v.structs.srcRefSize) :
    v.structs.readSrcref s (Mem.ofList (request s t context (srcrefVals srcRef))) = srcRef := by
  have hhas := v.request_srcref_has s hs
  have hbytes : ∀ i < v.structs.srcRefSize,
      Mem.ofList (request s t context (srcrefVals srcRef)) (s.offsetOf .srcref + i) =
        byteOf srcRef.toNat i := by
    intro i hi
    have hend := s.has_end hhas
    rw [request, Mem.ofList_take _ (by omega)]
    exact s.image_at hhas _ _ hi
  rw [readSrcref, readLE_byteOf hbytes, Nat.mod_eq_of_lt hr, UInt64.ofNat_toNat]

/-- the provider of a subscription is read back -/
theorem readProvider_request (t : MsgType) (context : UInt64) (providerId : UInt32) :
    readProvider v.structs.addAllSrcs (Mem.ofList (request v.structs.addAllSrcs t context
      (providerVals providerId))) = providerId := by
  have hhas : v.structs.addAllSrcs.Has .provider 4 := by
    cases v <;> decide
  refine u32_byteOf fun i hi => ?_
  have hend := v.structs.addAllSrcs.has_end hhas
  rw [request, Mem.ofList_take _ (by omega)]
  exact v.structs.addAllSrcs.image_at hhas _ _ hi

variable (context : UInt64) {srcRef : UInt64}

theorem hdrType_srcDesc (providerId srcRef : UInt64) :
    hdrType (Mem.ofList (v.handler.writeSrcDesc context providerId srcRef)) = .getSrcDesc := by
  obtain ⟨-, ⟨d1, d2⟩, -⟩ := List.forall_mem_cons.mp v.request_hdr |>.imp_right
    fun h => List.forall_mem_cons.mp h
  rw [writeSrcDesc_eq]
  exact request_type d1 d2 _ _ _

theorem hdrType_querySrc (srcRef : UInt64) :
    hdrType (Mem.ofList (v.handler.writeQuerySrc context srcRef)) = .querySrc := by
  obtain ⟨-, -, ⟨q1, q2⟩, -⟩ := List.forall_mem_cons.mp v.request_hdr |>.imp_right
    fun h => List.forall_mem_cons.mp h |>.imp_right fun h => List.forall_mem_cons.mp h
  rw [writeQuerySrc_eq]
  exact request_type q1 q2 _ _ _

theorem hdrType_addAll :
    hdrType (Mem.ofList (v.handler.writeAddAllTcpSrc context)) = .addAllSrcs ∧
    hdrType (Mem.ofList (v.handler.writeAddAllUdpSrc context)) = .addAllSrcs := by
  obtain ⟨⟨a1, a2⟩, -⟩ := List.forall_mem_cons.mp v.request_hdr
  rw [(v.writeAddAllSrc_eq context).1, (v.writeAddAllSrc_eq context).2]
  exact ⟨request_type a1 a2 _ _ _, request_type a1 a2 _ _ _⟩

theorem subscribes_type {msg : List UInt8} (h : Client.Subscribes v.handler msg) :
    hdrType (Mem.ofList msg) = .addAllSrcs := by
  obtain ⟨context, h⟩ := h
  obtain ⟨h1, h2⟩ := v.hdrType_addAll context
  rcases h with rfl | rfl
  · exact h1
  · exact h2

theorem subscription_addAll :
    v.subscription (Mem.ofList (v.handler.writeAddAllTcpSrc context)) = some (v.provider .tcp) ∧
    v.subscription (Mem.ofList (v.handler.writeAddAllUdpSrc context)) = some (v.provider .udp) := by
  unfold subscription
  rw [(v.hdrType_addAll context).1, (v.hdrType_addAll context).2, (v.writeAddAllSrc_eq context).1,
    (v.writeAddAllSrc_eq context).2]
  constructor
  · exact congrArg some (v.readProvider_request _ _ _)
  · exact congrArg some (v.readProvider_request _ _ _)

theorem subscription_srcDesc (providerId srcRef : UInt64) :
    v.subscription (Mem.ofList (v.handler.writeSrcDesc context providerId srcRef)) = none := by
  rw [subscription, hdrType_srcDesc]

theorem subscription_querySrc (srcRef : UInt64) :
    v.subscription (Mem.ofList (v.handler.writeQuerySrc context srcRef)) = none := by
  rw [subscription, hdrType_querySrc]

theorem srcrefIn_srcDesc (providerId : UInt64) (hr : srcRef.toNat < 256 ^ v.structs.srcRefSize) :
    v.srcrefIn (Mem.ofList (v.handler.writeSrcDesc context providerId srcRef)) = srcRef := by
  rw [srcrefIn, hdrType_srcDesc, writeSrcDesc_eq]
  exact v.readSrcref_request (by simp) _ _ hr

theorem srcrefIn_querySrc (hr : srcRef.toNat < 256 ^ v.structs.srcRefSize) :
    v.srcrefIn (Mem.ofList (v.handler.writeQuerySrc context srcRef)) = srcRef := by
  rw [srcrefIn, hdrType_querySrc, writeQuerySrc_eq]
  exact v.readSrcref_request (by simp) _ _ hr

end KernelVersion

end Ntstat
