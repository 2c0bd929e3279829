import Ntstat.Client.Replay

/-!
# A record file that was cut off

The file of a recording is what `RECORD` wrote, or, when the writer was stopped, the first bytes
of it.

* `Reads`, `reads_records`   the loop of `runRecording` ends on every file;
* `readRecord_cut`           a record that was cut off is not read, wherever the cut is;
* `processMessage`           what is done with a message of the file;
* `runRecording_prefix`      exactly the messages that lie wholly in the file are processed.
-/

namespace Ntstat
open Memory Machine Std

/-! ## the loop ends -/

/-- the loop reads these entries and then stops -/
inductive Reads : List UInt8 → List Record → Prop
  | stop {file} (h : readRecord file = none) : Reads file []
  | next {file r rest rs} (h : readRecord file = some (r, rest)) (hr : Reads rest rs) :
      Reads file (r :: rs)

/-- an entry takes at least its header of the file -/
theorem readRecord_shorter {file rest : List UInt8} {r : Record}
    (h : readRecord file = some (r, rest)) : rest.length + 8 ≤ file.length := by
  unfold readRecord at h
  dsimp only at h
  by_cases h4 : file.length < 4
  · rw [if_pos h4] at h
    cases h
  · rw [if_neg h4] at h
    by_cases h8 : (file.drop 4).length < 4
    · rw [if_pos h8] at h
      cases h
    · rw [if_neg h8] at h
      rw [List.length_drop] at h8
      split at h
      · cases h
      · split at h
        · cases h
        · obtain ⟨-, rfl⟩ := Prod.mk.inj (Option.some.inj h)
          rw [List.length_drop, List.length_drop]
          omega

theorem reads_readRecords {k : Nat} {file : List UInt8} (hk : file.length ≤ k) :
    Reads file (readRecords k file) := by
  induction k generalizing file with
  | zero =>
    obtain rfl := List.length_eq_zero_iff.mp (Nat.le_zero.mp hk)
    exact .stop rfl
  | succ k ih =>
    rw [readRecords]
    cases h : readRecord file with
    | none => exact .stop h
    | some x =>
      obtain ⟨r, rest⟩ := x
      have hlt := readRecord_shorter h
      exact .next h (ih (by omega))

/-- **The loop ends on every file.** -/
theorem reads_records (file : List UInt8) : Reads file (records file) :=
  reads_readRecords le_rfl

theorem Reads.unique {file : List UInt8} {rs rs' : List Record} (h : Reads file rs)
    (h' : Reads file rs') : rs = rs' := by
  induction h generalizing rs' with
  | stop h =>
    cases h' with
    | stop h' => rfl
    | next h' _ => cases h.symm.trans h'
  | next h _ ih =>
    cases h' with
    | stop h' => cases h.symm.trans h'
    | next h' hr' =>
      obtain ⟨rfl, rfl⟩ := Prod.mk.inj (Option.some.inj (h.symm.trans h'))
      rw [ih hr']

/-! ## cut records -/

/-- **A record that was cut off is not read**: the timestamp, the length or the data are
incomplete. -/
theorem readRecord_cut {r : Record} (hr : r.Valid) {k : Nat} (hk : k < r.bytes.length) :
    readRecord (r.bytes.take k) = none := by
  have hlen := r.bytes_length
  have hcut : (r.bytes.take k).length = k := by
    rw [List.length_take]
    omega
  unfold readRecord
  dsimp only
  by_cases h4 : k < 4
  · rw [if_pos (by omega)]
  · rw [if_neg (by omega)]
    by_cases h8 : k < 8
    · rw [if_pos (by rw [List.length_drop]; omega)]
    · rw [if_neg (by rw [List.length_drop]; omega)]
      -- the length is read as it was written, but so many bytes do not follow
      have hmsg : (u32 (Mem.ofList ((r.bytes.take k).drop 4)) 0).toNat = r.data.length := by
        rw [← Record.length_read hr [], List.append_nil]
        refine congrArg UInt32.toNat (u32_agree (n := 4) (fun i hi => ?_) le_rfl)
        simp only [Mem.ofList, List.drop_take, List.getD_eq_getElem?_getD]
        rw [List.getElem?_take_of_lt (by omega)]
      rw [hmsg]
      split
      · rfl
      · rw [if_pos (by rw [List.length_drop]; omega)]

/-- of what was written, the first `n` records are read -/
theorem reads_cut {rs : List Record} (h : ∀ r ∈ rs, r.Valid) (k : Nat) : ∃ n ≤ rs.length,
    (∀ i < rs.length, i < n ↔ ((rs.take (i + 1)).flatMap Record.bytes).length ≤ k) ∧
      Reads ((rs.flatMap Record.bytes).take k) (rs.take n) := by
  induction rs generalizing k with
  | nil =>
    refine ⟨0, le_rfl, fun i hi => absurd hi (Nat.not_lt_zero i), ?_⟩
    rw [List.flatMap_nil, List.take_nil]
    exact .stop rfl
  | cons r rs ih =>
    have hr := h r List.mem_cons_self
    have hfirst : ∀ i, (((r :: rs).take (i + 1)).flatMap Record.bytes).length =
        r.bytes.length + ((rs.take i).flatMap Record.bytes).length := by
      intro i
      rw [List.take_succ_cons, List.flatMap_cons, List.length_append]
    rw [List.flatMap_cons]
    by_cases hk : r.bytes.length ≤ k
    · -- the first record is whole
      obtain ⟨n, hn, hin, hreads⟩ :=
        ih (fun x hx => h x (List.mem_cons_of_mem _ hx)) (k - r.bytes.length)
      have htake : (r.bytes ++ rs.flatMap Record.bytes).take k =
          r.bytes ++ (rs.flatMap Record.bytes).take (k - r.bytes.length) := by
        rw [List.take_append, List.take_of_length_le hk]
      refine ⟨n + 1, Nat.succ_le_succ hn, fun i hi => ?_, ?_⟩
      · rw [hfirst]
        cases i with
        | zero =>
          rw [List.take_zero, List.flatMap_nil, List.length_nil]
          omega
        | succ i =>
          have := hin i (Nat.lt_of_succ_lt_succ hi)
          omega
      · rw [htake, List.take_succ_cons]
        exact .next (readRecord_bytes hr _) hreads
    · -- the cut is in the first record
      refine ⟨0, Nat.zero_le _, fun i hi => ?_, ?_⟩
      · rw [hfirst]
        omega
      · rw [List.take_append_of_le_length (by omega), List.take_zero]
        exact .stop (readRecord_cut hr (by omega))

/-! ## what is done with a message -/

/-- the type lies in the range of the requests -/
def IsRequest (m : Mem) : Prop :=
  1001 ≤ u32 m (nstatMsgHdr.offsetOf .type) ∧ u32 m (nstatMsgHdr.offsetOf .type) ≤ 1005

instance (m : Mem) : Decidable (IsRequest m) := inferInstanceAs (Decidable (_ ∧ _))

/-- a recording that begins with a subscription begins a session -/
def Client.firstReplayed (c : Client) (k : Nat) (msg : Mem) : Client :=
  if k = 0 ∧ hdrType msg = .addAllSrcs then { c with state := .start } else c

/-- the `k`-th message: a request is stored under its context, any other message is handled with
its recorded length -/
def processMessage (H : NTStatKernelStructHandler) (env : ReplayEnv) :
    Nat × Client → List UInt8 → Option ((Nat × Client) × List Effect)
  | (k, c), data =>
    let msg := vecData data (env.behind k)
    let c := c.firstReplayed k msg
    if IsRequest msg then
      let qmsg : QMsg := { seqnum := hdrContext msg, msgbytes := data }
      some ((k + 1, { c with qmsgMap := c.qmsgMap.insert (hdrContext msg) qmsg }), [])
    else (c.handleResponseMessage H (env.clock k) msg data.length).map fun x =>
      ((k + 1, x.2.1), x.2.2)

theorem isRequest_iff (m : Mem) :
    IsRequest m ↔ hdrType m ∈ [MsgType.addSrc, .addAllSrcs, .remSrc, .querySrc, .getSrcDesc] := by
  unfold IsRequest hdrType
  generalize u32 m (nstatMsgHdr.offsetOf .type) = code
  constructor
  · intro hcode
    obtain ⟨h1, h2⟩ := hcode
    have hn : code = 1001 ∨ code = 1002 ∨ code = 1003 ∨ code = 1004 ∨ code = 1005 := by grind
    rcases hn with rfl | rfl | rfl | rfl | rfl <;> decide
  · intro hm
    have hne : MsgType.ofCode code ≠ .unknown := by
      intro hu
      rw [hu] at hm
      exact absurd hm (by decide)
    rw [← MsgType.code_ofCode hne]
    generalize MsgType.ofCode code = t at hm
    cases t <;> first | decide | exact absurd hm (by decide)

theorem replayRecord_eq (H : NTStatKernelStructHandler) (env : ReplayEnv) (s : Nat × Client)
    (r : Record) : replayRecord H env s r = processMessage H env s r.data := by
  obtain ⟨k, c⟩ := s
  unfold replayRecord processMessage Client.firstReplayed
  dsimp only
  have hreq := isRequest_iff (vecData r.data (env.behind k))
  cases ht : hdrType (vecData r.data (env.behind k)) <;> rw [ht] at hreq
  case addSrc | addAllSrcs | remSrc | querySrc | getSrcDesc => rw [if_pos (hreq.mpr (by decide))]
  all_goals rw [if_neg fun h => absurd (hreq.mp h) (by decide)]

theorem exec_replayRecord (H : NTStatKernelStructHandler) (env : ReplayEnv) (s : Nat × Client)
    (rs : List Record) :
    exec (replayRecord H env) s rs = exec (processMessage H env) s (rs.map Record.data) := by
  induction rs generalizing s with
  | nil => rfl
  | cons r rs ih =>
    rw [List.map_cons]
    simp only [exec, replayRecord_eq, ih]

/-- **Of a file that was cut off, exactly the messages that lie wholly in it are processed, in
order and byte for byte.** -/
theorem runRecording_prefix (H : NTStatKernelStructHandler) (env : ReplayEnv) (c : Client)
    {fd : Int} (hfd : 0 < fd) {rs : List Record} (h : ∀ r ∈ rs, r.Valid) (k : Nat) :
    ∃ n ≤ rs.length,
      (∀ i < rs.length, i < n ↔ ((rs.take (i + 1)).flatMap Record.bytes).length ≤ k) ∧
      Reads ((rs.flatMap Record.bytes).take k) (rs.take n) ∧
      c.runRecording H env fd ((rs.flatMap Record.bytes).take k) =
        (exec (processMessage H env) (0, { c with recordFd := fd, state := .running })
          ((rs.take n).map Record.data)).map fun x => (x.1.2, x.2) := by
  obtain ⟨n, hn, hin, hreads⟩ := reads_cut h k
  refine ⟨n, hn, hin, hreads, ?_⟩
  unfold Client.runRecording
  rw [if_neg (Int.not_le.mpr hfd), (reads_records _).unique hreads, exec_replayRecord]

/-- an answer and a request, both no more than a header -/
def recordedPair : List Record :=
  [⟨1, (hdrImage 5 0 16 0).take 16⟩, ⟨2, (hdrImage 6 1002 16 0).take 16⟩]

/-- the cut is in the data of the second record -/
theorem runRecording_prefix_pair : (∀ r ∈ recordedPair, r.Valid) ∧
    Reads ((recordedPair.flatMap Record.bytes).take 40) (recordedPair.take 1) ∧
    ({} : Client).runRecording KernelVersion.xnu3789.handler ⟨fun _ => 1, fun _ _ => 0⟩ 5
        ((recordedPair.flatMap Record.bytes).take 40) =
      (exec (processMessage KernelVersion.xnu3789.handler ⟨fun _ => 1, fun _ _ => 0⟩)
        (0, { recordFd := 5, state := .running }) ((recordedPair.take 1).map Record.data)).map
          fun x => (x.1.2, x.2) := by
  have hvalid : ∀ r ∈ recordedPair, r.Valid := by
    intro r hr
    rcases List.mem_pair.mp hr with rfl | rfl
    · exact ⟨by decide, by decide⟩
    · exact ⟨by decide, by decide⟩
  obtain ⟨n, hn, hin, hreads, hrun⟩ := runRecording_prefix KernelVersion.xnu3789.handler
    ⟨fun _ => 1, fun _ _ => 0⟩ {} (show (0 : Int) < 5 by decide) hvalid 40
  have h0 := (hin 0 (by decide)).mpr (by decide)
  have h1 := mt (hin 1 (by decide)).mp (by decide)
  obtain rfl : n = 1 := by omega
  exact ⟨hvalid, hreads, hrun⟩

end Ntstat
