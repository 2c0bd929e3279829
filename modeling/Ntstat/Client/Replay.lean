import Ntstat.Machine.Exec
import Ntstat.Client.Handle

/-!
# Replay of a record file

`runRecording` reads what `RECORD` wrote and hands it to the message handler of the live client.
Its loop is split here: `records` is the reading, `replayRecord` what happens to each entry.  A read
of the file is complete or stands at its end.

* `records_bytes`   the entries of a file are the records that were written to it.
-/

namespace Ntstat
open Memory Machine Std

/-! ## the file -/

/-- an entry of a record file -/
structure Record where
  timestamp : UInt32
  data : List UInt8
deriving DecidableEq

/-- what `RECORD` wrote for it -/
def Record.bytes (r : Record) : List UInt8 := Client.recordBytes r.timestamp r.data

/-- the next entry and the rest of the file; the loop ends where there is none -/
def readRecord (file : List UInt8) : Option (Record × List UInt8) :=
  let msgTimestamp := u32 (Mem.ofList file) 0
  let msgLength := (u32 (Mem.ofList (file.drop 4)) 0).toNat
  -- end of file, or an invalid replay header
  if file.length < 4 then none
  else if (file.drop 4).length < 4 then none
  -- sanity check
  else if msgLength < nstatMsgHdr.sizeOf ∨ 2048 < msgLength then none
  -- partial msg in recording
  else if (file.drop 8).length < msgLength then none
  else some (⟨msgTimestamp, (file.drop 8).take msgLength⟩, (file.drop 8).drop msgLength)

/-- at most `k` entries -/
def readRecords : Nat → List UInt8 → List Record
  | 0, _ => []
  | k + 1, file =>
    match readRecord file with
    | none => []
    | some (r, rest) => r :: readRecords k rest

/-- all entries: no entry is empty -/
def records (file : List UInt8) : List Record := readRecords file.length file

/-- the length is one that `runRecording` accepts -/
def Record.Valid (r : Record) : Prop := nstatMsgHdr.sizeOf ≤ r.data.length ∧ r.data.length ≤ 2048

theorem ofList_append (l l' : List UInt8) {i : Nat} (hi : i < l.length) :
    Mem.ofList (l ++ l') i = Mem.ofList l i := by
  simp [Mem.ofList, List.getElem?_append_left hi]

theorem u32_written (v : UInt32) (rest : List UInt8) :
    u32 (Mem.ofList (Mem.take (byteOf v.toNat) 4 ++ rest)) 0 = v := by
  refine u32_byteOf fun i hi => ?_
  rw [Nat.zero_add, ofList_append _ _ (by simpa using hi), Mem.ofList_take _ hi]

theorem Record.bytes_length (r : Record) : r.bytes.length = 8 + r.data.length := by
  unfold bytes Client.recordBytes
  rw [List.length_append, List.length_append, Mem.take_length, Mem.take_length]

/-- timestamp, length, data, in this order -/
theorem Record.bytes_append (r : Record) (rest : List UInt8) : r.bytes ++ rest =
    Mem.take (byteOf r.timestamp.toNat) 4 ++
      (Mem.take (byteOf r.data.length) 4 ++ (r.data ++ rest)) := by
  simp [Record.bytes, Client.recordBytes]

theorem Record.drop_bytes (r : Record) (rest : List UInt8) : (r.bytes ++ rest).drop 4 =
    Mem.take (byteOf r.data.length) 4 ++ (r.data ++ rest) := by
  rw [r.bytes_append]
  exact List.drop_left' (by simp)

/-- the length that is read is the length that was written -/
theorem Record.length_read {r : Record} (hr : r.Valid) (rest : List UInt8) :
    (u32 (Mem.ofList ((r.bytes ++ rest).drop 4)) 0).toNat = r.data.length := by
  obtain ⟨-, h2⟩ := hr
  have hn : (UInt32.ofNat r.data.length).toNat = r.data.length := by
    rw [UInt32.toNat_ofNat']
    exact Nat.mod_eq_of_lt (by omega)
  rw [r.drop_bytes, ← hn, u32_written, hn]

/-- an entry is read back -/
theorem readRecord_bytes {r : Record} (hr : r.Valid) (rest : List UInt8) :
    readRecord (r.bytes ++ rest) = some (r, rest) := by
  have hmsg := Record.length_read hr rest
  obtain ⟨h1, h2⟩ := hr
  have hlen := r.bytes_length
  have e3 : (r.bytes ++ rest).drop 8 = r.data ++ rest := by
    rw [show 8 = 4 + 4 from rfl, ← List.drop_drop, r.drop_bytes]
    exact List.drop_left' (by simp)
  have hts : u32 (Mem.ofList (r.bytes ++ rest)) 0 = r.timestamp := by
    rw [r.bytes_append, u32_written]
  have hfile : (r.bytes ++ rest).length = 8 + r.data.length + rest.length := by
    rw [List.length_append, hlen]
  unfold readRecord
  dsimp only
  rw [hmsg, hts, e3, if_neg (by omega), if_neg (by rw [List.length_drop]; omega),
    if_neg (by omega), if_neg (by rw [List.length_append]; omega), List.take_left' rfl,
    List.drop_left' rfl]

/-- **The entries of a file are the records that were written to it.** -/
theorem records_bytes {rs : List Record} (h : ∀ r ∈ rs, r.Valid) :
    records (rs.flatMap Record.bytes) = rs := by
  have key : ∀ k, (rs.flatMap Record.bytes).length ≤ k →
      readRecords k (rs.flatMap Record.bytes) = rs := by
    induction rs with
    | nil =>
      intro k _
      cases k <;> rfl
    | cons r rs ih =>
      intro k hk
      rw [List.flatMap_cons, List.length_append, r.bytes_length] at hk
      cases k with
      | zero => omega
      | succ k =>
        rw [List.flatMap_cons, readRecords, readRecord_bytes (h r List.mem_cons_self)]
        dsimp only
        rw [ih (fun x hx => h x (List.mem_cons_of_mem _ hx)) k (by omega)]
  exact key _ le_rfl

/-! ## the loop -/

/-- what a replay reads besides the file -/
structure ReplayEnv where
  /-- the clock while each message is handled -/
  clock : Nat → Time
  /-- the memory behind the vector that holds each message -/
  behind : Nat → Mem

/-- `vec.data()` -/
def vecData (vec : List UInt8) (behind : Mem) : Mem := fun i => vec.getD i (behind (i - vec.length))

/-- one entry: a request is filed, anything else is handled like an incoming message; the state is
`replayMsgCount` and the client -/
def replayRecord (H : NTStatKernelStructHandler) (env : ReplayEnv) :
    Nat × Client → Record → Option ((Nat × Client) × List Effect)
  | (replayMsgCount, c), r =>
    let hdr := vecData r.data (env.behind replayMsgCount)
    let c :=
      if replayMsgCount = 0 ∧ hdrType hdr = .addAllSrcs then { c with state := .start } else c
    match hdrType hdr with
    | .addSrc | .querySrc | .getSrcDesc | .addAllSrcs | .remSrc =>
      let qmsg : QMsg := { seqnum := hdrContext hdr, msgbytes := r.data }
      some ((replayMsgCount + 1, { c with qmsgMap := c.qmsgMap.insert (hdrContext hdr) qmsg }), [])
    | _ =>
      (c.handleResponseMessage H (env.clock replayMsgCount) hdr r.data.length).map fun x =>
        ((replayMsgCount + 1, x.2.1), x.2.2)

/-- `runRecording`, `fd` the result of `open` and `H` the handler of the given version -/
def Client.runRecording (H : NTStatKernelStructHandler) (env : ReplayEnv) (c : Client) (fd : Int)
    (file : List UInt8) : Option (Client × List Effect) :=
  if fd ≤ 0 then some ({ c with recordFd := fd }, []) else
    (exec (replayRecord H env) (0, { c with recordFd := fd, state := .running }) (records file)).map
      fun x => (x.1.2, x.2)

end Ntstat
