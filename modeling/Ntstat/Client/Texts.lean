import Ntstat.Text.Scan
import Ntstat.Client.Wire

/-!
# The texts of the client

* `getXnuVersion`       the kernel version, from what `uname` gives;
* `handler_detected`    so which struct handler a session loads;
* `recordingName`       the name of a record file, and `recording_named` which of them the replay
                        tool takes under the version in their name;
* `sprintMsg`           the line that the log gives a message, and `sprintMsg_tells` what can be
                        read off it.
-/

namespace Ntstat
open Memory Text

/-! ## the kernel version -/

/-- `getXnuVersion`, `version` what `uname` puts in that field -/
def getXnuVersion (version : List Char) : UInt32 :=
  match strstr "xnu-".toList version with
  | none => 2000
  | some p => UInt32.ofInt (atol (p.drop 4))

/-- the first `xnu-` of the text is followed by `n` and no further digit -/
def NamesVersion (version : List Char) (n : Nat) : Prop :=
  ∃ pre rest, version = pre ++ ("xnu-".toList ++ (decimal n ++ rest)) ∧ Ends rest ∧
    ∀ k < pre.length, ¬ "xnu-".toList <+: version.drop k

theorem getXnuVersion_none {version : List Char} (h : ¬ "xnu-".toList <:+: version) :
    getXnuVersion version = 2000 := by
  unfold getXnuVersion
  rw [strstr_eq_none.mpr h]

theorem ofInt_toNat {n : Nat} (hn : n < 2 ^ 32) : (UInt32.ofInt (n : Int)).toNat = n := by
  unfold UInt32.ofInt
  rw [UInt32.toNat_ofNat']
  omega

theorem getXnuVersion_named {version : List Char} {n : Nat} (h : NamesVersion version n)
    (hn : n < 2 ^ 32) : (getXnuVersion version).toNat = n := by
  obtain ⟨pre, rest, he, hrest, hfirst⟩ := h
  have hfound : strstr "xnu-".toList version = some ("xnu-".toList ++ (decimal n ++ rest)) :=
    strstr_eq_some.mpr ⟨pre, he, List.prefix_append _ _, hfirst⟩
  unfold getXnuVersion
  rw [hfound]
  show (UInt32.ofInt (atol (decimal n ++ rest))).toNat = n
  rw [atol_decimal (by omega) hrest]
  exact ofInt_toNat hn

/-- the versions of the kernel that a handler is loaded for: above the first number, up to the
second -/
def KernelVersion.loadedFor : KernelVersion → Nat × Option Nat
  | xnu2422 => (0, some 2700)
  | xnu2782 => (2700, some 3200)
  | xnu3248 => (3200, some 3300)
  | xnu3789 => (3300, some 3800)
  | xnu4570 => (3800, none)

/-- the handler is loaded for version `n` -/
def KernelVersion.LoadedFor (v : KernelVersion) (n : Nat) : Prop :=
  (v = xnu2422 ∨ v.loadedFor.1 < n) ∧ ∀ m ∈ v.loadedFor.2, n ≤ m

theorem loadStructHandler_iff (xnuVersion : UInt32) (v : KernelVersion) :
    loadStructHandler xnuVersion = v ↔ v.LoadedFor xnuVersion.toNat := by
  unfold loadStructHandler
  simp only [GT.gt, UInt32.lt_iff_toNat_lt]
  generalize xnuVersion.toNat = n
  have h1 : (3800 : UInt32).toNat = 3800 := rfl
  have h2 : (3300 : UInt32).toNat = 3300 := rfl
  have h3 : (3200 : UInt32).toNat = 3200 := rfl
  have h4 : (2700 : UInt32).toNat = 2700 := rfl
  rw [h1, h2, h3, h4]
  unfold KernelVersion.LoadedFor
  cases v <;> simp [KernelVersion.loadedFor] <;> grind

/-- **Which struct handler a session loads**: that of the version behind the first `xnu-`, and the
oldest one if the text has none. -/
theorem handler_detected (version : List Char) :
    (¬ "xnu-".toList <:+: version → loadStructHandler (getXnuVersion version) = .xnu2422) ∧
      ∀ n < 2 ^ 32, NamesVersion version n → ∀ v,
        loadStructHandler (getXnuVersion version) = v ↔ v.LoadedFor n := by
  refine ⟨fun h => ?_, fun n hn h v => ?_⟩
  · rw [getXnuVersion_none h]
    decide
  · rw [loadStructHandler_iff, getXnuVersion_named h hn]

theorem namesVersion_3789 :
    NamesVersion "root:xnu-3789.71.6~1/RELEASE_X86_64".toList 3789 := by
  refine ⟨"root:".toList, ".71.6~1/RELEASE_X86_64".toList, by decide, ends_cons rfl, ?_⟩
  decide

theorem handler_detected_3789 :
    loadStructHandler (getXnuVersion "root:xnu-3789.71.6~1/RELEASE_X86_64".toList) = .xnu3789 := by
  refine ((handler_detected _).2 3789 (by decide) namesVersion_3789 .xnu3789).mpr ?_
  exact ⟨Or.inr (by decide), by decide⟩

/-! ## the name of a record file -/

/-- the value that `%d` gives an `unsigned int` -/
def asInt (n : UInt32) : Int := if n.toNat < 2 ^ 31 then n.toNat else n.toNat - 2 ^ 32

/-- the name that `enableRecording` gives the file -/
def recordingName (xnuVersion : UInt32) : List Char :=
  "ntstat-xnu-".toList ++ (signed (asInt xnuVersion) ++ ".bin".toList)

/-- the version that the replay tool makes of its argument, if it goes on -/
def replayVersion (arg : List Char) : Option UInt32 :=
  let xnuVersion := UInt32.ofInt (atoi arg)
  if xnuVersion < 2000 ∨ 5000 < xnuVersion then none else some xnuVersion

theorem asInt_inj {n m : UInt32} (h : asInt n = asInt m) : n = m := by
  have hn := n.toNat_lt
  have hm := m.toNat_lt
  unfold asInt at h
  refine UInt32.toNat_inj.mp ?_
  split at h <;> split at h <;> omega

theorem asInt_natAbs (n : UInt32) : (asInt n).natAbs < 10 ^ 10 := by
  have hn := n.toNat_lt
  unfold asInt
  split <;> omega

theorem ofInt_asInt (n : UInt32) : UInt32.ofInt (asInt n) = n := by
  have hn := n.toNat_lt
  refine UInt32.toNat_inj.mp ?_
  unfold UInt32.ofInt asInt
  rw [UInt32.toNat_ofNat']
  split <;> omega

/-- nothing of a version is lost on the way through an `int` -/
theorem ofInt_bmod (i : Int) : UInt32.ofInt (i.bmod (2 ^ 32)) = UInt32.ofInt i := by
  have hmod : i.bmod (2 ^ 32) % 2 ^ 32 = i % 2 ^ 32 := Int.bmod_emod
  unfold UInt32.ofInt
  rw [hmod]

theorem ends_bin : Ends ".bin".toList := ends_cons rfl

/-- **The name of a record file fits its buffer and tells its version, and with the number in the
name the replay tool loads the handler that the recording session had, exactly for the versions from
2000 to 5000.** -/
theorem recording_named (xnuVersion : UInt32) :
    (recordingName xnuVersion).length < 64 ∧
    (∀ other, recordingName other = recordingName xnuVersion → other = xnuVersion) ∧
    (replayVersion (signed (asInt xnuVersion))).map loadStructHandler =
      if 2000 ≤ xnuVersion ∧ xnuVersion ≤ 5000 then some (loadStructHandler xnuVersion)
      else none := by
  refine ⟨?_, fun other h => ?_, ?_⟩
  · have hlen := signed_length (by decide) (asInt_natAbs xnuVersion)
    unfold recordingName
    rw [List.length_append, List.length_append]
    have h1 : "ntstat-xnu-".toList.length = 11 := rfl
    have h2 : ".bin".toList.length = 4 := rfl
    omega
  · have h := List.append_cancel_left h
    exact asInt_inj (signed_append_inj ends_bin ends_bin h).1
  · have habs := asInt_natAbs xnuVersion
    unfold replayVersion
    dsimp only
    unfold atoi
    rw [ofInt_bmod, atol_signed (by omega), ofInt_asInt]
    by_cases h : 2000 ≤ xnuVersion ∧ xnuVersion ≤ 5000
    · rw [if_pos h, if_neg fun hn => hn.elim (UInt32.not_lt.mpr h.1) (UInt32.not_lt.mpr h.2)]
      rfl
    · have hn : xnuVersion < 2000 ∨ 5000 < xnuVersion := by
        rcases not_and_or.mp h with h | h
        · exact Or.inl (UInt32.not_le.mp h)
        · exact Or.inr (UInt32.not_le.mp h)
      rw [if_neg h, if_pos hn]
      rfl

/-! ## the line of a message in the log -/

/-- `msg_name` -/
def msgName : MsgType → List Char
  | .error => "ERROR".toList
  | .success => "SUCCESS".toList
  | .addSrc => "ADD_SRC".toList
  | .addAllSrcs => "ADD_ALL_SRC".toList
  | .remSrc => "REM_SRC".toList
  | .querySrc => "QUERY_SRC".toList
  | .getSrcDesc => "GET_SRC_DESC".toList
  | .srcAdded => "SRC_ADDED".toList
  | .srcRemoved => "SRC_REMOVED".toList
  | .srcDesc => "SRC_DESC".toList
  | .srcCounts => "SRC_COUNTS".toList
  | .unknown => "?".toList

/-- `msg_dir`: `'>'` for a request, `'<'` for a response -/
def msgDir : MsgType → Char
  | .addSrc | .addAllSrcs | .remSrc | .querySrc | .getSrcDesc => '>'
  | _ => '<'

/-- the type as it stands in the header -/
def hdrTypeCode (m : Mem) : UInt32 := u32 m (nstatMsgHdr.offsetOf .type)

/-- `_sprintMsg` -/
def sprintMsg (hdr : Option Mem) (srcRef : UInt64) : List Char :=
  match hdr with
  | none => "NULL".toList
  | some hdr =>
    msgDir (hdrType hdr) :: ' ' :: (padded 4 (decimal (hdrContext hdr).toNat) ++
      (" type:".toList ++ (msgName (hdrType hdr) ++
      ('(' :: (signed (asInt (hdrTypeCode hdr)) ++
      (") hdr->len:".toList ++ (decimal (hdrLength hdr).toNat ++
      (" srcRef:".toList ++ decimal srcRef.toNat))))))))

theorem msgName_length (t : MsgType) : (msgName t).length ≤ 12 := by
  cases t <;> decide

/-- a name ends before the bracket -/
theorem dropWhile_msgName (t : MsgType) (s : List Char) :
    (msgName t ++ '(' :: s).dropWhile (· != '(') = '(' :: s := by
  have hall : (msgName t).all (· != '(') = true := by cases t <;> rfl
  rw [List.dropWhile_append_of_pos (List.all_eq_true.mp hall),
    List.dropWhile_cons_of_neg (by simp)]

/-- the line fits the buffer of 256 bytes -/
theorem sprintMsg_length (hdr : Option Mem) (srcRef : UInt64) :
    (sprintMsg hdr srcRef).length < 256 := by
  cases hdr with
  | none =>
    show 4 < 256
    decide
  | some hdr =>
    have h1 : (decimal (hdrContext hdr).toNat).length ≤ 20 :=
      decimal_length (by decide) (Nat.lt_trans (hdrContext hdr).toNat_lt (by decide))
    have h2 := signed_length (by decide) (asInt_natAbs (hdrTypeCode hdr))
    have h3 : (decimal (hdrLength hdr).toNat).length ≤ 5 :=
      decimal_length (by decide) (Nat.lt_trans (hdrLength hdr).toNat_lt (by decide))
    have h4 : (decimal srcRef.toNat).length ≤ 20 :=
      decimal_length (by decide) (Nat.lt_trans srcRef.toNat_lt (by decide))
    have h5 := msgName_length (hdrType hdr)
    have e1 : " type:".toList.length = 6 := rfl
    have e2 : ") hdr->len:".toList.length = 11 := rfl
    have e3 : " srcRef:".toList.length = 8 := rfl
    unfold sprintMsg
    simp only [List.length_cons, List.length_append, padded_length]
    omega

/-- the numbers of a line can be read off it, from the left to the right -/
theorem sprintMsg_inj {m m' : Mem} {r r' : UInt64}
    (h : sprintMsg (some m) r = sprintMsg (some m') r') :
    hdrContext m = hdrContext m' ∧ hdrTypeCode m = hdrTypeCode m' ∧
      hdrLength m = hdrLength m' ∧ r = r' := by
  have htypeLabel : ∀ s, Ends (" type:".toList ++ s) := fun s => ends_cons rfl
  have hlenLabel : ∀ s, Ends (") hdr->len:".toList ++ s) := fun s => ends_cons rfl
  have hsrcLabel : ∀ s, Ends (" srcRef:".toList ++ s) := fun s => ends_cons rfl
  unfold sprintMsg at h
  dsimp only at h
  -- the context, behind the direction and the blanks
  have h1 := congrArg (fun s => s.tail.tail.dropWhile (· == ' ')) h
  simp only [List.tail_cons] at h1
  rw [dropWhile_padded, dropWhile_padded] at h1
  obtain ⟨hcontext, h2⟩ := decimal_append_inj (htypeLabel _) (htypeLabel _) h1
  -- the type, behind its name
  have h3 := congrArg (List.dropWhile (· != '(')) (List.append_cancel_left h2)
  rw [dropWhile_msgName, dropWhile_msgName] at h3
  obtain ⟨htype, h4⟩ := signed_append_inj (hlenLabel _) (hlenLabel _) (List.cons.inj h3).2
  obtain ⟨hlength, h5⟩ :=
    decimal_append_inj (hsrcLabel _) (hsrcLabel _) (List.append_cancel_left h4)
  have hsrc := decimal_inj (List.append_cancel_left h5)
  exact ⟨UInt64.toNat_inj.mp hcontext, asInt_inj htype, UInt16.toNat_inj.mp hlength,
    UInt64.toNat_inj.mp hsrc⟩

/-- the line depends on four numbers only -/
theorem sprintMsg_congr {m m' : Mem} (r : UInt64) (hcontext : hdrContext m = hdrContext m')
    (htype : hdrTypeCode m = hdrTypeCode m') (hlength : hdrLength m = hdrLength m') :
    sprintMsg (some m) r = sprintMsg (some m') r := by
  have h : hdrType m = hdrType m' := congrArg MsgType.ofCode htype
  unfold sprintMsg
  dsimp only
  rw [h, hcontext, htype, hlength]

/-- **The line of a message fits its buffer, whatever the message holds, and it tells exactly the
context, the type and the length of the message and the source reference.** -/
theorem sprintMsg_tells (m m' : Mem) (r r' : UInt64) :
    (sprintMsg (some m) r).length < 256 ∧
      (sprintMsg (some m) r = sprintMsg (some m') r' ↔
        hdrContext m = hdrContext m' ∧ hdrTypeCode m = hdrTypeCode m' ∧
          hdrLength m = hdrLength m' ∧ r = r') := by
  refine ⟨sprintMsg_length _ _, sprintMsg_inj, fun h => ?_⟩
  obtain ⟨hcontext, htype, hlength, rfl⟩ := h
  exact sprintMsg_congr r hcontext htype hlength

end Ntstat
