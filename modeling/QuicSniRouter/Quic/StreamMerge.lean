import Mathlib.Logic.Function.Basic
import QuicSniRouter.Quic.Reassembly

/-
  CRYPTO streams as the calls leave them behind, failing
  calls included.  A merge only scans the window of its
  source; the window holds all that the source received, so
  the merge is the overlay of the whole arrays.

  Main declarations:
    * `extractCryptoInto`
    * `CryptoStream.mergeLoop` and `CryptoStream.merge_eq`
    * `CryptoStream.Windowed`
    * `CryptoStream.Produced`
    * `CryptoStream.merge_overlays`
-/

------------------------------------------------------------
-- Extraction In Place
------------------------------------------------------------

namespace QuicSniRouter

namespace Quic

/-
  The frame walk with the stream that it writes to.  A walk
  that fails has written the CRYPTO frames before the frame
  it fails at.
-/
def extractCryptoInto :
    Nat → Bytes → CryptoStream → Bool → Status × CryptoStream
| _, [], stream, found =>
    (if found then .ok else .notFound, stream)
| 0, _ :: _, stream, _ => (.invalid, stream)
| fuel + 1, frameType :: rest, stream, found =>
    if frameType = 0x00 ∨ frameType = 0x01 then
      extractCryptoInto fuel rest stream found
    else if frameType = 0x02 ∨ frameType = 0x03 then
      match skipAck frameType rest with
      | .error status => (status, stream)
      | .ok rest => extractCryptoInto fuel rest stream found
    else if frameType ≠ 0x06 then
      (.unsupported, stream)
    else
      match takeCrypto stream rest with
      | .error status => (status, stream)
      | .ok (stream, rest) =>
          extractCryptoInto fuel rest stream true

/- `qsr_quic_extract_crypto`, with the stream it leaves. -/
def extractCryptoCall
    (plaintext : Bytes)
    (stream : CryptoStream) : Status × CryptoStream :=
  if plaintext.length > maxClientHelloSize then
    (.invalid, stream)
  else
    extractCryptoInto plaintext.length plaintext stream false

/- The status of a call, and its stream if it succeeds. -/
def Returns
    (result : Except Status CryptoStream)
    (call : Status × CryptoStream) : Prop :=
  match result with
  | .ok stream => call = (.ok, stream)
  | .error status => call.1 = status

theorem extractCryptoInto_returns
    (fuel : Nat)
    (rest : Bytes)
    (stream : CryptoStream)
    (found : Bool) :
    Returns (extractCryptoFrom fuel rest stream found)
      (extractCryptoInto fuel rest stream found) := by
  induction fuel generalizing rest stream found with
  | zero =>
      cases rest with
      | nil =>
          cases found with
          | true => rfl
          | false => rfl
      | cons frameType rest => rfl
  | succ fuel ih =>
      cases rest with
      | nil =>
          cases found with
          | true => rfl
          | false => rfl
      | cons frameType rest =>
          unfold extractCryptoFrom extractCryptoInto
          split
          · exact ih rest stream found
          · split
            · cases skipAck frameType rest with
              | error status => rfl
              | ok rest => exact ih rest stream found
            · split
              · rfl
              · cases takeCrypto stream rest with
                | error status => rfl
                | ok taken => exact ih taken.2 taken.1 true

/- The two models of extraction agree on what they share. -/
theorem extractCryptoCall_returns
    (plaintext : Bytes)
    (stream : CryptoStream) :
    Returns (extractCrypto plaintext stream)
      (extractCryptoCall plaintext stream) := by
  unfold extractCrypto extractCryptoCall
  split
  · rfl
  · exact extractCryptoInto_returns _ _ _ _

namespace CryptoStream

/- One round of the merge loop. -/
def mergeByte
    (src dest : CryptoStream)
    (i : Nat) : CryptoStream :=
  if src.received i then
    { dest with
      data := Function.update dest.data i (src.data i)
      received := Function.update dest.received i true }
  else
    dest

/- The slots from `start` on, one after the other. -/
def mergeScan
    (src dest : CryptoStream)
    (start count : Nat) : CryptoStream :=
  (List.range' start count).foldl (mergeByte src) dest

/- `qsr_crypto_stream_merge` as the loop that it is. -/
def mergeLoop
    (dest src : CryptoStream) : CryptoStream :=
  let start :=
    if src.firstReceived < maxClientHelloSize then
      src.firstReceived
    else 0
  let stop :=
    if src.lastReceived < maxClientHelloSize then
      src.lastReceived
    else maxClientHelloSize
  let scanned := mergeScan src dest start (stop - start)
  { scanned with
    len :=
      if src.len > scanned.len then src.len
      else scanned.len
    firstReceived :=
      if src.firstReceived < scanned.firstReceived then
        src.firstReceived
      else scanned.firstReceived
    lastReceived :=
      if src.lastReceived > scanned.lastReceived then
        src.lastReceived
      else scanned.lastReceived }

/-
  The slots that `p` selects are copied as far as the source
  received them, and nothing else has changed.
-/
structure Copied
    (p : Nat → Bool)
    (src dest after : CryptoStream) : Prop where
  received :
    ∀ i, after.received i =
      (p i && src.received i || dest.received i)
  data :
    ∀ i, after.data i =
      if p i && src.received i then src.data i
      else dest.data i
  len : after.len = dest.len
  firstReceived : after.firstReceived = dest.firstReceived
  lastReceived : after.lastReceived = dest.lastReceived

variable {p q : Nat → Bool}
variable {src dest mid after : CryptoStream}

theorem Copied.trans
    (hFirst : Copied p src dest mid)
    (hSecond : Copied q src mid after) :
    Copied (fun i => p i || q i) src dest after where
  received := by
    intro i
    rw [hSecond.received i, hFirst.received i]
    cases p i <;> cases q i <;>
      cases src.received i <;> rfl
  data := by
    intro i
    rw [hSecond.data i, hFirst.data i]
    cases p i <;> cases q i <;>
      cases src.received i <;> rfl
  len := hSecond.len.trans hFirst.len
  firstReceived :=
    hSecond.firstReceived.trans hFirst.firstReceived
  lastReceived :=
    hSecond.lastReceived.trans hFirst.lastReceived

theorem mergeByte_copied
    (src dest : CryptoStream)
    (j : Nat) :
    Copied (fun i => decide (i = j)) src dest
      (mergeByte src dest j) := by
  unfold mergeByte
  split
  · rename_i hReceived
    refine ⟨?_, ?_, rfl, rfl, rfl⟩
    · intro i
      by_cases hij : i = j
      · simp [hij, hReceived]
      · simp [hij]
    · intro i
      by_cases hij : i = j
      · simp [hij, hReceived]
      · simp [hij]
  · rename_i hMissing
    refine ⟨?_, ?_, rfl, rfl, rfl⟩
    · intro i
      by_cases hij : i = j
      · simp [hij, hMissing]
      · simp [hij]
    · intro i
      by_cases hij : i = j
      · simp [hij, hMissing]
      · simp [hij]

/- After `count` rounds that many slots are copied. -/
theorem mergeScan_copied
    (src dest : CryptoStream)
    (start count : Nat) :
    Copied
      (fun i =>
        decide (start ≤ i) && decide (i < start + count))
      src dest (mergeScan src dest start count) := by
  induction count with
  | zero =>
      have hNone (i : Nat) :
          (decide (start ≤ i) && decide (i < start + 0)) =
            false := by
        rw [Bool.and_eq_false_iff, decide_eq_false_iff_not,
          decide_eq_false_iff_not]
        omega
      refine ⟨?_, ?_, rfl, rfl, rfl⟩
      · intro i
        rw [hNone i, Bool.false_and, Bool.false_or]
        rfl
      · intro i
        simp only [hNone i]
        rfl
  | succ count ih =>
      have hRound :
          mergeScan src dest start (count + 1) =
            mergeByte src (mergeScan src dest start count)
              (start + count) := by
        unfold mergeScan
        rw [List.range'_1_concat, List.foldl_append]
        rfl
      have hSlots :
          (fun i =>
            decide (start ≤ i) &&
                decide (i < start + count) ||
              decide (i = start + count)) =
            fun i =>
              decide (start ≤ i) &&
                decide (i < start + (count + 1)) := by
        funext i
        rw [Bool.eq_iff_iff]
        simp only [Bool.or_eq_true, Bool.and_eq_true,
          decide_eq_true_eq]
        omega
      rw [hRound, ← hSlots]
      exact ih.trans (mergeByte_copied src _ _)

/- The loop computes the merge in closed form. -/
theorem merge_eq
    (dest src : CryptoStream) :
    dest.mergeLoop src = dest.merge src := by
  unfold mergeLoop merge
  dsimp only
  generalize
    (if src.firstReceived < maxClientHelloSize then
      src.firstReceived else 0) = start
  generalize
    (if src.lastReceived < maxClientHelloSize then
      src.lastReceived else maxClientHelloSize) = stop
  have hScan := mergeScan_copied src dest start (stop - start)
  have hWindow (i : Nat) :
      (decide (start ≤ i) &&
          decide (i < start + (stop - start))) =
        (decide (start ≤ i) && decide (i < stop)) := by
    rw [Bool.eq_iff_iff]
    simp only [Bool.and_eq_true, decide_eq_true_eq]
    omega
  congr 1
  · funext i
    rw [hScan.data i]
    simp only [hWindow i]
  · funext i
    rw [hScan.received i, hWindow i]
  · rw [hScan.len]
    split <;> omega
  · rw [hScan.firstReceived]
    split <;> omega
  · rw [hScan.lastReceived]
    split <;> omega

open Segments

/- The window of a stream encloses what it received. -/
structure Windowed
    (stream : CryptoStream) : Prop where
  received :
    ∀ i, stream.received i = true →
      stream.firstReceived ≤ i ∧ i < stream.lastReceived
  last_le : stream.lastReceived ≤ stream.len
  len_le : stream.len ≤ maxClientHelloSize

variable {stream dest src : CryptoStream}

theorem Windowed.inside
    (hWindowed : stream.Windowed) :
    stream.Inside := by
  intro i hReceived
  have hLast := hWindowed.last_le
  have hLen := hWindowed.len_le
  rcases hWindowed.received i hReceived with ⟨hFrom, hTo⟩
  exact ⟨hFrom, hTo, by omega, by omega⟩

theorem init_windowed :
    init.Windowed where
  received := by
    intro i hReceived
    cases hReceived
  last_le := Nat.le_refl 0
  len_le := Nat.zero_le _

/-
  A frame that fits keeps the invariant, also an empty one
  at the very end of the arrays.
-/
theorem Windowed.write
    {frame : CryptoFrame}
    (hWindowed : stream.Windowed)
    (hFits : Fits frame) :
    (stream.write frame.offset frame.items).Windowed := by
  have hLast := hWindowed.last_le
  have hLen := hWindowed.len_le
  unfold Fits at hFits
  unfold CryptoStream.write
  refine ⟨?_, ?_, ?_⟩
  · intro i hReceived
    dsimp only at hReceived ⊢
    rw [Bool.or_eq_true, Bool.and_eq_true,
      decide_eq_true_eq, decide_eq_true_eq] at hReceived
    rcases hReceived with ⟨_, _⟩ | hOld
    · omega
    · rcases hWindowed.received i hOld with ⟨_, _⟩
      omega
  · dsimp only
    omega
  · dsimp only
    omega

theorem Windowed.extractInto
    {fuel : Nat}
    {rest : Bytes}
    {found : Bool}
    (hWindowed : stream.Windowed) :
    (extractCryptoInto fuel rest stream found).2.Windowed := by
  induction fuel generalizing rest stream found with
  | zero =>
      cases rest with
      | nil => exact hWindowed
      | cons frameType rest => exact hWindowed
  | succ fuel ih =>
      cases rest with
      | nil => exact hWindowed
      | cons frameType rest =>
          unfold extractCryptoInto
          split
          · exact ih hWindowed
          · split
            · cases skipAck frameType rest with
              | error status => exact hWindowed
              | ok rest => exact ih hWindowed
            · split
              · exact hWindowed
              · rw [takeCrypto_eq]
                cases hTake : takeFrame rest with
                | error status => exact hWindowed
                | ok taken =>
                    exact ih
                      (hWindowed.write (takeFrame_fits hTake))

theorem Windowed.extractCall
    (hWindowed : stream.Windowed)
    (plaintext : Bytes) :
    (extractCryptoCall plaintext stream).2.Windowed := by
  unfold extractCryptoCall
  split
  · exact hWindowed
  · exact hWindowed.extractInto

theorem Windowed.merge
    (hDest : dest.Windowed)
    (hSrc : src.Windowed) :
    (dest.merge src).Windowed := by
  have hLast := hDest.last_le
  have hLast' := hSrc.last_le
  have hLen := hDest.len_le
  have hLen' := hSrc.len_le
  refine ⟨?_, ?_, ?_⟩
  · intro i hReceived
    rw [hSrc.inside.merge_received, Bool.or_eq_true]
      at hReceived
    unfold CryptoStream.merge
    dsimp only
    rcases hReceived with hNew | hOld
    · rcases hSrc.received i hNew with ⟨_, _⟩
      omega
    · rcases hDest.received i hOld with ⟨_, _⟩
      omega
  · unfold CryptoStream.merge
    dsimp only
    omega
  · unfold CryptoStream.merge
    dsimp only
    omega

/-
  The streams that calls can produce from new ones.  An
  extraction counts whether or not it succeeds.
-/
inductive Produced : CryptoStream → Prop
  | init : Produced init
  | extract
      {stream : CryptoStream}
      (plaintext : Bytes)
      (hStream : Produced stream) :
      Produced (extractCryptoCall plaintext stream).2
  | merge
      {dest src : CryptoStream}
      (hDest : Produced dest)
      (hSrc : Produced src) :
      Produced (dest.mergeLoop src)

theorem Produced.windowed
    (hProduced : stream.Produced) :
    stream.Windowed := by
  induction hProduced with
  | init => exact init_windowed
  | extract plaintext _ ih => exact ih.extractCall plaintext
  | merge _ _ ihDest ihSrc =>
      rw [merge_eq]
      exact ihDest.merge ihSrc

/- The count reaches as far as everything is received. -/
theorem Windowed.contiguousLen
    (hWindowed : stream.Windowed)
    (n : Nat)
    (hn : n ≤ maxClientHelloSize) :
    (∀ i < n, stream.received i = true) ↔
      n ≤ stream.contiguousLen := by
  unfold CryptoStream.contiguousLen
  rw [hWindowed.inside.contiguousFrom]
  constructor
  · intro hAll
    apply leading_max
    · intro i _ hi
      exact hAll i hi
    · omega
  · intro hLe i hi
    exact of_lt_leading (Nat.zero_le i)
      (Nat.lt_of_lt_of_le hi hLe)

/-
  Merging two streams that calls have produced overlays the
  source's bytes on the destination's, although only the
  source's window is scanned.  The merged stream keeps the
  invariant, and its contiguous length is that of its longest
  received front.
-/
theorem merge_overlays
    (hDest : dest.Produced)
    (hSrc : src.Produced) :
    let merged := dest.mergeLoop src
    (∀ i < maxClientHelloSize,
      (merged.received i = true ↔
        dest.received i = true ∨ src.received i = true) ∧
      merged.data i =
        if src.received i then src.data i
        else dest.data i) ∧
    (∀ i, merged.received i = true →
      merged.firstReceived ≤ i ∧ i < merged.lastReceived) ∧
    merged.lastReceived ≤ merged.len ∧
    merged.len ≤ maxClientHelloSize ∧
    merged.contiguousLen ≤ maxClientHelloSize ∧
    ∀ n ≤ maxClientHelloSize,
      (∀ i < n, merged.received i = true) ↔
        n ≤ merged.contiguousLen := by
  intro merged
  have hInside := hSrc.windowed.inside
  have hMerged := (Produced.merge hDest hSrc).windowed
  have hEq : merged = dest.merge src := merge_eq dest src
  refine ⟨?_, hMerged.received, hMerged.last_le,
    hMerged.len_le, ?_, hMerged.contiguousLen⟩
  · intro i _
    rw [hEq, hInside.merge_received, hInside.merge_data,
      Bool.or_eq_true, or_comm]
    exact ⟨Iff.rfl, rfl⟩
  · show merged.contiguousLen ≤ _
    unfold CryptoStream.contiguousLen
    rw [hMerged.inside.contiguousFrom]
    have hLe :=
      leading_le merged.received maxClientHelloSize 0
    omega

/-
  A source with two bytes and an empty frame at the end of
  the arrays, so that nearly all of the arrays is scanned.
-/
def sampleSource : CryptoStream :=
  (extractCryptoCall [6, 4, 2, 7, 8, 6, 0x60, 0x00, 0] init).2

theorem sampleSource_produced :
    sampleSource.Produced :=
  Produced.extract _ Produced.init

/- A destination whose last frame is cut off. -/
def sampleDest : CryptoStream :=
  (extractCryptoCall [6, 3, 2, 1, 2, 6, 4] init).2

theorem sampleDest_produced :
    sampleDest.Produced :=
  Produced.extract _ Produced.init

/- Both streams, the source laid over. -/
theorem merge_overlays_sample :
    (sampleDest.mergeLoop sampleSource).received 3 = true ∧
      (sampleDest.mergeLoop sampleSource).data 3 = 1 ∧
      (sampleDest.mergeLoop sampleSource).data 4 = 7 ∧
      (sampleDest.mergeLoop sampleSource).data 5 = 8 := by
  have hMerge :=
    (merge_overlays sampleDest_produced
      sampleSource_produced).1
  refine ⟨(hMerge 3 (by decide)).1.mpr (Or.inl ?_),
    (hMerge 3 (by decide)).2.trans ?_,
    (hMerge 4 (by decide)).2.trans ?_,
    (hMerge 5 (by decide)).2.trans ?_⟩
  · decide +kernel
  · decide +kernel
  · decide +kernel
  · decide +kernel

end CryptoStream

end Quic

end QuicSniRouter
