import QuicSniRouter.Quic.Frames
import QuicSniRouter.Segments

/-
  The CRYPTO stream of an Initial holds the segments that its
  frames carry.  Merging streams adds up their segments, so
  what a merged stream holds does not depend on the order.

  Main declarations:
    * `cryptoFrames`
    * `extractCrypto_eq`
    * `CryptoStream.Inside`
    * `CryptoStream.Holds`
    * `CryptoStream.Holds.merge`
    * `CryptoStream.Holds.contiguousLen`
-/

namespace QuicSniRouter

namespace Quic

open Segments

variable {rest : Bytes}

/- The offset and the payload of a CRYPTO frame. -/
abbrev CryptoFrame := Segment UInt8

/- One CRYPTO frame, after its type byte. -/
def takeFrame
    (rest : Bytes) :
    Except Status (CryptoFrame × Bytes) := do
  let (cryptoOffset, rest) ← takeVarint rest
  let (cryptoLen, rest) ← takeVarint rest
  if cryptoOffset > maxClientHelloSize ∨
      cryptoLen > maxClientHelloSize ∨
      cryptoLen > rest.length ∨
      cryptoOffset > maxClientHelloSize - cryptoLen then
    throw .invalid
  return (⟨cryptoOffset, rest.take cryptoLen⟩,
    rest.drop cryptoLen)

/- The CRYPTO frames that the frame walk passes. -/
def cryptoFramesFrom :
    Nat → Bytes → Bool → Except Status (List CryptoFrame)
| _, [], found =>
    if found then .ok [] else .error .notFound
| 0, _ :: _, _ => .error .invalid
| fuel + 1, frameType :: rest, found =>
    if frameType = 0x00 ∨ frameType = 0x01 then
      cryptoFramesFrom fuel rest found
    else if frameType = 0x02 ∨ frameType = 0x03 then do
      let rest ← skipAck frameType rest
      cryptoFramesFrom fuel rest found
    else if frameType ≠ 0x06 then
      .error .unsupported
    else do
      let (frame, rest) ← takeFrame rest
      let frames ← cryptoFramesFrom fuel rest true
      return frame :: frames

/- The crypto frames of a plaintext. -/
def cryptoFrames
    (plaintext : Bytes) :
    Except Status (List CryptoFrame) :=
  if plaintext.length > maxClientHelloSize then
    .error .invalid
  else
    cryptoFramesFrom plaintext.length plaintext false

namespace CryptoStream

/- Write frames one after the other. -/
def writeAll
    (stream : CryptoStream)
    (frames : List CryptoFrame) : CryptoStream :=
  frames.foldl
    (fun stream frame =>
      stream.write frame.offset frame.items)
    stream

end CryptoStream

theorem takeCrypto_eq
    (stream : CryptoStream)
    (rest : Bytes) :
    takeCrypto stream rest =
      (takeFrame rest).map
        (fun taken =>
          (stream.write taken.1.offset taken.1.items,
            taken.2)) := by
  unfold takeCrypto takeFrame
  cases takeVarint rest with
  | error status => rfl
  | ok first =>
      simp only [bind, Except.bind]
      cases takeVarint first.2 with
      | error status => rfl
      | ok second =>
          dsimp only
          split
          · rfl
          · rfl

theorem extractCryptoFrom_eq
    (fuel : Nat)
    (rest : Bytes)
    (stream : CryptoStream)
    (found : Bool) :
    extractCryptoFrom fuel rest stream found =
      (cryptoFramesFrom fuel rest found).map
        stream.writeAll := by
  induction fuel generalizing rest stream found with
  | zero =>
      cases rest with
      | nil =>
          cases found with
          | true => rfl
          | false => rfl
      | cons frameType rest => rfl
  | succ fuel ih =>
      cases rest with
      | nil =>
          cases found with
          | true => rfl
          | false => rfl
      | cons frameType rest =>
          unfold extractCryptoFrom cryptoFramesFrom
          split
          · exact ih rest stream found
          · split
            · cases skipAck frameType rest with
              | error status => rfl
              | ok rest => exact ih rest stream found
            · split
              · rfl
              · rw [takeCrypto_eq]
                cases takeFrame rest with
                | error status => rfl
                | ok taken =>
                    simp only [bind, Except.bind, Except.map]
                    rw [ih]
                    cases cryptoFramesFrom fuel taken.2
                        true with
                    | error status => rfl
                    | ok frames => rfl

/- Extraction writes the frames of the plaintext. -/
theorem extractCrypto_eq
    (plaintext : Bytes)
    (stream : CryptoStream) :
    extractCrypto plaintext stream =
      (cryptoFrames plaintext).map stream.writeAll := by
  unfold extractCrypto cryptoFrames
  split
  · rfl
  · exact extractCryptoFrom_eq _ _ _ _

/- The frame ends within the arrays of a stream. -/
def Fits
    (frame : CryptoFrame) : Prop :=
  frame.offset + frame.items.length ≤ maxClientHelloSize

theorem takeFrame_fits
    {taken : CryptoFrame × Bytes}
    (hTake : takeFrame rest = .ok taken) :
    Fits taken.1 := by
  unfold takeFrame at hTake
  rcases except_bind_eq_ok hTake with
    ⟨⟨cryptoOffset, rest⟩, _, hTake⟩
  rcases except_bind_eq_ok hTake with
    ⟨⟨cryptoLen, rest⟩, _, hTake⟩
  rcases except_guard_eq_ok hTake with ⟨hInside, hTake⟩
  cases hTake
  unfold Fits
  dsimp only
  rw [List.length_take]
  omega

theorem cryptoFramesFrom_fit
    {fuel : Nat}
    {found : Bool}
    {frames : List CryptoFrame}
    (hFrames :
      cryptoFramesFrom fuel rest found = .ok frames) :
    ∀ frame ∈ frames, Fits frame := by
  induction fuel generalizing rest found frames with
  | zero =>
      cases rest with
      | nil =>
          cases found with
          | true =>
              cases hFrames
              intro frame hFrame
              cases hFrame
          | false => cases hFrames
      | cons frameType rest => cases hFrames
  | succ fuel ih =>
      cases rest with
      | nil =>
          cases found with
          | true =>
              cases hFrames
              intro frame hFrame
              cases hFrame
          | false => cases hFrames
      | cons frameType rest =>
          unfold cryptoFramesFrom at hFrames
          split at hFrames
          · exact ih hFrames
          · split at hFrames
            · rcases except_bind_eq_ok hFrames with
                ⟨rest, _, hFrames⟩
              exact ih hFrames
            · split at hFrames
              · cases hFrames
              · rcases except_bind_eq_ok hFrames with
                  ⟨taken, hTake, hFrames⟩
                rcases except_bind_eq_ok hFrames with
                  ⟨others, hOthers, hFrames⟩
                cases hFrames
                intro frame hFrame
                rcases List.mem_cons.mp hFrame with
                  hFirst | hRest
                · rw [hFirst]
                  exact takeFrame_fits hTake
                · exact ih hOthers frame hRest

theorem cryptoFrames_fit
    {plaintext : Bytes}
    {frames : List CryptoFrame}
    (hFrames : cryptoFrames plaintext = .ok frames) :
    ∀ frame ∈ frames, Fits frame := by
  unfold cryptoFrames at hFrames
  split at hFrames
  · cases hFrames
  · exact cryptoFramesFrom_fit hFrames

namespace CryptoStream

/- The received bytes lie where merges and counts look. -/
def Inside
    (stream : CryptoStream) : Prop :=
  ∀ i, stream.received i = true →
    stream.firstReceived ≤ i ∧ i < stream.lastReceived ∧
      i < stream.len ∧ i < maxClientHelloSize

variable {stream src : CryptoStream}

/- The scan window of a merge leaves nothing out. -/
theorem Inside.window_received
    (hInside : src.Inside)
    (i : Nat) :
    (decide ((if src.firstReceived < maxClientHelloSize
        then src.firstReceived else 0) ≤ i) &&
      decide (i < (if src.lastReceived < maxClientHelloSize
        then src.lastReceived else maxClientHelloSize)) &&
      src.received i) = src.received i := by
  by_cases hReceived : src.received i = true
  · rcases hInside i hReceived with ⟨_, _, _, _⟩
    rw [hReceived, Bool.and_true, Bool.and_eq_true,
      decide_eq_true_eq, decide_eq_true_eq]
    constructor
    · split
      · assumption
      · omega
    · split
      · assumption
      · assumption
  · rw [Bool.not_eq_true] at hReceived
    rw [hReceived, Bool.and_false]

theorem Inside.merge_received
    (hInside : src.Inside)
    (dest : CryptoStream)
    (i : Nat) :
    (dest.merge src).received i =
      (src.received i || dest.received i) := by
  unfold CryptoStream.merge
  dsimp only
  rw [hInside.window_received]

theorem Inside.merge_data
    (hInside : src.Inside)
    (dest : CryptoStream)
    (i : Nat) :
    (dest.merge src).data i =
      if src.received i then src.data i
      else dest.data i := by
  unfold CryptoStream.merge
  simp only [hInside.window_received]

/- The count stops at a gap and nowhere else. -/
theorem Inside.contiguousFrom
    (hInside : stream.Inside)
    (fuel n : Nat) :
    stream.contiguousFrom fuel n =
      leading stream.received fuel n := by
  induction fuel generalizing n with
  | zero => rfl
  | succ fuel ih =>
      unfold CryptoStream.contiguousFrom leading
      by_cases hReceived : stream.received n = true
      · rcases hInside n hReceived with ⟨_, _, hLen, hMax⟩
        rw [if_pos ⟨hLen, hMax, hReceived⟩, if_pos hReceived]
        exact ih (n + 1)
      · rw [if_neg (fun hAll => hReceived hAll.2.2),
          if_neg hReceived]

/-
  The stream has received what the frames cover, with the
  bytes of the whole message, inside its window.
-/
structure Holds
    (stream : CryptoStream)
    (whole : Bytes)
    (frames : List CryptoFrame) : Prop where
  received :
    ∀ i, stream.received i = covered frames i
  data :
    ∀ i, covered frames i = true →
      stream.data i = byteAt whole i
  window :
    ∀ i, covered frames i = true →
      stream.firstReceived ≤ i ∧ i < stream.lastReceived ∧
        i < stream.len ∧ i < maxClientHelloSize

variable {stream dest src : CryptoStream} {whole : Bytes}
variable {frames first second : List CryptoFrame}

theorem init_holds
    (whole : Bytes) :
    init.Holds whole [] where
  received := fun _ => rfl
  data := by
    intro i hCovered
    cases hCovered
  window := by
    intro i hCovered
    cases hCovered

theorem Holds.write
    {frame : CryptoFrame}
    (hHolds : stream.Holds whole frames)
    (hOf : frame.Of whole)
    (hFits : Fits frame) :
    (stream.write frame.offset frame.items).Holds whole
      (frames ++ [frame]) := by
  have hSplit :
      ∀ i, covered (frames ++ [frame]) i =
        (covered frames i || frame.covers i) := by
    intro i
    rw [covered_append]
    simp [covered]
  refine ⟨?_, ?_, ?_⟩
  · intro i
    rw [hSplit, ← hHolds.received i, Bool.or_comm]
    rfl
  · intro i hCovered
    rw [hSplit] at hCovered
    unfold CryptoStream.write
    dsimp only
    by_cases hInside : frame.covers i = true
    · have hInside' := hInside
      unfold Segment.covers at hInside'
      rw [if_pos hInside']
      exact hOf.getD hInside 0
    · have hInside' := hInside
      unfold Segment.covers at hInside'
      rw [if_neg hInside']
      rw [Bool.not_eq_true] at hInside
      rw [hInside, Bool.or_false] at hCovered
      exact hHolds.data i hCovered
  · intro i hCovered
    rw [hSplit, Bool.or_eq_true] at hCovered
    unfold Fits at hFits
    unfold CryptoStream.write
    dsimp only
    rcases hCovered with hOld | hNew
    · rcases hHolds.window i hOld with ⟨_, _, _, _⟩
      omega
    · rcases Segment.covers_iff.mp hNew with ⟨_, _⟩
      omega

theorem Holds.writeAll
    {more : List CryptoFrame}
    (hHolds : stream.Holds whole frames)
    (hOf : ∀ frame ∈ more, frame.Of whole)
    (hFit : ∀ frame ∈ more, Fits frame) :
    (stream.writeAll more).Holds whole (frames ++ more) := by
  induction more generalizing stream frames with
  | nil =>
      rw [List.append_nil]
      exact hHolds
  | cons frame more ih =>
      have hWritten :=
        hHolds.write (hOf frame List.mem_cons_self)
          (hFit frame List.mem_cons_self)
      have hRest :=
        ih hWritten
          (fun other hOther =>
            hOf other (List.mem_cons_of_mem _ hOther))
          (fun other hOther =>
            hFit other (List.mem_cons_of_mem _ hOther))
      rw [List.append_assoc] at hRest
      exact hRest

theorem Holds.inside
    (hHolds : stream.Holds whole frames) :
    stream.Inside := by
  intro i hReceived
  rw [hHolds.received i] at hReceived
  exact hHolds.window i hReceived

theorem Holds.merge
    (hDest : dest.Holds whole first)
    (hSrc : src.Holds whole second) :
    (dest.merge src).Holds whole (first ++ second) := by
  refine ⟨?_, ?_, ?_⟩
  · intro i
    rw [hSrc.inside.merge_received, hDest.received i,
      hSrc.received i, covered_append, Bool.or_comm]
  · intro i hCovered
    rw [covered_append] at hCovered
    rw [hSrc.inside.merge_data, hSrc.received i]
    by_cases hNew : covered second i = true
    · rw [if_pos hNew]
      exact hSrc.data i hNew
    · rw [if_neg hNew]
      rw [Bool.not_eq_true] at hNew
      rw [hNew, Bool.or_false] at hCovered
      exact hDest.data i hCovered
  · intro i hCovered
    rw [covered_append, Bool.or_eq_true] at hCovered
    unfold CryptoStream.merge
    dsimp only
    rcases hCovered with hOld | hNew
    · rcases hDest.window i hOld with ⟨_, _, _, _⟩
      omega
    · rcases hSrc.window i hNew with ⟨_, _, _, _⟩
      omega

end CryptoStream

/- How far frames cover a message without a gap. -/
def coveredLen
    (frames : List CryptoFrame) : Nat :=
  leading (covered frames) maxClientHelloSize 0

theorem coveredLen_le
    (frames : List CryptoFrame) :
    coveredLen frames ≤ maxClientHelloSize := by
  have hLe := leading_le (covered frames) maxClientHelloSize 0
  unfold coveredLen
  omega

namespace CryptoStream

variable {stream : CryptoStream} {whole : Bytes}
variable {frames : List CryptoFrame}

theorem Holds.contiguousLen
    (hHolds : stream.Holds whole frames) :
    stream.contiguousLen = coveredLen frames := by
  have hReceived : stream.received = covered frames :=
    funext hHolds.received
  unfold CryptoStream.contiguousLen coveredLen
  rw [hHolds.inside.contiguousFrom, hReceived]

/- Up to its first gap the stream has the whole's bytes. -/
theorem Holds.front
    {i : Nat}
    (hHolds : stream.Holds whole frames)
    (hFront : i < coveredLen frames) :
    stream.data i = byteAt whole i :=
  hHolds.data i (of_lt_leading (Nat.zero_le i) hFront)

end CryptoStream

end Quic

end QuicSniRouter
