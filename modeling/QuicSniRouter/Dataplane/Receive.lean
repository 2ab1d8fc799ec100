import QuicSniRouter.Dataplane.Run
import QuicSniRouter.Pieces

/-
  Receiving in batches.  The kernel fills the buffers of a
  batch, and may put several datagrams of one peer into one
  buffer, with their size in a control message; the buffer
  is then split again.

  Main declarations:
    * `RecvMessage`
    * `RecvMessage.segments`
    * `RecvMessage.Carries`
    * `RecvMessage.split_inverts_coalescing`
-/

------------------------------------------------------------
-- Messages
------------------------------------------------------------

namespace QuicSniRouter

/- Room for what the kernel coalesces into one message. -/
abbrev udpRecvBufferSize : Nat := 16 * 1024

/- Level and type of the message with the segment size. -/
abbrev solUdp : Nat := 17

/- The control message that tells a segment size. -/
abbrev udpGro : Nat := 104

/- A control message of the kernel. -/
structure ControlMessage where
  level : Nat
  type : Nat
  data : Bytes
deriving DecidableEq

/-
  A message that `recvmmsg` has filled in: the bytes in its
  buffer, whether some did not fit, the control messages and
  the sender.
-/
structure RecvMessage where
  payload : Bytes
  truncated : Bool
  controls : List ControlMessage
  source : Sockaddr
deriving DecidableEq

namespace RecvMessage

variable {size : Nat}

/- How much was received. -/
def len
    (message : RecvMessage) : Nat :=
  message.payload.length

/- The two bytes of a segment size, low byte first. -/
def gsoOf
    (data : Bytes) : Nat :=
  (byteAt data 0).toNat + 256 * (byteAt data 1).toNat

/- The message tells a segment size. -/
def isGro
    (control : ControlMessage) : Bool :=
  control.level == solUdp && control.type == udpGro

/- The size that is announced, else that of the message. -/
def announcedSize
    (message : RecvMessage) : Nat :=
  match message.controls.find? isGro with
  | some control =>
      if gsoOf control.data > 0 then gsoOf control.data
      else message.len
  | none => message.len

/- The size of the segments, or `none` for a skipped slot. -/
def segmentSize
    (message : RecvMessage) : Option Nat :=
  if message.len = 0 ∨ message.len > udpRecvBufferSize then
    none
  else if message.truncated then
    none
  else if message.announcedSize > maxDatagramSize then
    none
  else
    some message.announcedSize

/- Offset and size of each segment from `offset` on. -/
def segmentsFrom
    (segmentSize msgLen : Nat) :
    Nat → Nat → List (Nat × Nat)
| 0, _ => []
| rounds + 1, offset =>
    if offset < msgLen then
      let remaining := msgLen - offset
      let chunk :=
        if remaining < segmentSize then remaining
        else segmentSize
      (offset, chunk) ::
        segmentsFrom segmentSize msgLen rounds
          (offset + chunk)
    else
      []

/- Every round advances, so these are all of them. -/
def segments
    (message : RecvMessage) : List (Nat × Nat) :=
  match message.segmentSize with
  | some size => segmentsFrom size message.len message.len 0
  | none => []

/- The datagrams that are handed over. -/
def datagrams
    (message : RecvMessage) : List Bytes :=
  message.segments.map
    (fun segment =>
      (message.payload.drop segment.1).take segment.2)

variable {message : RecvMessage}

/- The segments cut what is left of the message. -/
theorem segmentsFrom_cut
    (payload : Bytes)
    (rounds offset : Nat) :
    (segmentsFrom size payload.length rounds offset).map
        (fun segment =>
          (payload.drop segment.1).take segment.2) =
      Pieces.cut size rounds (payload.drop offset) := by
  induction rounds generalizing offset with
  | zero => rfl
  | succ rounds ih =>
      unfold segmentsFrom
      by_cases hMore : offset < payload.length
      · have hLeft : 0 < (payload.drop offset).length := by
          rw [List.length_drop]
          omega
        rw [if_pos hMore, Pieces.cut_of_ne_nil rounds
          (List.ne_nil_of_length_pos hLeft)]
        dsimp only
        rw [List.map_cons, ih]
        by_cases hShort : payload.length - offset < size
        · -- The rest of the message is the last segment.
          have hRest :
              (payload.drop offset).length =
                payload.length - offset :=
            List.length_drop
          have hAfter :
              payload.drop
                  (offset + (payload.length - offset)) =
                [] :=
            List.drop_of_length_le (by omega)
          have hLast : (payload.drop offset).drop size = [] :=
            List.drop_of_length_le (by omega)
          rw [if_pos hShort, hAfter, hLast,
            List.take_of_length_le (Nat.le_of_eq hRest),
            List.take_of_length_le (by omega)]
        · rw [if_neg hShort, List.drop_drop]
      · rw [if_neg hMore,
          List.drop_of_length_le (Nat.le_of_not_lt hMore),
          Pieces.cut_nil, List.map_nil]

theorem announcedSize_pos
    (hLen : message.len ≠ 0) :
    0 < message.announcedSize := by
  unfold announcedSize
  split
  · split
    · assumption
    · omega
  · omega

theorem segmentSize_eq_some :
    message.segmentSize = some size ↔
      message.len ≠ 0 ∧ message.len ≤ udpRecvBufferSize ∧
        message.truncated = false ∧
        message.announcedSize = size ∧
        size ≤ maxDatagramSize := by
  unfold segmentSize
  constructor
  · intro hSome
    split at hSome
    · cases hSome
    · split at hSome
      · cases hSome
      · split at hSome
        · cases hSome
        · rename_i hLen hWhole hFits
          cases hSome
          refine ⟨by omega, by omega, ?_, rfl, by omega⟩
          simpa using hWhole
  · rintro ⟨hLen, hLe, hWhole, hSize, hFits⟩
    rw [if_neg (by omega), if_neg (by simp [hWhole]),
      if_neg (by omega), hSize]

theorem datagrams_eq_cut
    (hSome : message.segmentSize = some size) :
    message.datagrams =
      Pieces.cut size message.payload.length
        message.payload := by
  rcases segmentSize_eq_some.mp hSome with
    ⟨hLen, _, _, hSize, _⟩
  have hPos := announcedSize_pos hLen
  rw [hSize] at hPos
  unfold datagrams segments
  rw [hSome]
  dsimp only
  exact segmentsFrom_cut message.payload
    message.payload.length 0

/-
  The kernel delivers datagrams in one message: one after
  the other, with the size of all but the last announced if
  there are several, and none cut off.
-/
structure Carries
    (message : RecvMessage)
    (datagrams : List Bytes) : Prop where
  payload : message.payload = datagrams.flatten
  fits : message.len ≤ udpRecvBufferSize
  whole : message.truncated = false
  uniform :
    Pieces.Uniform message.announcedSize datagrams
  bounded : message.announcedSize ≤ maxDatagramSize

/-
  A message is split into the datagrams that the kernel put
  into it, and nothing is made of any other message.
-/
theorem split_inverts_coalescing
    (message : RecvMessage)
    (datagrams : List Bytes) :
    (message.datagrams = datagrams ∧ datagrams ≠ []) ↔
      message.Carries datagrams := by
  constructor
  · rintro ⟨hSplit, hSome⟩
    cases hSize : message.segmentSize with
    | none =>
        unfold RecvMessage.datagrams segments at hSplit
        rw [hSize] at hSplit
        exact absurd hSplit.symm hSome
    | some size =>
        rcases segmentSize_eq_some.mp hSize with
          ⟨hLen, hFits, hWhole, hAnnounced, hBounded⟩
        have hPos := announcedSize_pos hLen
        rw [datagrams_eq_cut hSize, ← hAnnounced,
          Pieces.cut_eq_iff hPos
            (List.ne_nil_of_length_pos
              (Nat.pos_of_ne_zero hLen))
            (Nat.le_refl _)] at hSplit
        exact ⟨hSplit.2.symm, hFits, hWhole, hSplit.1,
          by omega⟩
  · intro hCarries
    have hBounds := hCarries.uniform.bounds
    have hNe := hCarries.uniform.ne_nil
    have hLen : message.len ≠ 0 := by
      rcases List.exists_mem_of_ne_nil _ hNe with
        ⟨datagram, hIn⟩
      have hLe := (List.sublist_flatten_of_mem hIn).length_le
      rw [← hCarries.payload] at hLe
      have hPos := (hBounds datagram hIn).1
      unfold len
      omega
    have hSize :
        message.segmentSize = some message.announcedSize :=
      segmentSize_eq_some.mpr
        ⟨hLen, hCarries.fits, hCarries.whole, rfl,
          hCarries.bounded⟩
    refine ⟨?_, hNe⟩
    rw [datagrams_eq_cut hSize,
      Pieces.cut_eq_iff (announcedSize_pos hLen)
        (List.ne_nil_of_length_pos (Nat.pos_of_ne_zero hLen))
        (Nat.le_refl _)]
    exact ⟨hCarries.uniform, hCarries.payload.symm⟩

/- What is handed over is nonempty and fits a datagram. -/
theorem datagrams_bounded
    {datagram : Bytes}
    (hIn : datagram ∈ message.datagrams) :
    1 ≤ datagram.length ∧
      datagram.length ≤ maxDatagramSize := by
  cases hSize : message.segmentSize with
  | none =>
      unfold datagrams segments at hIn
      rw [hSize] at hIn
      cases hIn
  | some size =>
      rcases segmentSize_eq_some.mp hSize with
        ⟨hLen, _, _, hAnnounced, hBounded⟩
      have hPos := announcedSize_pos hLen
      rw [hAnnounced] at hPos
      rw [datagrams_eq_cut hSize] at hIn
      have hUniform :=
        Pieces.cut_uniform hPos
          (List.ne_nil_of_length_pos
            (Nat.pos_of_ne_zero hLen))
          (Nat.le_refl message.payload.length)
      have hBounds := hUniform.bounds datagram hIn
      omega

/- Segments lie inside the message. -/
theorem segmentsFrom_inside
    {msgLen : Nat}
    (rounds offset : Nat) :
    ∀ segment ∈ segmentsFrom size msgLen rounds offset,
      segment.1 + segment.2 ≤ msgLen := by
  induction rounds generalizing offset with
  | zero =>
      intro segment hIn
      cases hIn
  | succ rounds ih =>
      intro segment hIn
      unfold segmentsFrom at hIn
      by_cases hMore : offset < msgLen
      · rw [if_pos hMore] at hIn
        rcases List.mem_cons.mp hIn with hEq | hLater
        · subst hEq
          dsimp only
          split <;> omega
        · exact ih _ segment hLater
      · rw [if_neg hMore] at hIn
        cases hIn

theorem segments_inside
    {segment : Nat × Nat}
    (hIn : segment ∈ message.segments) :
    segment.1 + segment.2 ≤ message.payload.length := by
  unfold segments at hIn
  split at hIn
  · exact segmentsFrom_inside _ _ segment hIn
  · cases hIn

end RecvMessage

end QuicSniRouter
