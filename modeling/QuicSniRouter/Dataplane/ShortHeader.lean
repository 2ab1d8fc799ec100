import QuicSniRouter.Dataplane.Handlers
import QuicSniRouter.SessionTable.LengthMask

/-
  The lookup of a short header skips the id lengths that are
  missing from the length mask of the session table.  Every
  stored length is in the mask, so nothing is skipped that
  an exhaustive search would find.

  Main declarations:
    * `shortHeaderKey`
    * `lengthLearned_of_get`
    * `short_header_lookup_exhaustive`
-/

namespace QuicSniRouter

open LinearProbing SessionKey

variable {len i bound : Nat}

/- The id of a given length at the front of a short header. -/
def shortHeaderKey
    (packet : Bytes)
    (len : Nat) : SessionKey :=
  singleCidKey ((packet.drop 1).take len)

namespace SessionTable

/- Some slot stores an entry under the key. -/
def StoredAt
    (table : SessionTable)
    (key : SessionKey)
    (i : Nat) : Prop :=
  i < table.capacity ∧
    ∃ session, table.sessions i = some session ∧
      session.key.equals key = true

end SessionTable

variable {hash : Bytes → Nat} {table : SessionTable}
variable {packet : Bytes}

theorem shortHeaderKey_eq
    (hLow : minLearnedCidLen ≤ len)
    (hHigh : len ≤ maxQuicCidLen)
    (hFits : len ≤ packet.length - 1) :
    shortHeaderKey packet len =
      { zero with
        hasCids := true
        dcid := (packet.drop 1).take len } := by
  have hLength : ((packet.drop 1).take len).length = len := by
    rw [List.length_take, List.length_drop]
    omega
  have hMin : minLearnedCidLen = 8 := rfl
  unfold shortHeaderKey singleCidKey cidKey
  rw [if_neg (by omega), if_pos (by
    refine ⟨by omega, by simp, Or.inl (by omega)⟩)]
  rfl

theorem shortHeaderKey_valid
    (hLow : minLearnedCidLen ≤ len)
    (hHigh : len ≤ maxQuicCidLen)
    (hFits : len ≤ packet.length - 1) :
    (shortHeaderKey packet len).valid = true := by
  have hLength : ((packet.drop 1).take len).length = len := by
    rw [List.length_take, List.length_drop]
    omega
  apply singleCidKey_valid_of_length
  · rw [hLength]
    exact hLow
  · rw [hLength]
    exact hHigh

/- A length under which an entry is stored is not skipped. -/
theorem lengthLearned_of_get
    (hInv : table.Inv hash)
    (hMasked : table.Masked)
    (hLow : minLearnedCidLen ≤ len)
    (hHigh : len ≤ maxQuicCidLen)
    (hFits : len ≤ packet.length - 1)
    (hGet :
      table.get hash (shortHeaderKey packet len) = some i) :
    lengthLearned table.cidLenMask len = true := by
  have hLength : ((packet.drop 1).take len).length = len := by
    rw [List.length_take, List.length_drop]
    omega
  rcases (SessionTable.get_eq_some hInv
      (shortHeaderKey_valid hLow hHigh hFits)).mp hGet with
    ⟨hi, session, hCell, hKey⟩
  rw [shortHeaderKey_eq hLow hHigh hFits, equals_iff] at hKey
  rcases hKey with ⟨_, hCids, _, hDcid, _⟩
  have hDcidLen : session.key.dcid.length = len :=
    hDcid.trans hLength
  have hBit : session.key.cidLenBit = 1 <<< len := by
    unfold cidLenBit
    rw [if_pos ⟨hCids, by omega, by omega⟩, hDcidLen]
  have hIn := (hMasked i hi session hCell).1
  rw [hBit] at hIn
  have hSet : table.cidLenMask.testBit len = true := by
    apply hIn
    simp [Nat.testBit_shiftLeft]
  have hAnd :
      table.cidLenMask &&& (1 <<< len) ≠ 0 := by
    intro hZero
    have hTest := congrArg (fun n => n.testBit len) hZero
    simp [hSet, Nat.testBit_shiftLeft] at hTest
  unfold lengthLearned
  simp [hAnd]

/- A length without an entry is not the longest match. -/
theorem longest_succ
    (hNone :
      table.get hash (shortHeaderKey packet (bound + 1)) =
        none) :
    (∃ len, minLearnedCidLen ≤ len ∧ len ≤ bound ∧
        table.get hash (shortHeaderKey packet len) = some i ∧
        ∀ longer, len < longer → longer ≤ bound →
          table.get hash (shortHeaderKey packet longer) =
            none) ↔
      ∃ len, minLearnedCidLen ≤ len ∧ len ≤ bound + 1 ∧
        table.get hash (shortHeaderKey packet len) = some i ∧
        ∀ longer, len < longer → longer ≤ bound + 1 →
          table.get hash (shortHeaderKey packet longer) =
            none := by
  constructor
  · rintro ⟨len, hLow, hLe, hGet, hLonger⟩
    refine ⟨len, hLow, by omega, hGet, ?_⟩
    intro longer hLt hBound
    by_cases hTop : longer = bound + 1
    · rw [hTop]
      exact hNone
    · exact hLonger longer hLt (by omega)
  · rintro ⟨len, hLow, hLe, hGet, hLonger⟩
    have hNotTop : len ≠ bound + 1 := by
      intro hTop
      rw [hTop, hNone] at hGet
      cases hGet
    exact ⟨len, hLow, by omega, hGet,
      fun longer hLt hBound =>
        hLonger longer hLt (by omega)⟩

/- The search from a length down finds the longest match. -/
theorem shortHeaderCidFrom_eq_some
    (hInv : table.Inv hash)
    (hMasked : table.Masked)
    {bound i : Nat}
    (hHigh : bound ≤ maxQuicCidLen)
    (hFits : bound ≤ packet.length - 1) :
    shortHeaderCidFrom hash table packet bound = some i ↔
      ∃ len, minLearnedCidLen ≤ len ∧ len ≤ bound ∧
        table.get hash (shortHeaderKey packet len) = some i ∧
        ∀ longer, len < longer → longer ≤ bound →
          table.get hash (shortHeaderKey packet longer) =
            none := by
  induction bound with
  | zero =>
      constructor
      · intro hFound
        cases hFound
      · rintro ⟨len, hLow, hLe, _⟩
        simp only [minLearnedCidLen] at hLow
        omega
  | succ bound ih =>
      have hRest := ih (by omega) (by omega)
      unfold shortHeaderCidFrom
      by_cases hShort : bound + 1 < minLearnedCidLen
      · rw [if_pos hShort]
        constructor
        · intro hFound
          cases hFound
        · rintro ⟨len, hLow, hLe, _⟩
          omega
      · rw [if_neg hShort]
        have hKey :
            singleCidKey ((packet.drop 1).take (bound + 1)) =
              shortHeaderKey packet (bound + 1) := rfl
        rw [hKey]
        cases hGet :
            table.get hash
              (shortHeaderKey packet (bound + 1)) with
        | none =>
            -- With a miss at this length the rest decides.
            simp only [ite_self]
            exact hRest.trans (longest_succ hGet)
        | some j =>
            rw [if_pos (lengthLearned_of_get hInv hMasked
              (by omega) hHigh hFits hGet)]
            dsimp only
            constructor
            · intro hFound
              refine ⟨bound + 1, by omega, by omega, ?_,
                fun longer hLt hBound => by omega⟩
              rw [hGet]
              exact hFound
            · rintro ⟨len, hLow, hLe, hFound, hLonger⟩
              by_cases hTop : len = bound + 1
              · rw [hTop, hGet] at hFound
                exact hFound
              · have hNone :=
                  hLonger (bound + 1) (by omega) (by omega)
                rw [hGet] at hNone
                cases hNone

/- It finds nothing just if no length has an entry. -/
theorem shortHeaderCidFrom_eq_none
    (hInv : table.Inv hash)
    (hMasked : table.Masked)
    (hHigh : bound ≤ maxQuicCidLen)
    (hFits : bound ≤ packet.length - 1) :
    shortHeaderCidFrom hash table packet bound = none ↔
      ∀ len, minLearnedCidLen ≤ len → len ≤ bound →
        table.get hash (shortHeaderKey packet len) =
          none := by
  have hFound :=
    fun i =>
      @shortHeaderCidFrom_eq_some hash table packet hInv
        hMasked bound i hHigh hFits
  constructor
  · intro hNone
    -- From the top down: a match would be the longest one.
    have hDown :
        ∀ depth len, len + depth = bound →
          minLearnedCidLen ≤ len →
          table.get hash (shortHeaderKey packet len) =
            none := by
      intro depth
      induction depth using Nat.strong_induction_on with
      | h depth ih =>
          intro len hLen hLow
          cases hGet :
              table.get hash (shortHeaderKey packet len) with
          | none => rfl
          | some i =>
              have hSome :=
                (hFound i).mpr ⟨len, hLow, by omega, hGet,
                  fun longer hLt hBound =>
                    ih (bound - longer) (by omega) longer
                      (by omega) (by omega)⟩
              rw [hNone] at hSome
              cases hSome
    intro len hLow hLe
    exact hDown (bound - len) len (by omega) hLow
  · intro hAll
    cases hLookup :
        shortHeaderCidFrom hash table packet bound with
    | none => rfl
    | some i =>
        rcases (hFound i).mp hLookup with
          ⟨len, hLow, hLe, hGet, _⟩
        rw [hAll len hLow hLe] at hGet
        cases hGet

/- Lookups and stored entries say the same. -/
theorem storedAt_iff_get
    (hInv : table.Inv hash)
    (hLow : minLearnedCidLen ≤ len)
    (hHigh : len ≤ maxQuicCidLen)
    (hFits : len ≤ packet.length - 1) :
    table.StoredAt (shortHeaderKey packet len) i ↔
      table.get hash (shortHeaderKey packet len) = some i :=
  (SessionTable.get_eq_some hInv
    (shortHeaderKey_valid hLow hHigh hFits)).symm

theorem lookupShortHeaderCid_eq
    (hash : Bytes → Nat)
    (table : SessionTable)
    (hShort : Quic.hasLongBit packet = false)
    (hFixed : Quic.hasFixedBit packet = true) :
    lookupShortHeaderCid hash table packet =
      shortHeaderCidFrom hash table packet
        (min (packet.length - 1) maxQuicCidLen) := by
  have hMin : minLearnedCidLen = 8 := rfl
  unfold lookupShortHeaderCid
  by_cases hTiny : packet.length < 1 + minLearnedCidLen
  · rw [if_pos (Or.inl hTiny)]
    -- Shorter packets have no length to try.
    cases hBound : min (packet.length - 1) maxQuicCidLen with
    | zero => rfl
    | succ bound =>
        unfold shortHeaderCidFrom
        rw [if_pos (by omega)]
  · rw [if_neg]
    simp [hTiny, hShort, hFixed]

/-
  Over every table that the operations can reach, the lookup
  of a short header returns the entry of the longest stored
  id, and nothing if none is stored.
-/
theorem short_header_lookup_exhaustive
    (hash : Bytes → Nat)
    (capacity : Nat)
    (ops : List SessionTable.Op)
    (packet : Bytes)
    (hPos : 1 ≤ capacity)
    (hShort : Quic.hasLongBit packet = false)
    (hFixed : Quic.hasFixedBit packet = true) :
    ∃ start, SessionTable.init capacity = .ok start ∧
      let table := ops.foldl (SessionTable.apply hash) start
      let bound := min maxQuicCidLen (packet.length - 1)
      (∀ i,
        lookupShortHeaderCid hash table packet = some i ↔
          ∃ len, minLearnedCidLen ≤ len ∧ len ≤ bound ∧
            table.StoredAt (shortHeaderKey packet len) i ∧
            ∀ longer, len < longer → longer ≤ bound →
              ∀ j, ¬ table.StoredAt
                (shortHeaderKey packet longer) j) ∧
      (lookupShortHeaderCid hash table packet = none ↔
        ∀ len, minLearnedCidLen ≤ len → len ≤ bound →
          ∀ j, ¬ table.StoredAt
            (shortHeaderKey packet len) j) := by
  have hInit :
      ∃ start, SessionTable.init capacity = .ok start := by
    unfold SessionTable.init
    rw [if_neg (by omega)]
    exact ⟨_, rfl⟩
  rcases hInit with ⟨start, hStart⟩
  refine ⟨start, hStart, ?_⟩
  intro table bound
  have hStartInv : start.Inv hash :=
    SessionTable.init_inv hStart
  have hInv : table.Inv hash :=
    SessionTable.run_inv hash ops hStartInv
  have hMasked : table.Masked :=
    SessionTable.run_masked ops hStartInv
      (SessionTable.init_masked hStart)
  have hHigh : bound ≤ maxQuicCidLen := Nat.min_le_left _ _
  have hFits : bound ≤ packet.length - 1 :=
    Nat.min_le_right _ _
  have hMissing :
      ∀ len, minLearnedCidLen ≤ len → len ≤ bound →
        ((∀ j, ¬ table.StoredAt
            (shortHeaderKey packet len) j) ↔
          table.get hash (shortHeaderKey packet len) =
            none) := by
    intro len hLow hLe
    rw [Option.eq_none_iff_forall_ne_some]
    exact forall_congr' fun j =>
      not_congr (storedAt_iff_get hInv hLow (by omega)
        (by omega))
  have hFound :
      ∀ i,
        lookupShortHeaderCid hash table packet = some i ↔
          ∃ len, minLearnedCidLen ≤ len ∧ len ≤ bound ∧
            table.StoredAt (shortHeaderKey packet len) i ∧
            ∀ longer, len < longer → longer ≤ bound →
              ∀ j, ¬ table.StoredAt
                (shortHeaderKey packet longer) j := by
    intro i
    rw [lookupShortHeaderCid_eq hash table hShort hFixed,
      Nat.min_comm,
      shortHeaderCidFrom_eq_some hInv hMasked hHigh hFits]
    refine exists_congr fun len => ?_
    refine and_congr_right fun hLow => ?_
    refine and_congr_right fun hLe => ?_
    rw [storedAt_iff_get hInv hLow (by omega) (by omega)]
    refine and_congr_right fun _ => ?_
    constructor
    · intro hNone longer hLt hBound
      exact (hMissing longer (by omega) hBound).mpr
        (hNone longer hLt hBound)
    · intro hNone longer hLt hBound
      exact (hMissing longer (by omega) hBound).mp
        (hNone longer hLt hBound)
  refine ⟨hFound, ?_⟩
  rw [lookupShortHeaderCid_eq hash table hShort hFixed,
    Nat.min_comm,
    shortHeaderCidFrom_eq_none hInv hMasked hHigh hFits]
  refine forall_congr' fun len => ?_
  refine forall_congr' fun hLow => ?_
  refine forall_congr' fun hLe => ?_
  exact (hMissing len hLow hLe).symm

/- An id of nine bytes, in a table that has expired one. -/
def nineByteOps : List SessionTable.Op :=
  let backend :=
    BackendRef.addr (SockaddrStorage.ofBytes [2, 0])
  [.put (singleCidKey (List.replicate 8 1)) backend 16 0,
    .put (singleCidKey (List.replicate 9 1)) backend 16 5,
    .expireIncremental 6 3 4 (fun _ => false)]

/- A short header before a known id. -/
def nineBytePacket : Bytes :=
  0x40 :: List.replicate 12 1

/- The id of nine bytes is still found. -/
theorem nine_byte_id_found :
    ∃ start, SessionTable.init 4 = .ok start ∧
      ∃ i,
        lookupShortHeaderCid (fun _ => 1)
          (nineByteOps.foldl
            (SessionTable.apply fun _ => 1) start)
          nineBytePacket = some i := by
  rcases short_header_lookup_exhaustive (fun _ => 1) 4
      nineByteOps nineBytePacket (by decide) (by decide)
      (by decide) with
    ⟨start, hStart, _, hNone⟩
  refine ⟨start, hStart, ?_⟩
  cases hLookup :
      lookupShortHeaderCid (fun _ => 1)
        (nineByteOps.foldl
          (SessionTable.apply fun _ => 1) start)
        nineBytePacket with
  | some i => exact ⟨i, rfl⟩
  | none =>
      exfalso
      have hAbsent := hNone.mp hLookup 9 (by decide)
        (by decide) 1
      apply hAbsent
      cases hStart
      exact ⟨by decide, _, rfl, by decide⟩

end QuicSniRouter
