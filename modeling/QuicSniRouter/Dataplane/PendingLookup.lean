import QuicSniRouter.Dataplane.Pending

/-
  The pending entry of one connection: where it is found,
  what buffering an Initial leaves there, and that no
  connection has two.

  Main declarations:
    * `PendingTable.held`
    * `PendingTable.getEntry_cases`
    * `bufferInitial_held`
    * `PendingTable.Inv`
    * `PendingTable.held_eq_some`
-/

------------------------------------------------------------
-- Entries By Connection
------------------------------------------------------------

namespace QuicSniRouter

open LinearProbing

variable {pending : PendingTable}

/- Two Initials of one source with the same two ids. -/
structure SameConnection
    (source : Sockaddr)
    (initial : Quic.Initial)
    (source' : Sockaddr)
    (initial' : Quic.Initial) : Prop where
  source : source.equals source' = true
  dcid : initial.dcid = initial'.dcid
  scid : initial.scid = initial'.scid

namespace PendingInitial

variable {entry : PendingInitial} {source source' : Sockaddr}
variable {initial initial' : Quic.Initial}

theorem matchesInitial_iff :
    entry.matchesInitial source initial = true ↔
      entry.source.equals source = true ∧
        entry.dcid = initial.dcid ∧
        entry.scid = initial.scid := by
  unfold matchesInitial
  rw [Bool.and_eq_true, Bool.and_eq_true, beq_iff_eq,
    beq_iff_eq, and_assoc]

theorem matchesInitial_start
    (source : Sockaddr)
    (initial : Quic.Initial)
    (now : Int) :
    (start source initial now).matchesInitial source
      initial = true :=
  matchesInitial_iff.mpr
    ⟨Sockaddr.equals_refl source, rfl, rfl⟩

/- One connection's Initials match the same entries. -/
theorem matchesInitial_congr
    (hSame : SameConnection source initial source' initial')
    (entry : PendingInitial) :
    entry.matchesInitial source' initial' =
      entry.matchesInitial source initial := by
  rw [Bool.eq_iff_iff, matchesInitial_iff,
    matchesInitial_iff, ← hSame.dcid, ← hSame.scid]
  constructor
  · rintro ⟨hSource, hIds⟩
    exact ⟨Sockaddr.equals_trans hSource
      (Sockaddr.equals_symm hSame.source), hIds⟩
  · rintro ⟨hSource, hIds⟩
    exact ⟨Sockaddr.equals_trans hSource hSame.source, hIds⟩

/- An entry that matches two Initials connects them. -/
theorem sameConnection_of_matches
    (hMatch : entry.matchesInitial source initial = true)
    (hMatch' : entry.matchesInitial source' initial' = true) :
    SameConnection source initial source' initial' := by
  rcases matchesInitial_iff.mp hMatch with
    ⟨hSource, hDcid, hScid⟩
  rcases matchesInitial_iff.mp hMatch' with
    ⟨hSource', hDcid', hScid'⟩
  exact ⟨Sockaddr.equals_trans
    (Sockaddr.equals_symm hSource) hSource',
    hDcid.symm.trans hDcid', hScid.symm.trans hScid'⟩

/- Buffering a datagram keeps the names of an entry. -/
theorem matchesInitial_append
    (entry : PendingInitial)
    (packet : Bytes)
    (source : Sockaddr)
    (initial : Quic.Initial) :
    (entry.appendPacket packet).matchesInitial source
        initial =
      entry.matchesInitial source initial := by
  unfold appendPacket
  split
  · rfl
  · split
    · rfl
    · split
      · rfl
      · rfl

end PendingInitial

namespace PendingTable

variable {test : Option PendingInitial → Bool}

/- The test by which the entry of an Initial is found. -/
def isOf
    (source : Sockaddr)
    (initial : Quic.Initial) :
    Option PendingInitial → Bool
| some entry => entry.matchesInitial source initial
| none => false

/- The entry of a connection, if there is one. -/
def held
    (table : PendingTable)
    (source : Sockaddr)
    (initial : Quic.Initial) : Option PendingInitial :=
  (table.findCell (isOf source initial)).bind table.entries

variable {table : PendingTable} {source source' : Sockaddr}
variable {initial initial' : Quic.Initial}

theorem held_congr
    (hSame : SameConnection source initial source' initial')
    (table : PendingTable) :
    table.held source' initial' =
      table.held source initial := by
  have hTest : isOf source' initial' = isOf source initial := by
    funext cell
    cases cell with
    | none => rfl
    | some entry =>
        exact PendingInitial.matchesInitial_congr hSame entry
  unfold held
  rw [hTest]

theorem findCell_eq_some
    {i : Nat} :
    table.findCell test = some i ↔
      test (table.entries i) = true ∧
        i < pendingInitialCapacity ∧
        ∀ j < i, test (table.entries j) = false := by
  unfold findCell
  rw [List.find?_range_eq_some, List.mem_range]
  simp only [Bool.not_eq_eq_eq_not, Bool.not_true]

theorem findCell_eq_none :
    table.findCell test = none ↔
      ∀ i < pendingInitialCapacity,
        test (table.entries i) = false := by
  unfold findCell
  rw [List.find?_eq_none]
  simp only [List.mem_range, Bool.not_eq_true]

theorem isOf_eq_true
    {cell : Option PendingInitial} :
    isOf source initial cell = true ↔
      ∃ entry, cell = some entry ∧
        entry.matchesInitial source initial = true := by
  cases cell with
  | none => simp [isOf]
  | some entry => simp [isOf]

/- How the entry of an Initial is got. -/
inductive Got
    (table : PendingTable)
    (source : Sockaddr)
    (initial : Quic.Initial)
    (now : Int) :
    Nat × PendingInitial × PendingTable → Prop
  | old
      (i : Nat)
      (entry : PendingInitial)
      (hCell : table.findCell (isOf source initial) = some i)
      (hEntry : table.entries i = some entry) :
      Got table source initial now
        (i, { entry with lastSeen := now }, table)
  | new
      (i nextEvict : Nat)
      (hCell : table.findCell (isOf source initial) = none)
      (hInside : i < pendingInitialCapacity) :
      Got table source initial now
        (i, PendingInitial.start source initial now,
          { table with nextEvict })

theorem getEntry_cases
    (table : PendingTable)
    (source : Sockaddr)
    (initial : Quic.Initial)
    (now : Int) :
    Got table source initial now
      (table.getEntry source initial now) := by
  unfold getEntry
  dsimp only
  split
  · rename_i i hCell
    have hTest :
        isOf source initial (table.entries i) = true :=
      (findCell_eq_some.mp hCell).1
    rcases isOf_eq_true.mp hTest with ⟨entry, hEntry, _⟩
    rw [hEntry]
    exact Got.old i entry hCell hEntry
  · rename_i hCell
    cases hFree : table.findCell Option.isNone with
    | some i =>
        exact Got.new i table.nextEvict hCell
          (findCell_eq_some.mp hFree).2.1
    | none =>
        exact Got.new _ (table.nextEvict + 1) hCell
          (Nat.mod_lt _ (by decide))

/- What is got is the entry held so far or a new one. -/
theorem getEntry_held
    (table : PendingTable)
    (source : Sockaddr)
    (initial : Quic.Initial)
    (now : Int) :
    (table.getEntry source initial now).2.1 =
      match table.held source initial with
      | some entry => { entry with lastSeen := now }
      | none =>
          PendingInitial.start source initial now := by
  have hGot := getEntry_cases table source initial now
  unfold held
  generalize table.getEntry source initial now = found
    at hGot
  cases hGot with
  | old i entry hCell hEntry =>
      rw [hCell, Option.bind_some, hEntry]
  | new i nextEvict hCell hInside =>
      rw [hCell, Option.bind_none]

theorem getEntry_inside
    (table : PendingTable)
    (source : Sockaddr)
    (initial : Quic.Initial)
    (now : Int) :
    (table.getEntry source initial now).1 <
      pendingInitialCapacity := by
  have hGot := getEntry_cases table source initial now
  generalize table.getEntry source initial now = found
    at hGot
  cases hGot with
  | old i entry hCell hEntry =>
      exact (findCell_eq_some.mp hCell).2.1
  | new i nextEvict hCell hInside => exact hInside

@[simp] theorem getEntry_entries
    (table : PendingTable)
    (source : Sockaddr)
    (initial : Quic.Initial)
    (now : Int) :
    (table.getEntry source initial now).2.2.entries =
      table.entries := by
  have hGot := getEntry_cases table source initial now
  generalize table.getEntry source initial now = found
    at hGot
  cases hGot with
  | old i entry hCell hEntry => rfl
  | new i nextEvict hCell hInside => rfl

/- No earlier cell has an entry of the connection. -/
theorem getEntry_first
    (table : PendingTable)
    (source : Sockaddr)
    (initial : Quic.Initial)
    (now : Int) :
    ∀ j < (table.getEntry source initial now).1,
      isOf source initial (table.entries j) = false := by
  have hGot := getEntry_cases table source initial now
  generalize table.getEntry source initial now = found
    at hGot
  cases hGot with
  | old i entry hCell hEntry =>
      exact (findCell_eq_some.mp hCell).2.2
  | new i nextEvict hCell hInside =>
      intro j hj
      exact findCell_eq_none.mp hCell j
        (Nat.lt_trans hj hInside)

/- An entry stored where it was got is the one held. -/
theorem store_held
    {now : Int}
    {entry : PendingInitial}
    (hMatch : entry.matchesInitial source initial = true) :
    let found := table.getEntry source initial now
    (found.2.2.store found.1 entry).held source initial =
      some entry := by
  intro found
  have hCell :
      (found.2.2.store found.1 entry).findCell
        (isOf source initial) = some found.1 := by
    refine findCell_eq_some.mpr
      ⟨?_, table.getEntry_inside source initial now, ?_⟩
    · unfold store
      dsimp only
      rw [fill_self]
      exact hMatch
    · intro j hj
      unfold store
      dsimp only
      rw [fill_of_ne _ _ (by omega), getEntry_entries]
      exact table.getEntry_first source initial now j hj
  unfold held
  rw [hCell, Option.bind_some]
  exact fill_self _ _ _

end PendingTable

/- The buffered entry is one of its Initial. -/
theorem bufferInitial_matches
    (pending : PendingTable)
    (packet : Bytes)
    (initial : Quic.Initial)
    (source : Sockaddr)
    (now : Int)
    (crypto : Quic.CryptoStream) :
    (bufferInitial pending packet initial source now
      crypto).2.1.matchesInitial source initial = true := by
  have hGot := pending.getEntry_cases source initial now
  have hMatch :
      (pending.getEntry source initial
        now).2.1.matchesInitial source initial = true := by
    generalize pending.getEntry source initial now = found
      at hGot
    cases hGot with
    | old i entry hCell hEntry =>
        have hTest :=
          (PendingTable.findCell_eq_some.mp hCell).1
        rw [hEntry] at hTest
        exact hTest
    | new i nextEvict hCell hInside =>
        exact PendingInitial.matchesInitial_start _ _ _
  exact (PendingInitial.matchesInitial_append _ _ _
    _).trans hMatch

/- The buffered entry is the one held afterwards. -/
theorem bufferInitial_held
    (pending : PendingTable)
    (packet : Bytes)
    (initial : Quic.Initial)
    (source : Sockaddr)
    (now : Int)
    (crypto : Quic.CryptoStream) :
    let buffered :=
      bufferInitial pending packet initial source now crypto
    buffered.2.2.held source initial = some buffered.2.1 :=
  PendingTable.store_held (bufferInitial_matches _ _ _ _ _ _)

namespace PendingTable

variable {entry other : PendingInitial} {j : Nat} {now : Int}

/- Entries are in the array, one for each connection. -/
structure Inv
    (table : PendingTable) : Prop where
  inside :
    ∀ i entry, table.entries i = some entry →
      i < pendingInitialCapacity
  unique :
    ∀ i j a b source initial, table.entries i = some a →
      table.entries j = some b →
      a.matchesInitial source initial = true →
      b.matchesInitial source initial = true → i = j

variable {table : PendingTable} {source : Sockaddr}
variable {initial : Quic.Initial}

theorem init_inv :
    init.Inv where
  inside := by
    intro i entry hEntry
    cases hEntry
  unique := by
    intro i j a b source initial hA
    cases hA

/- A table with fewer entries keeps the invariant. -/
theorem Inv.of_sub
    {fewer : PendingTable}
    (hInv : table.Inv)
    (hSub :
      ∀ i entry, fewer.entries i = some entry →
        table.entries i = some entry) :
    fewer.Inv where
  inside := fun i entry hEntry =>
    hInv.inside i entry (hSub i entry hEntry)
  unique := fun i j a b source initial hA hB =>
    hInv.unique i j a b source initial (hSub i a hA)
      (hSub j b hB)

/- The entry held is the one that matches. -/
theorem held_eq_some
    (hInv : table.Inv) :
    table.held source initial = some entry ↔
      ∃ i, table.entries i = some entry ∧
        entry.matchesInitial source initial = true := by
  unfold held
  constructor
  · intro hHeld
    rcases Option.bind_eq_some_iff.mp hHeld with
      ⟨i, hCell, hEntry⟩
    have hTest := (findCell_eq_some.mp hCell).1
    rw [hEntry] at hTest
    exact ⟨i, hEntry, hTest⟩
  · rintro ⟨i, hEntry, hMatch⟩
    have hCell :
        table.findCell (isOf source initial) = some i := by
      refine findCell_eq_some.mpr
        ⟨isOf_eq_true.mpr ⟨entry, hEntry, hMatch⟩,
          hInv.inside i entry hEntry, ?_⟩
      intro j hj
      by_contra hOther
      rw [Bool.not_eq_false] at hOther
      rcases isOf_eq_true.mp hOther with
        ⟨other, hStored, hOtherMatch⟩
      have hSame :=
        hInv.unique j i other entry source initial hStored
          hEntry hOtherMatch hMatch
      omega
    rw [hCell, Option.bind_some]
    exact hEntry

theorem remove_sub
    (table : PendingTable)
    (i : Nat) :
    ∀ j entry, (table.remove i).entries j = some entry →
      table.entries j = some entry := by
  intro j entry hEntry
  unfold remove at hEntry
  split at hEntry
  · exact (vacate_eq_some hEntry).2
  · exact hEntry

theorem expire_sub
    (table : PendingTable)
    (now : Int) :
    ∀ j entry, (table.expire now).entries j = some entry →
      table.entries j = some entry := by
  intro j entry hEntry
  exact (Option.filter_eq_some_iff.mp hEntry).1

/- All entries of a connection are where it is got. -/
theorem Inv.only
    (now : Int)
    (hInv : table.Inv)
    (hOther : table.entries j = some other)
    (hMatch : other.matchesInitial source initial = true) :
    j = (table.getEntry source initial now).1 := by
  have hGot := getEntry_cases table source initial now
  generalize table.getEntry source initial now = found
    at hGot
  cases hGot with
  | old i old hCell hEntry =>
      have hTest := (findCell_eq_some.mp hCell).1
      rw [hEntry] at hTest
      exact hInv.unique j i other old source initial hOther
        hEntry hMatch hTest
  | new i nextEvict hCell hInside =>
      have hMiss :=
        findCell_eq_none.mp hCell j
          (hInv.inside j other hOther)
      rw [isOf_eq_true.mpr ⟨other, hOther, hMatch⟩] at hMiss
      cases hMiss

/- A cell after storing is the stored one or an old one. -/
theorem store_cases
    (hCell :
      ((table.getEntry source initial now).2.2.store
        (table.getEntry source initial now).1
        entry).entries j = some other) :
    (j = (table.getEntry source initial now).1 ∧
        other = entry) ∨
      (j ≠ (table.getEntry source initial now).1 ∧
        table.entries j = some other) := by
  unfold store at hCell
  dsimp only at hCell
  rw [getEntry_entries] at hCell
  exact fill_eq_some hCell

/- Storing an entry where it was got keeps entries apart. -/
theorem Inv.store
    (hInv : table.Inv)
    (hMatch : entry.matchesInitial source initial = true) :
    let found := table.getEntry source initial now
    (found.2.2.store found.1 entry).Inv := by
  intro found
  refine ⟨?_, ?_⟩
  · intro j other hOther
    rcases store_cases hOther with ⟨hj, _⟩ | ⟨_, hOld⟩
    · rw [hj]
      exact table.getEntry_inside source initial now
    · exact hInv.inside j other hOld
  · intro i j a b source' initial' hA hB hMatchA hMatchB
    rcases store_cases hA with ⟨hi, hEqA⟩ | ⟨hi, hOldA⟩
    · rcases store_cases hB with ⟨hj, _⟩ | ⟨_, hOldB⟩
      · rw [hi, hj]
      · rw [hEqA] at hMatchA
        have hSame :=
          PendingInitial.sameConnection_of_matches hMatch
            hMatchA
        rw [PendingInitial.matchesInitial_congr hSame]
          at hMatchB
        rw [hi, hInv.only now hOldB hMatchB]
    · rcases store_cases hB with ⟨hj, hEqB⟩ | ⟨_, hOldB⟩
      · rw [hEqB] at hMatchB
        have hSame :=
          PendingInitial.sameConnection_of_matches hMatch
            hMatchB
        rw [PendingInitial.matchesInitial_congr hSame]
          at hMatchA
        rw [hj, hInv.only now hOldA hMatchA]
      · exact hInv.unique i j a b source' initial' hOldA
          hOldB hMatchA hMatchB

end PendingTable

theorem bufferInitial_inv
    (packet : Bytes)
    (initial : Quic.Initial)
    (source : Sockaddr)
    (now : Int)
    (crypto : Quic.CryptoStream)
    (hInv : pending.Inv) :
    (bufferInitial pending packet initial source now
      crypto).2.2.Inv :=
  hInv.store (bufferInitial_matches _ _ _ _ _ _)

/- Another connection's entry is the one of before. -/
theorem bufferInitial_other
    {packet : Bytes}
    {initial other : Quic.Initial}
    {source source' : Sockaddr}
    {now : Int}
    {crypto : Quic.CryptoStream}
    {entry : PendingInitial}
    (hInv : pending.Inv)
    (hOther : ¬ SameConnection source initial source' other)
    (hHeld :
      (bufferInitial pending packet other source' now
        crypto).2.2.held source initial = some entry) :
    pending.held source initial = some entry := by
  have hAfter :=
    bufferInitial_inv packet other source' now crypto hInv
  rcases (PendingTable.held_eq_some hAfter).mp hHeld with
    ⟨i, hEntry, hMatch⟩
  rcases PendingTable.store_cases hEntry with
    ⟨_, hEq⟩ | ⟨_, hOld⟩
  · rw [hEq] at hMatch
    exact absurd
      (PendingInitial.sameConnection_of_matches hMatch
        (bufferInitial_matches pending packet other source'
          now crypto)) hOther
  · exact (PendingTable.held_eq_some hInv).mpr
      ⟨i, hOld, hMatch⟩

/- Freeing the cell of an entry frees its connection. -/
theorem bufferInitial_freed
    (packet : Bytes)
    (initial : Quic.Initial)
    (source : Sockaddr)
    (now : Int)
    (crypto : Quic.CryptoStream)
    (hInv : pending.Inv) :
    let buffered :=
      bufferInitial pending packet initial source now crypto
    (buffered.2.2.remove buffered.1).held source initial =
      none := by
  intro buffered
  have hAfter :=
    bufferInitial_inv packet initial source now crypto hInv
  have hInside : buffered.1 < pendingInitialCapacity :=
    pending.getEntry_inside source initial now
  cases hHeld :
      (buffered.2.2.remove buffered.1).held source
        initial with
  | none => rfl
  | some entry =>
      rcases (PendingTable.held_eq_some
          (hAfter.of_sub
            (PendingTable.remove_sub _ _))).mp hHeld with
        ⟨i, hEntry, hMatch⟩
      have hStored :
          buffered.2.2.entries buffered.1 =
            some buffered.2.1 := fill_self _ _ _
      have hSame :=
        hAfter.unique i buffered.1 entry buffered.2.1 source
          initial (PendingTable.remove_sub _ _ i entry hEntry)
          hStored hMatch
          (bufferInitial_matches pending packet initial
            source now crypto)
      unfold PendingTable.remove at hEntry
      rw [if_pos hInside] at hEntry
      exact absurd hSame (vacate_eq_some hEntry).1

end QuicSniRouter
