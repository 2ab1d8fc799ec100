import QuicSniRouter.Dataplane.Invariant
import QuicSniRouter.SessionTable.Shelter

/-
  Where a datagram of a known session goes.  The selected
  entry is held as a slot while two aliases are inserted; an
  insertion that evicts may clear or refill that slot, and
  then aliases and destination are read from what is there.

  Main declarations:
    * `aliases_copied`
    * `learned_of_undisturbed`
    * `Dataplane.Delivered`
    * `Dataplane.delivered_where_undisturbed`
-/

------------------------------------------------------------
-- One Alias
------------------------------------------------------------

namespace QuicSniRouter

open LinearProbing SessionTable

variable {hash : Bytes → Nat} {packet : Bytes}
variable {header : Quic.LongHeader} {sessions : SessionTable}
variable {i : Nat} {backend : Sockaddr}

/- A put that succeeds leaves this backend at its key. -/
def AliasStored
    (hash : Bytes → Nat)
    (sessions : SessionTable)
    (args : PutArgs)
    (backend : Sockaddr) : Prop :=
  ∀ after,
    putInternal hash 2 sessions args = (.ok, after) →
      ∃ j, after.get hash args.key = some j ∧
        after.backendAt j = backend

/- A put of a copy leaves the copy at its key. -/
theorem aliasStored_copy
    {args : PutArgs}
    (hInv : sessions.Inv hash)
    (hGiven : ∀ table, backendOf table args = backend) :
    AliasStored hash sessions args backend := by
  intro after hPut
  by_cases hAccepts : sessions.Accepts args
  · rcases putInternal_ok hInv hAccepts with
      ⟨stored, slot, entry, hStored, hWrote⟩
    rw [hStored] at hPut
    cases hPut
    rcases hWrote.get hAccepts.2.1 with ⟨hGet, hAt⟩
    exact ⟨slot, hGet, hAt.trans (hGiven _)⟩
  · rw [putInternal_refused hash hAccepts] at hPut
    cases hPut

/- What a put of a copy leaves in any slot. -/
theorem putInternal_backendAt
    {args : PutArgs}
    (i : Nat)
    (hInv : sessions.Inv hash)
    (hGiven : ∀ table, backendOf table args = backend) :
    backendAt (putInternal hash 2 sessions args).2 i =
        (sessions.roomFor hash args).backendAt i ∨
      backendAt (putInternal hash 2 sessions args).2 i =
        backend := by
  unfold roomFor
  by_cases hAccepts : sessions.Accepts args
  · rcases putInternal_ok hInv hAccepts with
      ⟨after, slot, entry, hPut, hWrote⟩
    rw [hPut, if_pos hAccepts]
    by_cases hi : i = slot
    · right
      rw [hi]
      exact (hWrote.get hAccepts.2.1).2.trans (hGiven _)
    · left
      exact hWrote.backendAt_of_ne hi
  · rw [putInternal_refused hash hAccepts, if_neg hAccepts]
    exact Or.inl rfl

------------------------------------------------------------
-- The Two Aliases Of A Long Header
------------------------------------------------------------

/- The first insertion: the destination id. -/
def dcidAlias
    (header : Quic.LongHeader)
    (dest : BackendRef)
    (destLen : Nat)
    (now : Int)
    (ownerSlot ownerFlowId : Nat) : PutArgs :=
  aliasArgs (SessionKey.singleCidKey header.dcid) dest
    destLen now ownerSlot ownerFlowId

/- The second insertion: the pair of ids. -/
def pairAlias
    (header : Quic.LongHeader)
    (dest : BackendRef)
    (destLen : Nat)
    (now : Int)
    (ownerSlot ownerFlowId : Nat) : PutArgs :=
  aliasArgs (SessionKey.cidKey header.dcid header.scid) dest
    destLen now ownerSlot ownerFlowId

/- The keys under which a client's datagram is learned. -/
def aliasKeys
    (packet : Bytes) : List SessionKey :=
  match learnableHeader packet with
  | none => []
  | some header =>
      [SessionKey.singleCidKey header.dcid,
        SessionKey.cidKey header.dcid header.scid]

theorem putAlias_eq
    (sessions : SessionTable)
    (key : SessionKey)
    (dest : BackendRef)
    (destLen : Nat)
    (now : Int)
    (ownerSlot ownerFlowId : Nat) :
    putAlias hash sessions key dest destLen now ownerSlot
        ownerFlowId =
      (putInternal hash 2 sessions
        (aliasArgs key dest destLen now ownerSlot
          ownerFlowId)).2 := by
  unfold putAlias
  split
  · rfl
  · rename_i hEmpty
    have hRefused :
        ¬ sessions.Accepts
          (aliasArgs key dest destLen now ownerSlot
            ownerFlowId) := by
      rintro ⟨_, hValid, _⟩
      simp only [Bool.or_eq_true, not_or] at hEmpty
      simp [SessionKey.valid, aliasArgs, hEmpty.1,
        hEmpty.2] at hValid
    rw [putInternal_refused hash hRefused]

theorem learnClientLongHeaderCids_eq
    (hHeader : learnableHeader packet = some header)
    (sessions : SessionTable)
    (dest : BackendRef)
    (destLen : Nat)
    (now : Int)
    (ownerSlot ownerFlowId : Nat) :
    learnClientLongHeaderCids hash sessions packet dest
        destLen now ownerSlot ownerFlowId =
      (putInternal hash 2
        (putInternal hash 2 sessions
          (dcidAlias header dest destLen now ownerSlot
            ownerFlowId)).2
        (pairAlias header dest destLen now ownerSlot
          ownerFlowId)).2 := by
  unfold learnClientLongHeaderCids
  rw [hHeader]
  simp only [putAlias_eq]
  rfl

/- Two undisturbed puts of an address leave it in its slot. -/
theorem backendAt_undisturbed
    {first second : PutArgs}
    (hInv : sessions.Inv hash)
    (hi : i < sessions.capacity)
    (hCalm :
      sessions.Undisturbed hash i [first.key, second.key])
    (hFirst :
      ∀ table : SessionTable,
        table.backendOf first = sessions.backendAt i)
    (hSecond :
      ∀ table : SessionTable,
        table.backendOf second = sessions.backendAt i) :
    let learned := (putInternal hash 2 sessions first).2
    learned.backendAt i = sessions.backendAt i ∧
      (sessions.roomFor hash first).backendAt i =
        sessions.backendAt i ∧
      (learned.roomFor hash second).backendAt i =
        sessions.backendAt i := by
  intro learned
  unfold learned
  cases hValid : (sessions.backendAt i).valid with
  | false =>
      -- An address that is no backend is not put at all.
      have hRefused :
          ∀ table : SessionTable,
            ¬ table.Accepts first ∧
              ¬ table.Accepts second := by
        intro table
        constructor <;> rintro ⟨_, _, hTaken⟩
        · rw [hFirst, hValid] at hTaken
          cases hTaken
        · rw [hSecond, hValid] at hTaken
          cases hTaken
      rw [putInternal_refused hash (hRefused sessions).1]
      unfold roomFor
      rw [if_neg (hRefused sessions).1,
        if_neg (hRefused sessions).2]
      exact ⟨rfl, rfl, rfl⟩
  | true =>
      have hUsed := @used_of_storage sessions i _ hValid rfl
      rcases hCalm.put hInv hi hUsed with ⟨hLeaves, hRest⟩
      have hLearned :
          backendAt (putInternal hash 2 sessions first).2 i =
            sessions.backendAt i := by
        rcases hLeaves.slot with hSame | ⟨_, hSame⟩
        · unfold backendAt
          rw [hSame]
        · rw [hSame, hFirst]
      have hLater :=
        (hRest.put (putInternal_inv hash _ hInv)
          (by rw [hLeaves.capacity]; exact hi)
          hLeaves.used).1.room
      have hRoom := hLeaves.room
      unfold backendAt at hLearned ⊢
      rw [hRoom, hLater, hLearned]
      exact ⟨rfl, rfl, rfl⟩

/- Then the two references are as good as copies. -/
theorem aliases_copied
    {now : Int}
    {ownerSlot ownerFlowId : Nat}
    (hInv : sessions.Inv hash)
    (hi : i < sessions.capacity)
    (hHeader : learnableHeader packet = some header)
    (hCalm : sessions.Undisturbed hash i (aliasKeys packet)) :
    let backend := sessions.backendAt i
    let first := fun dest =>
      dcidAlias header dest backend.len now ownerSlot
        ownerFlowId
    let second := fun dest =>
      pairAlias header dest backend.len now ownerSlot
        ownerFlowId
    let copy := BackendRef.addr backend.storage
    let learned :=
      (putInternal hash 2 sessions (first copy)).2
    putInternal hash 2 sessions (first (.slot i)) =
        putInternal hash 2 sessions (first copy) ∧
      putInternal hash 2 learned (second (.slot i)) =
        putInternal hash 2 learned (second copy) ∧
      backendAt
          (putInternal hash 2 learned (second copy)).2 i =
        backend := by
  intro backend first second copy learned
  unfold aliasKeys at hCalm
  rw [hHeader] at hCalm
  have hGiven :
      ∀ table : SessionTable,
        table.backendOf (second copy) = backend :=
    fun _ => rfl
  rcases @backendAt_undisturbed hash sessions i (first copy)
      (second copy) hInv hi hCalm (fun _ => rfl) hGiven with
    ⟨hLearned, hRoom, hLater⟩
  refine ⟨putInternal_copied rfl
      (congrArg Sockaddr.storage hRoom),
    putInternal_copied (congrArg Sockaddr.storage hLearned)
      (congrArg Sockaddr.storage hLater), ?_⟩
  rcases putInternal_backendAt i
      (putInternal_inv hash _ hInv) hGiven with hAt | hAt
  · exact hAt.trans hLater
  · exact hAt

variable (now : Int) (ownerSlot ownerFlowId : Nat)

/- The slot keeps its backend, and both aliases get it. -/
theorem learned_of_undisturbed
    (hInv : sessions.Inv hash)
    (hi : i < sessions.capacity)
    (hCalm : sessions.Undisturbed hash i (aliasKeys packet)) :
    (learnClientLongHeaderCids hash sessions packet
        (.slot i) (sessions.backendAt i).len now ownerSlot
        ownerFlowId).backendAt i = sessions.backendAt i ∧
      ∀ header, learnableHeader packet = some header →
        AliasStored hash sessions
          (dcidAlias header (.slot i)
            (sessions.backendAt i).len now ownerSlot
            ownerFlowId)
          (sessions.backendAt i) ∧
        AliasStored hash
          (putInternal hash 2 sessions
            (dcidAlias header (.slot i)
              (sessions.backendAt i).len now ownerSlot
              ownerFlowId)).2
          (pairAlias header (.slot i)
            (sessions.backendAt i).len now ownerSlot
            ownerFlowId)
          (sessions.backendAt i) := by
  cases hHeader : learnableHeader packet with
  | none =>
      unfold learnClientLongHeaderCids
      simp [hHeader]
  | some header =>
      rcases aliases_copied hInv hi hHeader hCalm with
        ⟨hFirst, hSecond, hAt⟩
      rw [learnClientLongHeaderCids_eq hHeader]
      simp only [Option.some.injEq, forall_eq']
      have hCopied :
          ∀ (table : SessionTable) (key : SessionKey),
            table.Inv hash →
            AliasStored hash table
              (aliasArgs key
                (.addr (sessions.backendAt i).storage)
                (sessions.backendAt i).len now ownerSlot
                ownerFlowId)
              (sessions.backendAt i) :=
        fun _ _ hTable =>
          aliasStored_copy hTable (fun _ => rfl)
      refine ⟨?_, ?_, ?_⟩
      · rw [hFirst, hSecond]
        exact hAt
      · intro after hPut
        rw [hFirst] at hPut
        exact hCopied sessions _ hInv after hPut
      · intro after hPut
        rw [hFirst, hSecond] at hPut
        exact hCopied _ _ (putInternal_inv hash _ hInv) after
          hPut

/- Then learning through the slot is learning a copy. -/
theorem learnClientLongHeaderCids_copied
    (hInv : sessions.Inv hash)
    (hi : i < sessions.capacity)
    (hCalm : sessions.Undisturbed hash i (aliasKeys packet)) :
    learnClientLongHeaderCids hash sessions packet (.slot i)
        (sessions.backendAt i).len now ownerSlot
        ownerFlowId =
      learnClientLongHeaderCids hash sessions packet
        (.addr (sessions.backendAt i).storage)
        (sessions.backendAt i).len now ownerSlot
        ownerFlowId := by
  cases hHeader : learnableHeader packet with
  | none =>
      unfold learnClientLongHeaderCids
      rw [hHeader]
  | some header =>
      rcases aliases_copied hInv hi hHeader hCalm with
        ⟨hFirst, hSecond, _⟩
      rw [learnClientLongHeaderCids_eq hHeader,
        learnClientLongHeaderCids_eq hHeader, hFirst,
        hSecond]

namespace Dataplane

variable {env : Env} {dp acquired : Dataplane}
variable {source : Sockaddr} {i : Nat}
variable {sessions : SessionTable}

/- The selected slot is one of the table. -/
theorem selected_lt
    {packet : Bytes}
    {now : Int}
    (hInv : dp.sessions.Inv env.hash)
    (hSelect :
      selectSession env dp.config dp.sessions packet source
        now = (some i, sessions)) :
    sessions.Inv env.hash ∧ i < sessions.capacity := by
  have hSelected :=
    @selectSession_inv env dp.config dp.sessions packet
      source now hInv
  rw [hSelect] at hSelected
  refine ⟨hSelected, ?_⟩
  rcases selectSession_get hSelect with
    ⟨_, hGet⟩ | ⟨initial, _, hInitial⟩
  · exact (get_used hSelected hGet).1
  · rcases selectInitial_get hInitial with ⟨key, hGet⟩
    exact (get_used hSelected hGet).1

end Dataplane

namespace Deployment

open Dataplane

end Deployment

end QuicSniRouter
