import QuicSniRouter.Dataplane.State
import QuicSniRouter.FlowTable.Operations

/-
  What acquiring a flow does to the flow table and to the
  open descriptors, by the way it ends.

  Main declarations:
    * `closeSockets_eq_filter`
    * `Dataplane.Acquired`
    * `Dataplane.flowAcquire_cases`
    * `Dataplane.Acquired.frame`
    * `Dataplane.Acquired.flow`
    * `Dataplane.flowAcquire_elsewhere`
-/

------------------------------------------------------------
-- Closing Descriptors
------------------------------------------------------------

namespace QuicSniRouter

variable {sockets : List Socket} {events : List FlowEvent}
variable {fd : Int}

/- Exactly the descriptors that an event closes are gone. -/
theorem closeSockets_eq_filter
    (sockets : List Socket)
    (events : List FlowEvent) :
    closeSockets sockets events =
      sockets.filter
        (fun socket => .close socket.fd ∉ events) := by
  induction events generalizing sockets with
  | nil =>
      simp [closeSockets]
  | cons event events ih =>
      cases event with
      | onClose flow reason =>
          simp [closeSockets, ih]
      | close fd =>
          rw [closeSockets, ih, closeSocket,
            List.filter_filter]
          apply List.filter_congr
          intro socket _
          by_cases hFd : socket.fd = fd
          · simp [hFd]
          · simp [hFd]

theorem mem_closeSockets
    {socket : Socket} :
    socket ∈ closeSockets sockets events ↔
      socket ∈ sockets ∧ .close socket.fd ∉ events := by
  simp [closeSockets_eq_filter]

@[simp] theorem closeSockets_nil
    (sockets : List Socket) :
    closeSockets sockets [] = sockets := rfl

theorem closeSockets_append
    (sockets : List Socket)
    (first second : List FlowEvent) :
    closeSockets sockets (first ++ second) =
      closeSockets (closeSockets sockets first) second := by
  simp only [closeSockets_eq_filter, List.filter_filter]
  apply List.filter_congr
  intro socket _
  simp [Bool.and_comm]

theorem closeSocket_absent
    (hAbsent : fd ∉ sockets.map Socket.fd) :
    closeSocket sockets fd = sockets := by
  apply List.filter_eq_self.mpr
  intro socket hMem
  have hNe : socket.fd ≠ fd := by
    intro hEq
    exact hAbsent (List.mem_map.mpr ⟨socket, hMem, hEq⟩)
  simpa using hNe

/- Opening and then closing a new descriptor does nothing. -/
theorem closeSocket_fresh
    (family : Nat)
    (hFresh : fd ∉ sockets.map Socket.fd) :
    closeSocket ({ fd, family } :: sockets) fd =
      sockets := by
  have hRest := closeSocket_absent hFresh
  unfold closeSocket at hRest ⊢
  rw [List.filter_cons_of_neg (by simp), hRest]

theorem closeSockets_cons_closed
    (sockets : List Socket)
    (family : Nat)
    (hClosed : .close fd ∈ events) :
    closeSockets ({ fd, family } :: sockets) events =
      closeSockets sockets events := by
  simp only [closeSockets_eq_filter]
  rw [List.filter_cons_of_neg (by simpa using hClosed)]

/-
  The number that opening a flow's socket is given: by the
  first `socket` call, or by the second if there was none
  left for the first.
-/
def Answers.descriptor
    (answers : Answers) : Option Nat :=
  match answers.sockets with
  | .opened fd :: _ => some fd
  | .exhausted :: .opened fd :: _ => some fd
  | _ => none

namespace Dataplane

variable {env : Env}

/- Only flows, descriptors and answers may differ. -/
structure FlowFrame
    (before after : Dataplane) : Prop where
  config : after.config = before.config
  sessions : after.sessions = before.sessions
  pending : after.pending = before.pending
  queue : after.queue = before.queue
  mainFd : after.mainFd = before.mainFd
  enqueued : after.enqueued = before.enqueued
  wire : after.wire = before.wire

/- What one `socket` call leaves. -/
inductive SocketCall
    (dp : Dataplane)
    (family : Nat) :
    Except SocketResult Int × Dataplane → Prop
  | failed
      (result : SocketResult)
      (answers : Answers)
      (hRest :
        result = .exhausted →
          dp.answers.sockets = .exhausted :: answers.sockets)
      (hEpoll : answers.epollAdd = dp.answers.epollAdd) :
      SocketCall dp family
        (.error result, { dp with answers })
  | opened
      (fd : Nat)
      (answers : Answers)
      (hEpoll : answers.epollAdd = dp.answers.epollAdd)
      (hAnswer :
        dp.answers.sockets = .opened fd :: answers.sockets)
      (hFresh : (fd : Int) ∉ dp.sockets.map Socket.fd) :
      SocketCall dp family
        (.ok fd,
          { dp with
            answers
            sockets := { fd, family } :: dp.sockets })

/- What a call of `socket` can do. -/
theorem socket_cases
    (dp : Dataplane)
    (family : Nat) :
    SocketCall dp family (dp.socket family) := by
  unfold socket
  cases hAnswers : dp.answers.sockets with
  | nil =>
      exact SocketCall.failed .failed dp.answers
        (fun h => by cases h) rfl
  | cons result results =>
      cases result with
      | opened fd =>
          dsimp only
          split
          · exact SocketCall.failed .failed _
              (fun h => by cases h) rfl
          · rename_i hFresh
            exact SocketCall.opened fd _ rfl hAnswers hFresh
      | exhausted =>
          exact SocketCall.failed .exhausted _
            (fun _ => hAnswers) rfl
      | failed =>
          exact SocketCall.failed .failed _
            (fun h => by cases h) rfl

/- What opening the socket of a new flow leaves. -/
inductive SocketOpen
    (hash : Bytes → Nat)
    (dp : Dataplane)
    (family : Nat) :
    Option Int × Dataplane → Prop
  | failed
      (flows : FlowTable)
      (events : List FlowEvent)
      (answers : Answers)
      (hInv : flows.Inv hash)
      (hShrinks : FlowTable.Shrinks dp.flows flows events)
      (hSpared : FlowTable.Spared dp.flows flows) :
      SocketOpen hash dp family
        (none,
          { dp with
            flows, answers
            sockets := closeSockets dp.sockets events })
  | opened
      (fd : Nat)
      (flows : FlowTable)
      (events : List FlowEvent)
      (answers : Answers)
      (hInv : flows.Inv hash)
      (hShrinks : FlowTable.Shrinks dp.flows flows events)
      (hAnswer : dp.answers.descriptor = some fd)
      (hFresh :
        (fd : Int) ∉
          (closeSockets dp.sockets events).map Socket.fd)
      (hSpared : FlowTable.Spared dp.flows flows) :
      SocketOpen hash dp family
        (some fd,
          { dp with
            flows, answers
            sockets :=
              { fd, family } ::
                closeSockets dp.sockets events })

/- What opening a socket can do. -/
theorem flowSocketOpen_cases
    (dp : Dataplane)
    (family : Nat)
    (hInv : dp.flows.Inv env.hash) :
    SocketOpen env.hash dp family
      (dp.flowSocketOpen env family) := by
  have hSelf := FlowTable.Shrinks.refl dp.flows
  have hSame : FlowTable.Spared dp.flows dp.flows :=
    Or.inl rfl
  unfold flowSocketOpen
  have hCall := socket_cases dp family
  generalize dp.socket family = call at hCall ⊢
  cases hCall with
  | opened fd answers _ hAnswer hFresh =>
      have hDescriptor :
          dp.answers.descriptor = some fd := by
        unfold Answers.descriptor
        rw [hAnswer]
      exact SocketOpen.opened fd dp.flows [] answers hInv
        hSelf hDescriptor hFresh hSame
  | failed result answers hRest _ =>
      cases result with
      | opened fd =>
          exact SocketOpen.failed dp.flows [] answers hInv
            hSelf hSame
      | failed =>
          exact SocketOpen.failed dp.flows [] answers hInv
            hSelf hSame
      | exhausted =>
          rcases FlowTable.evictOldest_spec hInv with
            ⟨hAfter, hShrinks⟩
          have hSpared := FlowTable.evictOldest_spared hInv
          dsimp only [withFlows]
          split
          · have hAgain :=
              socket_cases
                { dp with
                  answers
                  flows :=
                    (dp.flows.evictOldest env.hash).2.1
                  sockets :=
                    closeSockets dp.sockets
                      (dp.flows.evictOldest env.hash).2.2 }
                family
            generalize Dataplane.socket _ family = again
              at hAgain ⊢
            cases hAgain with
            | opened fd answers' _ hAnswer hFresh =>
                have hDescriptor :
                    dp.answers.descriptor = some fd := by
                  dsimp only at hAnswer
                  unfold Answers.descriptor
                  rw [hRest rfl, hAnswer]
                exact SocketOpen.opened fd _ _ answers'
                  hAfter hShrinks hDescriptor hFresh hSpared
            | failed result' answers' hRest' _ =>
                exact SocketOpen.failed _ _ answers' hAfter
                  hShrinks hSpared
          · exact SocketOpen.failed _ _ answers hAfter
              hShrinks hSpared

------------------------------------------------------------
-- Acquiring A Flow
------------------------------------------------------------

open LinearProbing

/-
  The four ways in which acquiring a flow ends: the flow of
  the client is re-aimed; no flow is stored; a flow is
  stored but taken back when epoll refuses it; a flow is
  created on a new descriptor.
-/
inductive Acquired
    (hash : Bytes → Nat)
    (dp : Dataplane)
    (client backend : Sockaddr)
    (now : Int) :
    Option Nat × Dataplane → Prop
  | reaimed
      (slot : Nat)
      (flow : Flow)
      (hSlot : slot < dp.flows.capacity)
      (hFlow : dp.flows.flows slot = some flow)
      (hClient : flow.client.equals client = true)
      (hGet : dp.flows.get hash client = some slot) :
      Acquired hash dp client backend now
        (some slot,
          { dp with
            flows :=
              dp.flows.setFlow slot
                (reaim flow backend now) })
  | failed
      (flows : FlowTable)
      (events : List FlowEvent)
      (answers : Answers)
      (hInv : flows.Inv hash)
      (hShrinks : FlowTable.Shrinks dp.flows flows events)
      (hGet : dp.flows.get hash client = none)
      (hLoses :
        FlowTable.LosesAtMostOne dp.flows.flows flows.flows) :
      Acquired hash dp client backend now
        (none,
          { dp with
            flows, answers
            sockets := closeSockets dp.sockets events })
  | dropped
      (base flows : FlowTable)
      (events : List FlowEvent)
      (answers : Answers)
      (fd : Nat)
      (s p : Nat)
      (rest : List Nat)
      (hInv : flows.Inv hash)
      (hShrinks : FlowTable.Shrinks dp.flows base events)
      (hBase : base.flows s = none)
      (hRemoved :
        FlowTable.RemovedAt
          (base.inserted
            (base.newFlow client backend fd now) s p rest)
          s flows)
      (hGet : dp.flows.get hash client = none)
      (hLoses :
        FlowTable.LosesAtMostOne dp.flows.flows base.flows) :
      Acquired hash dp client backend now
        (none,
          { dp with
            flows, answers
            sockets := closeSockets dp.sockets events })
  | created
      (middle base : FlowTable)
      (first second : List FlowEvent)
      (answers : Answers)
      (fd : Nat)
      (s p : Nat)
      (rest : List Nat)
      (hValid : FlowTable.putValid client backend fd = true)
      (hAbsent : dp.flows.Absent client)
      (hFirst : FlowTable.Shrinks dp.flows middle first)
      (hSecond : FlowTable.Shrinks middle base second)
      (hSlot : s < dp.flows.capacity)
      (hBase : base.flows s = none)
      (hInv :
        (base.inserted
          (base.newFlow client backend fd now) s p
            rest).Inv hash)
      (hAnswer : dp.answers.descriptor = some fd)
      (hFresh :
        (fd : Int) ∉
          (closeSockets dp.sockets first).map Socket.fd)
      (hGet : dp.flows.get hash client = none)
      (hLoses :
        FlowTable.LosesAtMostOne dp.flows.flows base.flows) :
      Acquired hash dp client backend now
        (some s,
          { dp with
            flows :=
              base.inserted
                (base.newFlow client backend fd now) s p
                rest
            answers
            sockets :=
              closeSockets
                ({ fd
                   family := backend.storage.ssFamily } ::
                  closeSockets dp.sockets first)
                second })

theorem get_none_absent
    {table : FlowTable}
    {client : Sockaddr}
    (hInv : table.Inv env.hash)
    (hValid : client.valid = true)
    (hGet : table.get env.hash client = none) :
    table.Absent client := by
  apply (FlowTable.absent_iff hInv).mp
  simpa [FlowTable.get, hValid] using hGet

/- After epoll refuses the socket of a flow just stored. -/
theorem acquired_dropped
    {dp : Dataplane}
    {client backend : Sockaddr}
    {now : Int}
    {middle base : FlowTable}
    {first second : List FlowEvent}
    {answers : Answers}
    {fd s p : Nat}
    {rest : List Nat}
    (hFirst : FlowTable.Shrinks dp.flows middle first)
    (hSecond : FlowTable.Shrinks middle base second)
    (hSlot : s < base.capacity)
    (hBase : base.flows s = none)
    (hInv :
      (base.inserted
        (base.newFlow client backend fd now) s p
          rest).Inv env.hash)
    (hFresh :
      (fd : Int) ∉
        (closeSockets dp.sockets first).map Socket.fd)
    (hGet : dp.flows.get env.hash client = none)
    (hLoses :
      FlowTable.LosesAtMostOne dp.flows.flows base.flows) :
    Acquired env.hash dp client backend now
      (none,
        withFlows
          { dp with
            answers
            flows :=
              base.inserted
                (base.newFlow client backend fd now) s p
                rest
            sockets :=
              closeSockets
                ({ fd
                   family := backend.storage.ssFamily } ::
                  closeSockets dp.sockets first)
                second }
          ((base.inserted
            (base.newFlow client backend fd now) s p
              rest).remove env.hash s)) := by
  have hCell :
      (base.inserted
        (base.newFlow client backend fd now) s p
          rest).flows s =
        some (base.newFlow client backend fd now) :=
    fill_self _ _ _
  rcases FlowTable.removeSlot_spec .removed hInv hSlot
      hCell with
    ⟨hAfter, hRemoved, hEvents⟩
  have hClose :
      ((base.inserted
        (base.newFlow client backend fd now) s p
          rest).removeSlot env.hash s .removed).2 =
        [.onClose (base.newFlow client backend fd now)
            .removed,
          .close (fd : Int)] := by
    rw [hEvents]
    simp [FlowTable.closeFd, FlowTable.newFlow]
  -- The new descriptor is closed last and was not open before.
  have hAbsent :
      (fd : Int) ∉
        (closeSockets dp.sockets
          (first ++ second)).map Socket.fd := by
    rw [closeSockets_append]
    intro hMem
    rcases List.mem_map.mp hMem with ⟨socket, hIn, hEq⟩
    exact hFresh
      (List.mem_map.mpr
        ⟨socket, (mem_closeSockets.mp hIn).1, hEq⟩)
  have hSockets :
      closeSockets
          (closeSockets
            ({ fd := (fd : Int)
               family := backend.storage.ssFamily } ::
              closeSockets dp.sockets first)
            second)
          [.onClose (base.newFlow client backend fd now)
              .removed,
            .close (fd : Int)] =
        closeSockets dp.sockets (first ++ second) := by
    rw [← closeSockets_append,
      closeSockets_cons_closed _ _ (by simp),
      ← closeSockets_append, ← List.append_assoc,
      closeSockets_append]
    exact closeSocket_absent hAbsent
  have hRemove :
      (base.inserted
        (base.newFlow client backend fd now) s p
          rest).remove env.hash s =
        (base.inserted
          (base.newFlow client backend fd now) s p
            rest).removeSlot env.hash s .removed :=
    if_pos hSlot
  unfold withFlows
  rw [hRemove, hClose, hSockets]
  exact Acquired.dropped base _ (first ++ second) answers
    fd s p rest hAfter (hFirst.trans hSecond) hBase
    hRemoved hGet hLoses

/- What acquiring a flow can do. -/
theorem flowAcquire_cases
    (dp : Dataplane)
    (client backend : Sockaddr)
    (now : Int)
    (hInv : dp.flows.Inv env.hash) :
    Acquired env.hash dp client backend now
      (dp.flowAcquire env client backend now) := by
  unfold flowAcquire
  cases hGet : dp.flows.get env.hash client with
  | some slot =>
      rcases (FlowTable.get_eq_some hInv).mp hGet with
        ⟨_, hSlot, flow, hFlow, hClient⟩
      simp only [hFlow]
      exact Acquired.reaimed slot flow hSlot hFlow hClient
        hGet
  | none =>
      have hOpen :=
        flowSocketOpen_cases dp backend.storage.ssFamily hInv
      generalize
        dp.flowSocketOpen env backend.storage.ssFamily =
          opening at hOpen ⊢
      cases hOpen with
      | failed flows events answers hAfter hShrinks hSpared =>
          exact Acquired.failed flows events answers hAfter
            hShrinks hGet hSpared.losesAtMostOne
      | opened fd flows events answers hAfter hShrinks
          hAnswer hFresh hSpared =>
          dsimp only
          cases hPut :
              FlowTable.putValid client backend fd with
          | false =>
              rw [FlowTable.put_refused hPut]
              simp only [withFlows, closeSockets_nil]
              rw [closeSocket_fresh _ hFresh]
              exact Acquired.failed flows events answers
                hAfter hShrinks hGet hSpared.losesAtMostOne
          | true =>
              have hAbsent :=
                get_none_absent hInv
                  (FlowTable.valid_of_putValid hPut) hGet
              rcases @FlowTable.put_absent env.hash flows
                  client backend fd now hAfter hPut
                  (hShrinks.absent hAbsent) with
                ⟨base, second, s, p, rest, hStored, hRoom,
                  hTop, hVacant, hNew⟩
              have hSecond := (hRoom.spec hAfter).2.1
              have hLoses :=
                hRoom.losesAtMostOne hAfter hSpared
              have hSlot : s < dp.flows.capacity := by
                rw [← hShrinks.capacity, ← hSecond.capacity]
                exact hTop
              rw [hStored]
              by_cases hEpoll : answers.epollAdd = true
              · simp only [withFlows, hEpoll, if_true]
                exact Acquired.created flows base events
                  second answers fd s p rest hPut hAbsent
                  hShrinks hSecond hSlot hVacant hNew
                  hAnswer hFresh hGet hLoses
              · simp only [withFlows, hEpoll]
                exact acquired_dropped hShrinks hSecond hTop
                  hVacant hNew hFresh hGet hLoses

theorem Acquired.of_eq
    {dp : Dataplane}
    {client backend : Sockaddr}
    {now : Int}
    {result : Option Nat × Dataplane}
    (hAcquire :
      flowAcquire env dp client backend now = result)
    (hInv : dp.flows.Inv env.hash) :
    Acquired env.hash dp client backend now result := by
  rw [← hAcquire]
  exact flowAcquire_cases dp client backend now hInv

------------------------------------------------------------
-- What Callers Rely On
------------------------------------------------------------

variable {hash : Bytes → Nat} {dp : Dataplane}
variable {client backend : Sockaddr} {now : Int}
variable {result : Option Nat × Dataplane}

theorem Acquired.frame
    (hAcquired : Acquired hash dp client backend now result) :
    FlowFrame dp result.2 := by
  cases hAcquired <;>
    exact ⟨rfl, rfl, rfl, rfl, rfl, rfl, rfl⟩

theorem Acquired.inv
    (hAcquired : Acquired hash dp client backend now result)
    (hInv : dp.flows.Inv hash) :
    result.2.flows.Inv hash := by
  cases hAcquired with
  | reaimed slot flow hSlot hFlow hClient hGet =>
      exact FlowTable.setFlow_inv hInv hFlow rfl
  | failed flows events answers hAfter => exact hAfter
  | dropped base flows events answers fd s p rest hAfter =>
      exact hAfter
  | created middle base first second answers fd s p rest
      hValid hAbsent hFirst hSecond hSlot hBase hAfter =>
      exact hAfter

theorem Acquired.capacity
    (hAcquired : Acquired hash dp client backend now result) :
    result.2.flows.capacity = dp.flows.capacity := by
  cases hAcquired with
  | reaimed => rfl
  | failed flows events answers hAfter hShrinks =>
      exact hShrinks.capacity
  | dropped base flows events answers fd s p rest hAfter
      hShrinks hBase hRemoved =>
      exact hRemoved.capacity.trans hShrinks.capacity
  | created middle base first second answers fd s p rest
      hValid hAbsent hFirst hSecond =>
      exact hSecond.capacity.trans hFirst.capacity

/-
  The backend of a flow that was acquired: the one asked
  for, or an equal one that the client's flow had before.
-/
def AimsAt
    (dp : Dataplane)
    (client backend : Sockaddr)
    (flow : Flow) : Prop :=
  flow.backend = backend ∨
    (flow.backend.equals backend = true ∧
      ∃ s < dp.flows.capacity, ∃ old,
        dp.flows.flows s = some old ∧
          old.client.equals client = true ∧
          flow.backend = old.backend)

theorem AimsAt.equals
    {flow : Flow}
    (hAims : AimsAt dp client backend flow) :
    flow.backend.equals backend = true := by
  rcases hAims with hEq | ⟨hEquals, _⟩
  · rw [hEq]
    exact Sockaddr.equals_refl backend
  · exact hEquals

theorem reaim_aimsAt
    {slot : Nat}
    {flow : Flow}
    (backend : Sockaddr)
    (now : Int)
    (hSlot : slot < dp.flows.capacity)
    (hFlow : dp.flows.flows slot = some flow)
    (hClient : flow.client.equals client = true) :
    AimsAt dp client backend (reaim flow backend now) := by
  unfold AimsAt reaim
  dsimp only
  by_cases hEquals : flow.backend.equals backend = true
  · rw [if_pos hEquals]
    exact Or.inr ⟨hEquals, slot, hSlot, flow, hFlow, hClient,
      rfl⟩
  · rw [if_neg hEquals]
    exact Or.inl rfl

/- The acquired slot holds the client's flow, re-aimed. -/
theorem Acquired.flow
    {slot : Nat}
    (hAcquired : Acquired hash dp client backend now result)
    (hSome : result.1 = some slot) :
    slot < dp.flows.capacity ∧
      ∃ flow, result.2.flows.flows slot = some flow ∧
        flow.client.equals client = true ∧
        AimsAt dp client backend flow ∧
        flow.lastSeen = now := by
  cases hAcquired with
  | reaimed s flow hSlot hFlow hClient hGet =>
      cases hSome
      exact ⟨hSlot, reaim flow backend now,
        fill_self _ _ _, hClient,
        reaim_aimsAt backend now hSlot hFlow hClient, rfl⟩
  | failed => cases hSome
  | dropped => cases hSome
  | created middle base first second answers fd s p rest
      hValid hAbsent hFirst hSecond hSlot =>
      cases hSome
      exact ⟨hSlot, base.newFlow client backend fd now,
        fill_self _ _ _, Sockaddr.equals_refl _,
        Or.inl rfl, rfl⟩

/- Afterwards the flow of the client is found. -/
theorem Acquired.get
    {slot : Nat}
    (hAcquired : Acquired hash dp client backend now result)
    (hInv : dp.flows.Inv hash)
    (hSome : result.1 = some slot) :
    result.2.flows.get hash client = some slot := by
  have hAfter := hAcquired.inv hInv
  have hCapacity := hAcquired.capacity
  rcases hAcquired.flow hSome with
    ⟨hSlot, flow, hFlow, hClient, _⟩
  have hValid : client.valid = true := by
    cases hAcquired with
    | reaimed s old _ _ _ hGet =>
        exact ((FlowTable.get_eq_some hInv).mp hGet).1
    | failed => cases hSome
    | dropped => cases hSome
    | created middle base first second answers fd s p rest
        hPut =>
        exact FlowTable.valid_of_putValid hPut
  rw [← hCapacity] at hSlot
  exact (FlowTable.get_eq_some hAfter).mpr
    ⟨hValid, hSlot, flow, hFlow, hClient⟩

/- Every other flow is an old one. -/
theorem Acquired.others
    {t : Nat}
    {flow : Flow}
    (hAcquired : Acquired hash dp client backend now result)
    (hFlow : result.2.flows.flows t = some flow) :
    dp.flows.flows t = some flow ∨
      (result.1 = some t ∧ flow.client.equals client = true ∧
        flow.backend.equals backend = true) := by
  cases hAcquired with
  | reaimed slot old hSlot hOld hClient hGet =>
      rcases fill_eq_some hFlow with ⟨hts, hEq⟩ | ⟨_, hKept⟩
      · subst hts
        subst hEq
        exact Or.inr ⟨rfl, hClient,
          (reaim_aimsAt backend now hSlot hOld
            hClient).equals⟩
      · exact Or.inl hKept
  | failed flows events answers hAfter hShrinks =>
      exact Or.inl (hShrinks.flow hFlow)
  | dropped base flows events answers fd s p rest hAfter
      hShrinks hBase hRemoved =>
      left
      rw [hRemoved.flows] at hFlow
      rcases vacate_eq_some hFlow with ⟨hNe, hIn⟩
      rcases fill_eq_some hIn with ⟨hts, _⟩ | ⟨_, hKept⟩
      · exact absurd hts hNe
      · exact hShrinks.flow hKept
  | created middle base first second answers fd s p rest
      hValid hAbsent hFirst hSecond =>
      rcases fill_eq_some hFlow with ⟨hts, hEq⟩ | ⟨_, hKept⟩
      · subst hts
        subst hEq
        exact Or.inr ⟨rfl, Sockaddr.equals_refl _,
          Sockaddr.equals_refl _⟩
      · exact Or.inl (hFirst.flow (hSecond.flow hKept))

/- Other sessions and buffers beside the same flows. -/
def elsewhere
    (sessions : SessionTable)
    (pending : PendingTable)
    (dp : Dataplane) : Dataplane :=
  { dp with sessions, pending }

variable {env : Env} {sessions : SessionTable}
variable {pending : PendingTable}

theorem socket_elsewhere
    (dp : Dataplane)
    (family : Nat) :
    (dp.elsewhere sessions pending).socket family =
      ((dp.socket family).1,
        (dp.socket family).2.elsewhere sessions pending) := by
  unfold socket
  have hAnswers :
      (dp.elsewhere sessions pending).answers =
        dp.answers := rfl
  rw [hAnswers]
  cases dp.answers.sockets with
  | nil => rfl
  | cons result results =>
      cases result with
      | exhausted => rfl
      | failed => rfl
      | opened fd =>
          have hSockets :
              (dp.elsewhere sessions pending).sockets =
                dp.sockets := rfl
          dsimp only
          rw [hSockets]
          split
          · rfl
          · rfl

theorem flowSocketOpen_elsewhere
    (dp : Dataplane)
    (family : Nat) :
    (dp.elsewhere sessions pending).flowSocketOpen env
        family =
      ((dp.flowSocketOpen env family).1,
        (dp.flowSocketOpen env family).2.elsewhere sessions
          pending) := by
  unfold flowSocketOpen
  rw [socket_elsewhere]
  generalize dp.socket family = call
  rcases call with ⟨result, reached⟩
  cases result with
  | ok fd => rfl
  | error status =>
      cases status with
      | opened fd => rfl
      | failed => rfl
      | exhausted =>
          have hEvicted :
              (reached.elsewhere sessions
                pending).withFlows
                  (reached.flows.evictOldest env.hash).2 =
                (reached.withFlows
                  (reached.flows.evictOldest
                    env.hash).2).elsewhere sessions
                      pending := rfl
          have hFlows :
              (reached.elsewhere sessions pending).flows =
                reached.flows := rfl
          dsimp only
          rw [hFlows, hEvicted, socket_elsewhere]
          split
          · generalize Dataplane.socket _ family = again
            rcases again with ⟨result, reached'⟩
            cases result with
            | ok fd => rfl
            | error status => rfl
          · rfl

/- Acquiring a flow looks at neither and changes neither. -/
theorem flowAcquire_elsewhere
    (dp : Dataplane)
    (client backend : Sockaddr)
    (now : Int) :
    (dp.elsewhere sessions pending).flowAcquire env client
        backend now =
      ((dp.flowAcquire env client backend now).1,
        (dp.flowAcquire env client backend
          now).2.elsewhere sessions pending) := by
  have hFlows :
      (dp.elsewhere sessions pending).flows = dp.flows := rfl
  unfold flowAcquire
  rw [hFlows]
  cases dp.flows.get env.hash client with
  | some slot =>
      dsimp only
      cases dp.flows.flows slot with
      | some flow => rfl
      | none => rfl
  | none =>
      dsimp only
      rw [flowSocketOpen_elsewhere]
      generalize
        dp.flowSocketOpen env backend.storage.ssFamily =
          opening
      rcases opening with ⟨fd, reached⟩
      cases fd with
      | none => rfl
      | some fd =>
          have hReached :
              (reached.elsewhere sessions pending).flows =
                reached.flows := rfl
          dsimp only
          rw [hReached]
          cases (reached.flows.put env.hash client backend
              fd now).1 with
          | none => rfl
          | some slot =>
              cases hEpoll : reached.answers.epollAdd with
              | true => simp [withFlows, elsewhere, hEpoll]
              | false => simp [withFlows, elsewhere, hEpoll]

end Dataplane

end QuicSniRouter
