import Mathlib.Logic.Function.Basic
import QuicSniRouter.Dataplane.State
import QuicSniRouter.Oracle

/-
  The batched sender on its arrays.  A flush goes through
  the runs of equal descriptors, fills the headers of a run
  and calls `sendmmsg` until the run is sent or a call fails.
  The bytes of a queued packet are those at the time of the
  enqueue: the buffers stay as they are until the flush.

  Main declarations:
    * `Sender.flush` and `Sender.enqueue`
    * `Attempt` and `Flushes`
    * `Sender.flush_ensures`
    * `Sender.flush_simulates`
    * `Sender.sends_in_order`
-/

------------------------------------------------------------
-- The Sender
------------------------------------------------------------

namespace QuicSniRouter

open Oracle

variable {α : Type} {p : α → Bool} {items rest : List α}

/- What the kernel is handed for one message. -/
structure Outgoing where
  fd : Int
  packet : Bytes
  dest : Sockaddr
deriving DecidableEq

/- What leaves when the item is sent. -/
def SendItem.outgoing
    (item : SendItem) : Outgoing where
  fd := item.fd
  packet := item.packet
  dest := item.dest

/-
  The pointers of a `struct mmsghdr`: the entry of `iovecs`
  that it points to, and the item whose `dest` is its name.
-/
structure MessageHeader where
  iov : Nat
  name : Nat

/- The local arrays of a flush. -/
structure Headers where
  iovecs : Nat → Bytes
  messages : Nat → MessageHeader

/- The array of the sender and how much is in use. -/
structure Sender where
  items : Nat → SendItem
  count : Nat

namespace Sender

/- An empty batch. -/
def init : Sender where
  items := fun _ =>
    { fd := 0, packet := [], dest := Sockaddr.zero
      origin := none }
  count := 0

/- Where the run of a descriptor ends. -/
def runEnd
    (sender : Sender)
    (fd : Int) :
    Nat → Nat → Nat
| 0, stop => stop
| fuel + 1, stop =>
    if stop < sender.count ∧ (sender.items stop).fd = fd then
      runEnd sender fd fuel (stop + 1)
    else
      stop

/- Fill the headers of one item. -/
def fillOne
    (sender : Sender)
    (headers : Headers)
    (i : Nat) : Headers where
  iovecs :=
    Function.update headers.iovecs i (sender.items i).packet
  messages :=
    Function.update headers.messages i { iov := i, name := i }

/- The headers of one run. -/
def fill
    (sender : Sender)
    (headers : Headers)
    (start stop : Nat) : Headers :=
  (List.range' start (stop - start)).foldl sender.fillOne
    headers

/- What message `i` denotes when it is sent on `fd`. -/
def handed
    (sender : Sender)
    (headers : Headers)
    (fd : Int)
    (i : Nat) : Outgoing where
  fd := fd
  packet := headers.iovecs (headers.messages i).iov
  dest := (sender.items (headers.messages i).name).dest

/-
  The calls for one run, from message `sent` on.  Of the
  messages it is given, the kernel takes as many as it says.
-/
def sendLoop
    (sender : Sender)
    (headers : Headers)
    (fd : Int)
    (stop : Nat) :
    List SendResult → Nat →
      Option (List Outgoing × List SendResult)
| [], sent => if sent < stop then none else some ([], [])
| result :: results, sent =>
    if sent < stop then
      match result with
      | .interrupted =>
          sendLoop sender headers fd stop results sent
      | .failed => some ([], results)
      | .sent n =>
          if n = 0 then
            some ([], results)
          else
            (sendLoop sender headers fd stop results
              (sent + n)).map
              (fun rest =>
                ((List.range' sent (min n (stop - sent))).map
                    (sender.handed headers fd) ++ rest.1,
                  rest.2))
    else
      some ([], result :: results)

/- One call for items of one descriptor. -/
def sendRun
    (sender : Sender)
    (headers : Headers)
    (fd : Int)
    (start stop : Nat) :
    Asks SendResult (List Outgoing) :=
  fun results =>
    sender.sendLoop headers fd stop results start

/- The runs from `start` on. -/
def flushFrom
    (sender : Sender) :
    Nat → Nat → Headers → Asks SendResult (List Outgoing)
| 0, _, _ => pure []
| fuel + 1, start, headers =>
    if start < sender.count then do
      let fd := (sender.items start).fd
      let stop := sender.runEnd fd sender.count (start + 1)
      let headers := sender.fill headers start stop
      let sent ← sender.sendRun headers fd start stop
      let rest ← flushFrom sender fuel stop headers
      return sent ++ rest
    else
      pure []

/- `sender_flush`, with the datagrams it hands over. -/
def flush
    (sender : Sender) :
    Asks SendResult (Sender × List Outgoing) :=
  if sender.count = 0 then
    pure (sender, [])
  else do
    let sent ←
      sender.flushFrom sender.count 0
        { iovecs := fun _ => []
          messages := fun _ => { iov := 0, name := 0 } }
    return ({ sender with count := 0 }, sent)

/- Write the next item. -/
def push
    (sender : Sender)
    (item : SendItem) : Sender where
  items := Function.update sender.items sender.count item
  count := sender.count + 1

/- `sender_enqueue`; a full sender is flushed first. -/
def enqueue
    (sender : Sender)
    (item : SendItem) :
    Asks SendResult (Sender × List Outgoing) :=
  if item.packet.length > maxDatagramSize then
    pure (sender, [])
  else if sender.count ≥ udpBatchSize then do
    let flushed ← sender.flush
    return (flushed.1.push item, flushed.2)
  else
    pure (sender.push item, [])

end Sender

/- What a sender is asked to do. -/
inductive SenderCall
  | enqueue (item : SendItem)
  | flush

namespace Sender

/- One call, with what it sends. -/
def call
    (sender : Sender) :
    SenderCall → Asks SendResult (Sender × List Outgoing)
| .enqueue item => sender.enqueue item
| .flush => sender.flush

/- Calls one after the other, with all that they hand over. -/
def run :
    List SenderCall → Sender →
      Asks SendResult (Sender × List Outgoing)
| [], sender => pure (sender, [])
| first :: calls, sender => do
    let called ← sender.call first
    let rest ← run calls called.1
    return (rest.1, called.2 ++ rest.2)

/- The items from `start` up to `stop`. -/
def slice
    (sender : Sender)
    (start stop : Nat) : List SendItem :=
  (List.range' start (stop - start)).map sender.items

/- The items that wait for a flush. -/
def queue
    (sender : Sender) : List SendItem :=
  sender.slice 0 sender.count

variable (sender : Sender) {start mid stop : Nat}

/- A slice is as long as its bounds say. -/
@[simp] theorem length_slice :
    (sender.slice start stop).length = stop - start := by
  simp [slice]

/- Adjacent slices. -/
theorem slice_append
    (hStart : start ≤ mid)
    (hStop : mid ≤ stop) :
    sender.slice start mid ++ sender.slice mid stop =
      sender.slice start stop := by
  unfold slice
  have hMid : mid = start + (mid - start) := by omega
  have hAll :
      stop - start = (mid - start) + (stop - mid) := by
    omega
  rw [hAll, ← List.range'_append_1, List.map_append, ← hMid]

theorem drop_slice
    (n : Nat) :
    (sender.slice start stop).drop n =
      sender.slice (start + n) stop := by
  unfold slice
  rw [← List.map_drop, List.drop_range', Nat.mul_one,
    Nat.sub_sub]

theorem take_slice
    (n : Nat) :
    (sender.slice start stop).take n =
      (List.range' start (min n (stop - start))).map
        sender.items := by
  unfold slice
  rw [← List.map_take]
  congr 1
  apply List.ext_getElem
  · simp
  · intro i _ _
    simp

/- Items of a slice stand between its bounds. -/
theorem mem_slice
    {item : SendItem}
    (hMem : item ∈ sender.slice start stop) :
    ∃ i, start ≤ i ∧ i < stop ∧ sender.items i = item := by
  unfold slice at hMem
  rcases List.mem_map.mp hMem with ⟨i, hRange, hItem⟩
  rw [List.mem_range'_1] at hRange
  exact ⟨i, hRange.1, by omega, hItem⟩

theorem slice_of_le
    (hLe : stop ≤ start) :
    sender.slice start stop = [] := by
  unfold slice
  rw [Nat.sub_eq_zero_of_le hLe]
  rfl

/- The first item of a slice. -/
theorem slice_cons
    (hLt : start < stop) :
    sender.slice start stop =
      sender.items start :: sender.slice (start + 1) stop := by
  unfold slice
  have hLength :
      stop - start = (stop - (start + 1)) + 1 := by
    omega
  rw [hLength, List.range'_succ, List.map_cons]

/- Writing behind the queue appends to it. -/
theorem queue_push
    (item : SendItem) :
    (sender.push item).queue = sender.queue ++ [item] := by
  have hOld :
      (sender.push item).slice 0 sender.count =
        sender.queue := by
    unfold queue slice push
    apply List.map_congr_left
    intro i hi
    rw [List.mem_range'_1] at hi
    exact Function.update_of_ne (by omega) _ _
  have hNew :
      (sender.push item).slice sender.count
          (sender.count + 1) =
        [item] := by
    rw [slice_cons _ (Nat.lt_succ_self _),
      slice_of_le _ (Nat.le_refl _)]
    simp [push]
  rw [← hOld, ← hNew,
    slice_append _ (Nat.zero_le _) (Nat.le_succ _)]
  rfl

end Sender

------------------------------------------------------------
-- One Run
------------------------------------------------------------

/- The call retries or makes progress. -/
def SendResult.progresses :
    SendResult → Bool
| .sent n => n != 0
| .interrupted => true
| .failed => false

/-
  The answers to the calls for a run of `m` messages, and
  how many messages the kernel said it took.
-/
inductive Answered :
    Nat → List SendResult → Nat → Prop
  | done : Answered 0 [] 0
  | interrupted
      {m n : Nat}
      {answers : List SendResult}
      (hRest : Answered (m + 1) answers n) :
      Answered (m + 1) (.interrupted :: answers) n
  | failed
      (m : Nat) :
      Answered (m + 1) [.failed] 0
  | nothing
      (m : Nat) :
      Answered (m + 1) [.sent 0] 0
  | sent
      {m k n : Nat}
      {answers : List SendResult}
      (hRest : Answered (m + 1 - (k + 1)) answers n) :
      Answered (m + 1) (.sent (k + 1) :: answers) (k + 1 + n)

namespace Answered

variable {m n : Nat} {answers : List SendResult}

/- Calls that all make progress send the whole run. -/
theorem complete
    (hAnswered : Answered m answers n)
    (hProgress : ∀ result ∈ answers, result.progresses) :
    m ≤ n := by
  induction hAnswered with
  | done => exact Nat.le_refl 0
  | interrupted _ ih =>
      apply ih
      intro result hResult
      exact hProgress result (List.mem_cons_of_mem _ hResult)
  | failed m =>
      have hFailed := hProgress _ List.mem_cons_self
      cases hFailed
  | nothing m =>
      have hNothing := hProgress _ List.mem_cons_self
      cases hNothing
  | sent _ ih =>
      have hRest := ih (by
        intro result hResult
        exact hProgress result
          (List.mem_cons_of_mem _ hResult))
      omega

/- A run is cut short only by its own last answer. -/
theorem cut
    (hAnswered : Answered m answers n)
    (hCut : n < m) :
    answers.getLast? = some .failed ∨
      answers.getLast? = some (.sent 0) := by
  induction hAnswered with
  | done => omega
  | interrupted _ ih =>
      exact (ih hCut).imp List.mem_getLast?_cons
        List.mem_getLast?_cons
  | failed m => exact Or.inl rfl
  | nothing m => exact Or.inr rfl
  | sent _ ih =>
      exact (ih (by omega)).imp List.mem_getLast?_cons
        List.mem_getLast?_cons

end Answered

namespace Sender

variable {sender : Sender} {headers : Headers} {fd : Int}
variable {start stop : Nat} {sent : Nat}
variable {answers : Nat → SendResult}

/- The loop ends when all is sent. -/
theorem sendLoop_done
    (hDone : stop ≤ sent)
    (results : List SendResult) :
    sender.sendLoop headers fd stop results sent =
      some ([], results) := by
  cases results with
  | nil => exact if_neg (Nat.not_lt_of_le hDone)
  | cons result results =>
      exact if_neg (Nat.not_lt_of_le hDone)

/- An interrupted call is made again. -/
theorem sendLoop_interrupted
    (hGo : sent < stop)
    (results : List SendResult) :
    sender.sendLoop headers fd stop
        (.interrupted :: results) sent =
      sender.sendLoop headers fd stop results sent :=
  if_pos hGo

/- A failed call ends the run. -/
theorem sendLoop_failed
    (hGo : sent < stop)
    (results : List SendResult) :
    sender.sendLoop headers fd stop (.failed :: results)
        sent =
      some ([], results) :=
  if_pos hGo

/- So does a call that sends nothing. -/
theorem sendLoop_nothing
    (hGo : sent < stop)
    (results : List SendResult) :
    sender.sendLoop headers fd stop (.sent 0 :: results)
        sent =
      some ([], results) :=
  if_pos hGo

/- A call that sends something is followed by more. -/
theorem sendLoop_sent
    (hGo : sent < stop)
    (n : Nat)
    (results : List SendResult) :
    sender.sendLoop headers fd stop
        (.sent (n + 1) :: results) sent =
      (sender.sendLoop headers fd stop results
        (sent + (n + 1))).map
        (fun rest =>
          ((List.range' sent (min (n + 1) (stop - sent))).map
              (sender.handed headers fd) ++ rest.1,
            rest.2)) :=
  if_pos hGo

/-
  A loop that has finished was done before, or went by its
  first answer.
-/
theorem sendLoop_cases
    {results left : List SendResult}
    {out : List Outgoing}
    (hRun :
      sender.sendLoop headers fd stop results sent =
        some (out, left)) :
    (stop ≤ sent ∧ out = [] ∧ left = results) ∨
      (sent < stop ∧ ∃ result rest, results = result :: rest ∧
        ((result = .interrupted ∧
            sender.sendLoop headers fd stop rest sent =
              some (out, left)) ∨
          ((result = .failed ∨ result = .sent 0) ∧
            out = [] ∧ left = rest) ∨
          ∃ n more, result = .sent (n + 1) ∧
            sender.sendLoop headers fd stop rest
              (sent + (n + 1)) = some (more, left) ∧
            out =
              (List.range' sent
                (min (n + 1) (stop - sent))).map
                (sender.handed headers fd) ++ more)) := by
  by_cases hGo : sent < stop
  · right
    refine ⟨hGo, ?_⟩
    cases results with
    | nil =>
        have hNone :
            sender.sendLoop headers fd stop [] sent = none :=
          if_pos hGo
        rw [hNone] at hRun
        cases hRun
    | cons result rest =>
        refine ⟨result, rest, rfl, ?_⟩
        cases result with
        | interrupted =>
            rw [sendLoop_interrupted hGo] at hRun
            exact Or.inl ⟨rfl, hRun⟩
        | failed =>
            rw [sendLoop_failed hGo] at hRun
            cases hRun
            exact Or.inr (Or.inl ⟨Or.inl rfl, rfl, rfl⟩)
        | sent n =>
            cases n with
            | zero =>
                rw [sendLoop_nothing hGo] at hRun
                cases hRun
                exact Or.inr (Or.inl ⟨Or.inr rfl, rfl, rfl⟩)
            | succ n =>
                rw [sendLoop_sent hGo] at hRun
                rcases Option.map_eq_some_iff.mp hRun with
                  ⟨more, hMore, hOut⟩
                cases hOut
                exact Or.inr (Or.inr
                  ⟨n, more.1, rfl, hMore, rfl⟩)
  · left
    rw [sendLoop_done (Nat.le_of_not_lt hGo)] at hRun
    cases hRun
    exact ⟨Nat.le_of_not_lt hGo, rfl, rfl⟩

/- Unused answers do not matter to a run. -/
theorem sendRun_stable :
    (sender.sendRun headers fd start stop).Stable := by
  intro results out left more hRun
  unfold sendRun at hRun ⊢
  induction results generalizing start out with
  | nil =>
      rcases sendLoop_cases hRun with
        ⟨hDone, hOut, hLeft⟩ | ⟨_, _, _, hNil, _⟩
      · rw [sendLoop_done hDone, hOut, hLeft]
      · cases hNil
  | cons result results ih =>
      rw [List.cons_append]
      rcases sendLoop_cases hRun with
        ⟨hDone, hOut, hLeft⟩ | ⟨hGo, _, _, hCons, hCases⟩
      · rw [sendLoop_done hDone, hOut, hLeft]
        rfl
      · cases hCons
        rcases hCases with
          ⟨hResult, hRest⟩ | ⟨hResult | hResult, hOut, hLeft⟩
            | ⟨n, out', hResult, hRest, hOut⟩
        · rw [hResult, sendLoop_interrupted hGo]
          exact ih _ hRest
        · rw [hResult, sendLoop_failed hGo, hOut, hLeft]
        · rw [hResult, sendLoop_nothing hGo, hOut, hLeft]
        · rw [hResult, sendLoop_sent hGo, ih _ hRest, hOut]
          rfl

/- Some answer always follows the interruptions. -/
def Awake
    (answers : Nat → SendResult) : Prop :=
  ∀ k, ∃ m ≥ k, answers m ≠ .interrupted

/- One answer that is no interruption. -/
theorem sendLoop_step
    {k : Nat}
    (hGo : sent < stop)
    (hAnswer : answers k ≠ .interrupted)
    (hRest :
      ∀ n, ∃ more out,
        sender.sendLoop headers fd stop
          (segment answers (k + 1) more)
          (sent + (n + 1)) = some (out, [])) :
    ∃ n out,
      sender.sendLoop headers fd stop (segment answers k n)
        sent = some (out, []) := by
  cases hResult : answers k with
  | interrupted => exact absurd hResult hAnswer
  | failed =>
      refine ⟨1, [], ?_⟩
      rw [segment_succ, hResult, sendLoop_failed hGo]
      rfl
  | sent n =>
      cases n with
      | zero =>
          refine ⟨1, [], ?_⟩
          rw [segment_succ, hResult, sendLoop_nothing hGo]
          rfl
      | succ n =>
          rcases hRest n with ⟨more, out, hMore⟩
          refine ⟨more + 1,
            (List.range' sent (min (n + 1) (stop - sent))).map
              (sender.handed headers fd) ++ out, ?_⟩
          rw [segment_succ, hResult, sendLoop_sent hGo, hMore]
          rfl

/- A run ends if calls are not forever interrupted. -/
theorem sendRun_finishes
    (hAwake : Awake answers) :
    (sender.sendRun headers fd start stop).Finishes
      answers := by
  intro k
  unfold sendRun
  -- Outside, the messages that are left; inside, the
  -- distance to the next answer that is no interruption.
  induction hLeft : stop - start using
    Nat.strong_induction_on generalizing k start with
  | _ left ihLeft =>
      by_cases hGo : start < stop
      · rcases hAwake k with ⟨m, hm, hAnswer⟩
        induction hWait : m - k generalizing k with
        | zero =>
            have hEq : m = k := by omega
            rw [hEq] at hAnswer
            apply sendLoop_step hGo hAnswer
            intro n
            exact ihLeft _ (by omega) (k + 1) rfl
        | succ wait ihWait =>
            by_cases hResult : answers k = .interrupted
            · rcases ihWait (k + 1) (by omega) (by omega) with
                ⟨more, out, hRest⟩
              refine ⟨more + 1, out, ?_⟩
              rw [segment_succ, hResult,
                sendLoop_interrupted hGo]
              exact hRest
            · apply sendLoop_step hGo hResult
              intro n
              exact ihLeft _ (by omega) (k + 1) rfl
      · exact ⟨0, [], sendLoop_done (Nat.le_of_not_lt hGo) _⟩

/-
  The calls for a run with filled headers hand over a front
  of the run, in order.
-/
theorem sendRun_ensures
    (hFilled :
      ∀ i, start ≤ i → i < stop →
        sender.handed headers fd i =
          (sender.items i).outgoing) :
    (sender.sendRun headers fd start stop).Ensures
      (fun used out =>
        ∃ n, Answered (stop - start) used n ∧
          out =
            ((sender.slice start stop).take n).map
              SendItem.outgoing) := by
  intro results out left hRun
  unfold sendRun at hRun
  induction results generalizing start out with
  | nil =>
      rcases sendLoop_cases hRun with
        ⟨hDone, hOut, hLeft⟩ | ⟨_, _, _, hNil, _⟩
      · refine ⟨[], hLeft.symm, 0, ?_, hOut⟩
        rw [Nat.sub_eq_zero_of_le hDone]
        exact Answered.done
      · cases hNil
  | cons result results ih =>
      rcases sendLoop_cases hRun with
        ⟨hDone, hOut, hLeft⟩ | ⟨hGo, _, _, hCons, hCases⟩
      · refine ⟨[], hLeft.symm, 0, ?_, hOut⟩
        rw [Nat.sub_eq_zero_of_le hDone]
        exact Answered.done
      · cases hCons
        have hSome :
            stop - start = (stop - start - 1) + 1 := by
          omega
        rcases hCases with
          ⟨hResult, hRest⟩ | ⟨hResult | hResult, hOut, hLeft⟩
            | ⟨n, more, hResult, hRest, hOut⟩
        · rcases ih hFilled _ hRest with
            ⟨used, hSplit, n, hAnswered, hOut⟩
          refine ⟨result :: used, by rw [hSplit]; rfl, n, ?_,
            hOut⟩
          rw [hSome] at hAnswered ⊢
          rw [hResult]
          exact Answered.interrupted hAnswered
        · refine ⟨[result], by rw [hLeft]; rfl, 0, ?_, hOut⟩
          rw [hSome, hResult]
          exact Answered.failed _
        · refine ⟨[result], by rw [hLeft]; rfl, 0, ?_, hOut⟩
          rw [hSome, hResult]
          exact Answered.nothing _
        · rcases ih
              (fun i hi => hFilled i (by omega)) _ hRest with
            ⟨used, hSplit, k, hAnswered, hMore⟩
          refine ⟨result :: used, by rw [hSplit]; rfl,
            n + 1 + k, ?_, ?_⟩
          · rw [hSome, hResult]
            apply Answered.sent
            rw [← hSome, Nat.sub_sub]
            exact hAnswered
          · rw [hOut, hMore, List.take_add, List.map_append,
              drop_slice]
            congr 1
            rw [take_slice, List.map_map]
            apply List.map_congr_left
            intro i hi
            rw [List.mem_range'_1] at hi
            exact hFilled i hi.1 (by omega)

------------------------------------------------------------
-- One Flush
------------------------------------------------------------

variable (sender : Sender)

/- The run ends at the first other descriptor. -/
theorem runEnd_spec
    (fd : Int)
    (fuel stop : Nat)
    (hFuel : sender.count ≤ stop + fuel) :
    let last := sender.runEnd fd fuel stop
    stop ≤ last ∧
      (stop ≤ sender.count → last ≤ sender.count) ∧
      (∀ i, stop ≤ i → i < last → (sender.items i).fd = fd) ∧
      (last < sender.count →
        (sender.items last).fd ≠ fd) := by
  induction fuel generalizing stop with
  | zero =>
      refine ⟨Nat.le_refl _, fun hLe => hLe, ?_, ?_⟩
      · intro i hFrom hTo
        exact absurd hTo (Nat.not_lt_of_le hFrom)
      · intro hLt
        exact absurd hLt (Nat.not_lt_of_le hFuel)
  | succ fuel ih =>
      unfold runEnd
      split
      · rename_i hSame
        rcases ih (stop + 1) (by omega) with
          ⟨hFrom, hTo, hRun, hLast⟩
        refine ⟨by omega, fun _ => hTo hSame.1, ?_, hLast⟩
        intro i hi hiLast
        by_cases hStop : i = stop
        · rw [hStop]
          exact hSame.2
        · exact hRun i (by omega) hiLast
      · rename_i hOther
        refine ⟨Nat.le_refl _, fun hLe => hLe, ?_, ?_⟩
        · intro i hFrom hTo
          exact absurd hTo (Nat.not_lt_of_le hFrom)
        · intro hLt hSame
          exact hOther ⟨hLt, hSame⟩

/- Message `i` points to its own packet and destination. -/
theorem fill_spec
    (headers : Headers)
    (start n i : Nat)
    (hFrom : start ≤ i)
    (hTo : i < start + n) :
    let filled :=
      (List.range' start n).foldl sender.fillOne headers
    filled.iovecs i = (sender.items i).packet ∧
      filled.messages i = { iov := i, name := i } := by
  induction n with
  | zero => omega
  | succ n ih =>
      rw [List.range'_1_concat, List.foldl_append]
      simp only [List.foldl_cons, List.foldl_nil, fillOne]
      by_cases hLast : i = start + n
      · rw [hLast, Function.update_self, Function.update_self]
        exact ⟨rfl, rfl⟩
      · rw [Function.update_of_ne hLast,
          Function.update_of_ne hLast]
        exact ih (by omega)

/- The kernel is handed what was queued. -/
theorem handed_fill
    (headers : Headers)
    (start stop i : Nat)
    (hFrom : start ≤ i)
    (hTo : i < stop) :
    sender.handed (sender.fill headers start stop)
        (sender.items i).fd i =
      (sender.items i).outgoing := by
  rcases sender.fill_spec headers start (stop - start) i
      hFrom (by omega) with
    ⟨hPacket, hMessage⟩
  unfold handed fill
  rw [hMessage]
  dsimp only
  rw [hPacket]
  rfl

end Sender

/-
  The calls for one run of a queue: its items have one
  descriptor, and `sent` of them are taken.
-/
structure Attempt where
  fd : Int
  run : List SendItem
  answers : List SendResult
  sent : Nat
  same : ∀ item ∈ run, item.fd = fd
  nonempty : run ≠ []
  answered : Answered run.length answers sent

/- The items that the call has sent. -/
def Attempt.delivered
    (attempt : Attempt) : List Outgoing :=
  (attempt.run.take attempt.sent).map SendItem.outgoing

/- What is delivered are items of the runs, in order. -/
theorem delivered_sublist
    (attempts : List Attempt) :
    (attempts.flatMap Attempt.delivered).Sublist
      ((attempts.flatMap Attempt.run).map
        SendItem.outgoing) := by
  induction attempts with
  | nil => exact List.Sublist.refl []
  | cons attempt attempts ih =>
      rw [List.flatMap_cons, List.flatMap_cons,
        List.map_append]
      exact ((List.take_sublist _ _).map _).append ih

/- With progress in each call all of it is. -/
theorem delivered_complete
    (attempts : List Attempt)
    (hProgress :
      ∀ result ∈ attempts.flatMap Attempt.answers,
        result.progresses) :
    attempts.flatMap Attempt.delivered =
      (attempts.flatMap Attempt.run).map
        SendItem.outgoing := by
  induction attempts with
  | nil => rfl
  | cons attempt attempts ih =>
      rw [List.flatMap_cons] at hProgress
      have hAll : attempt.run.length ≤ attempt.sent := by
        apply attempt.answered.complete
        intro result hResult
        exact hProgress result
          (List.mem_append_left _ hResult)
      have hRest :=
        ih (fun result hResult =>
          hProgress result (List.mem_append_right _ hResult))
      rw [List.flatMap_cons, List.flatMap_cons,
        List.map_append, ← hRest]
      unfold Attempt.delivered
      rw [List.take_of_length_le hAll]

/-
  How a queue is flushed: it falls into runs of one
  descriptor each, as long as possible, every run has its
  own answers, and a front of every run is delivered.  What
  is missing from a run, its own last answer has dropped.
-/
def Flushes
    (queue : List SendItem)
    (answers : List SendResult)
    (sent : List Outgoing) : Prop :=
  ∃ attempts : List Attempt,
    queue = attempts.flatMap Attempt.run ∧
    answers = attempts.flatMap Attempt.answers ∧
    sent = attempts.flatMap Attempt.delivered ∧
    attempts.IsChain (fun a b => a.fd ≠ b.fd) ∧
    ∀ attempt ∈ attempts,
      attempt.sent < attempt.run.length →
        attempt.answers.getLast? = some .failed ∨
          attempt.answers.getLast? = some (.sent 0)

namespace Flushes

variable {queue : List SendItem} {answers : List SendResult}
variable {sent : List Outgoing}

theorem nil :
    Flushes [] [] [] :=
  ⟨[], rfl, rfl, rfl, List.IsChain.nil,
    fun attempt _ => attempt.answered.cut⟩

theorem cons
    (attempt : Attempt)
    (hRest : Flushes queue answers sent)
    (hOther : ∀ item ∈ queue.head?, item.fd ≠ attempt.fd) :
    Flushes (attempt.run ++ queue)
      (attempt.answers ++ answers)
      (attempt.delivered ++ sent) := by
  rcases hRest with
    ⟨attempts, hQueue, hAnswers, hSent, hChain, _⟩
  refine ⟨attempt :: attempts, ?_, ?_, ?_, ?_,
    fun other _ => other.answered.cut⟩
  · rw [List.flatMap_cons, ← hQueue]
  · rw [List.flatMap_cons, ← hAnswers]
  · rw [List.flatMap_cons, ← hSent]
  · refine List.isChain_cons.mpr ⟨?_, hChain⟩
    intro next hNext hSame
    cases attempts with
    | nil => cases hNext
    | cons head attempts =>
        cases hNext
        cases hRun : next.run with
        | nil => exact next.nonempty hRun
        | cons item items =>
            have hFirst : queue.head? = some item := by
              rw [hQueue, List.flatMap_cons, hRun]
              rfl
            apply hOther item hFirst
            rw [hSame]
            exact next.same item
              (by rw [hRun]; exact List.mem_cons_self)

/- What is handed over was queued, and comes in order. -/
theorem sublist
    (hFlushes : Flushes queue answers sent) :
    sent.Sublist (queue.map SendItem.outgoing) := by
  rcases hFlushes with ⟨attempts, hQueue, _, hSent, _, _⟩
  rw [hQueue, hSent]
  exact delivered_sublist attempts

/- If every call makes progress, all of it is handed over. -/
theorem complete
    (hFlushes : Flushes queue answers sent)
    (hProgress : ∀ result ∈ answers, result.progresses) :
    sent = queue.map SendItem.outgoing := by
  rcases hFlushes with
    ⟨attempts, hQueue, hAnswers, hSent, _, _⟩
  rw [hAnswers] at hProgress
  rw [hQueue, hSent]
  exact delivered_complete attempts hProgress

end Flushes

namespace Sender

variable {sender : Sender} {answers : Nat → SendResult}

/- The run that starts at `start`, with what it delivers. -/
theorem sendRun_attempt
    {start stop : Nat}
    (headers : Headers)
    (hSome : start < stop)
    (hSame :
      ∀ i, start ≤ i → i < stop →
        (sender.items i).fd = (sender.items start).fd) :
    (sender.sendRun (sender.fill headers start stop)
      (sender.items start).fd start stop).Ensures
      (fun used out =>
        ∃ attempt : Attempt,
          attempt.fd = (sender.items start).fd ∧
          attempt.run = sender.slice start stop ∧
          attempt.answers = used ∧
          attempt.delivered = out) := by
  apply (sendRun_ensures ?_).mono
  · rintro used out ⟨n, hAnswered, hOut⟩
    rw [← sender.length_slice] at hAnswered
    refine ⟨⟨(sender.items start).fd,
      sender.slice start stop, used, n, ?_, ?_, hAnswered⟩,
      rfl, rfl, rfl, hOut.symm⟩
    · intro item hItem
      rcases sender.mem_slice hItem with ⟨i, hFrom, hTo, hEq⟩
      rw [← hEq]
      exact hSame i hFrom hTo
    · rw [slice_cons _ hSome]
      exact List.cons_ne_nil _ _
  · intro i hFrom hTo
    rw [← hSame i hFrom hTo]
    exact sender.handed_fill headers start stop i hFrom hTo

/- From some place on, the rest is flushed. -/
theorem flushFrom_ensures
    (fuel start : Nat)
    (headers : Headers)
    (hFuel : sender.count ≤ start + fuel) :
    (sender.flushFrom fuel start headers).Ensures
      (fun used out =>
        Flushes (sender.slice start sender.count) used
          out) := by
  induction fuel generalizing start headers with
  | zero =>
      have hDone : sender.count ≤ start := hFuel
      apply Asks.Ensures.pure
      rw [slice_of_le sender hDone]
      exact Flushes.nil
  | succ fuel ih =>
      unfold flushFrom
      split
      · rename_i hGo
        dsimp only
        rcases sender.runEnd_spec (sender.items start).fd
            sender.count (start + 1) (by omega) with
          ⟨hFrom, hTo, hSame, hLast⟩
        generalize
          sender.runEnd (sender.items start).fd sender.count
            (start + 1) = stop at hFrom hTo hSame hLast ⊢
        have hRun :
            ∀ i, start ≤ i → i < stop →
              (sender.items i).fd =
                (sender.items start).fd := by
          intro i hi hiStop
          by_cases hStart : i = start
          · rw [hStart]
          · exact hSame i (by omega) hiStop
        apply (sendRun_attempt headers (by omega) hRun).bind
        rintro used sent ⟨attempt, hFd, hItems, hUsed, hSent⟩
        apply (ih stop _ (by omega)).bind
        intro more rest hRest
        apply Asks.Ensures.pure
        rw [← sender.slice_append (Nat.le_of_lt hFrom)
          (hTo hGo), ← hItems, ← hUsed, ← hSent,
          List.append_nil]
        apply hRest.cons
        intro item hItem
        by_cases hMore : stop < sender.count
        · rw [slice_cons sender hMore] at hItem
          cases hItem
          rw [hFd]
          exact hLast hMore
        · rw [slice_of_le sender (Nat.le_of_not_lt hMore)]
            at hItem
          cases hItem
      · rename_i hDone
        apply Asks.Ensures.pure
        rw [slice_of_le sender (Nat.le_of_not_lt hDone)]
        exact Flushes.nil

/- A flush empties the sender. -/
theorem flush_ensures :
    sender.flush.Ensures
      (fun used flushed =>
        flushed.1.count = 0 ∧
          Flushes sender.queue used flushed.2) := by
  unfold flush
  split
  · rename_i hEmpty
    apply Asks.Ensures.pure
    refine ⟨hEmpty, ?_⟩
    unfold queue
    rw [hEmpty]
    exact Flushes.nil
  · apply (flushFrom_ensures sender.count 0 _ (by omega)).bind
    intro used sent hFlushes
    apply Asks.Ensures.pure
    rw [List.append_nil]
    exact ⟨rfl, hFlushes⟩

theorem flushFrom_stable
    (fuel start : Nat)
    (headers : Headers) :
    (sender.flushFrom fuel start headers).Stable := by
  induction fuel generalizing start headers with
  | zero => exact Asks.stable_pure []
  | succ fuel ih =>
      unfold flushFrom
      split
      · apply sendRun_stable.bind
        intro sent
        apply (ih _ _).bind
        intro rest
        exact Asks.stable_pure _
      · exact Asks.stable_pure []

theorem flush_stable :
    sender.flush.Stable := by
  unfold flush
  split
  · exact Asks.stable_pure _
  · apply (flushFrom_stable _ _ _).bind
    intro sent
    exact Asks.stable_pure _

theorem flushFrom_finishes
    (hAwake : Awake answers)
    (fuel start : Nat)
    (headers : Headers) :
    (sender.flushFrom fuel start headers).Finishes
      answers := by
  induction fuel generalizing start headers with
  | zero => exact Asks.finishes_pure []
  | succ fuel ih =>
      unfold flushFrom
      split
      · apply (sendRun_finishes hAwake).bind sendRun_stable
        intro sent
        apply (ih _ _).bind (flushFrom_stable _ _ _)
        intro rest
        exact Asks.finishes_pure _
      · exact Asks.finishes_pure []

/- A flush ends. -/
theorem flush_finishes
    (hAwake : Awake answers) :
    sender.flush.Finishes answers := by
  unfold flush
  split
  · exact Asks.finishes_pure _
  · apply (flushFrom_finishes hAwake _ _ _).bind
      (flushFrom_stable _ _ _)
    intro sent
    exact Asks.finishes_pure _

end Sender

------------------------------------------------------------
-- Sequences Of Calls
------------------------------------------------------------

namespace SenderCall

/- The item that a call puts into the queue, if any. -/
def accepted? :
    SenderCall → Option SendItem
| .enqueue item =>
    if item.packet.length ≤ maxDatagramSize then some item
    else none
| .flush => none

end SenderCall

/- What the calls enqueue, in order. -/
def accepted
    (calls : List SenderCall) : List SendItem :=
  calls.filterMap SenderCall.accepted?

theorem accepted_cons
    (call : SenderCall)
    (calls : List SenderCall) :
    accepted (call :: calls) =
      accepted [call] ++ accepted calls := by
  unfold accepted
  rw [← List.filterMap_append]
  rfl

theorem accepted_flush
    (calls : List SenderCall) :
    accepted (calls ++ [.flush]) = accepted calls := by
  unfold accepted
  rw [List.filterMap_append]
  exact List.append_nil _

namespace Sender

variable {items : List SendItem} {used : List SendResult}

/-
  What has been sent, followed by what still waits, is taken
  from the items in order, and is all of them as long as
  every call makes progress.  The arrays are large enough.
-/
structure Carries
    (items : List SendItem)
    (used : List SendResult)
    (called : Sender × List Outgoing) : Prop where
  order :
    (called.2 ++ called.1.queue.map SendItem.outgoing).Sublist
      (items.map SendItem.outgoing)
  complete :
    (∀ result ∈ used, result.progresses) →
      called.2 ++ called.1.queue.map SendItem.outgoing =
        items.map SendItem.outgoing
  count_le : called.1.count ≤ udpBatchSize

theorem queue_eq_nil
    {sender : Sender}
    (hEmpty : sender.count = 0) :
    sender.queue = [] := by
  unfold queue
  rw [hEmpty]
  rfl

variable {sender : Sender} {answers : Nat → SendResult}

/- An empty list of calls carries the queue. -/
theorem Carries.refl
    (hCount : sender.count ≤ udpBatchSize) :
    Carries sender.queue [] (sender, []) :=
  ⟨List.Sublist.refl _, fun _ => rfl, hCount⟩

/- A pushed item is carried behind the others. -/
theorem Carries.push
    {sent : List Outgoing}
    (hCarries : Carries items used (sender, sent))
    (hCount : sender.count < udpBatchSize)
    (item : SendItem) :
    Carries (items ++ [item]) used
      (sender.push item, sent) := by
  refine ⟨?_, ?_, hCount⟩
  · dsimp only
    rw [queue_push, List.map_append, List.map_append,
      ← List.append_assoc]
    exact hCarries.order.append (List.Sublist.refl _)
  · intro hProgress
    dsimp only
    rw [queue_push, List.map_append, List.map_append,
      ← List.append_assoc]
    rw [hCarries.complete hProgress]

/- Two parts of a run carry both lists. -/
theorem Carries.trans
    {more : List SendItem}
    {used' : List SendResult}
    {first second : Sender × List Outgoing}
    (hFirst : Carries items used first)
    (hSecond : Carries (first.1.queue ++ more) used' second) :
    Carries (items ++ more) (used ++ used')
      (second.1, first.2 ++ second.2) := by
  have hOrder := hSecond.order
  rw [List.map_append] at hOrder
  refine ⟨?_, ?_, hSecond.count_le⟩
  · dsimp only
    rw [List.append_assoc, List.map_append]
    apply ((List.Sublist.refl first.2).append hOrder).trans
    rw [← List.append_assoc]
    exact hFirst.order.append (List.Sublist.refl _)
  · intro hProgress
    have hOld :=
      hFirst.complete (fun result hResult =>
        hProgress result (List.mem_append_left _ hResult))
    have hNew :=
      hSecond.complete (fun result hResult =>
        hProgress result (List.mem_append_right _ hResult))
    dsimp only
    rw [List.append_assoc, hNew, List.map_append,
      List.map_append, ← hOld, List.append_assoc]

/- A flush carries what was queued. -/
theorem flush_carries :
    sender.flush.Ensures (Carries sender.queue) := by
  apply flush_ensures.mono
  rintro used flushed ⟨hEmpty, hFlushes⟩
  refine ⟨?_, ?_, by omega⟩
  · rw [queue_eq_nil hEmpty, List.map_nil, List.append_nil]
    exact hFlushes.sublist
  · intro hProgress
    rw [queue_eq_nil hEmpty, List.map_nil, List.append_nil]
    exact hFlushes.complete hProgress

/- An enqueue adds its item, if it is accepted. -/
theorem enqueue_carries
    (item : SendItem)
    (hCount : sender.count ≤ udpBatchSize) :
    (sender.enqueue item).Ensures
      (Carries
        (sender.queue ++ accepted [.enqueue item])) := by
  unfold enqueue
  split
  · rename_i hLong
    have hNone : accepted [.enqueue item] = [] := by
      simp [accepted, SenderCall.accepted?, hLong]
    apply Asks.Ensures.pure
    rw [hNone, List.append_nil]
    exact Carries.refl hCount
  · rename_i hShort
    have hItem : accepted [.enqueue item] = [item] := by
      simp [accepted, SenderCall.accepted?,
        Nat.le_of_not_lt hShort]
    rw [hItem]
    split
    · apply (flush_ensures.and flush_carries).bind
      rintro used flushed ⟨⟨hEmpty, _⟩, hCarries⟩
      apply Asks.Ensures.pure
      rw [List.append_nil]
      exact hCarries.push (by rw [hEmpty]; decide) item
    · rename_i hRoom
      apply Asks.Ensures.pure
      exact (Carries.refl hCount).push
        (Nat.lt_of_not_le hRoom) item

/- One call of either kind. -/
theorem call_carries
    (call : SenderCall)
    (hCount : sender.count ≤ udpBatchSize) :
    (sender.call call).Ensures
      (Carries (sender.queue ++ accepted [call])) := by
  cases call with
  | enqueue item => exact enqueue_carries item hCount
  | flush =>
      have hNone : accepted [.flush] = [] := rfl
      rw [hNone, List.append_nil]
      exact flush_carries

variable (calls : List SenderCall)

/- A sequence of calls. -/
theorem run_carries
    (hCount : sender.count ≤ udpBatchSize) :
    (run calls sender).Ensures
      (Carries (sender.queue ++ accepted calls)) := by
  induction calls generalizing sender with
  | nil =>
      apply Asks.Ensures.pure
      have hNone : accepted [] = [] := rfl
      rw [hNone, List.append_nil]
      exact Carries.refl hCount
  | cons call calls ih =>
      apply (call_carries call hCount).bind
      intro used called hCalled
      apply (ih hCalled.count_le).bind
      intro more rest hRest
      apply Asks.Ensures.pure
      rw [accepted_cons, ← List.append_assoc, List.append_nil]
      exact hCalled.trans hRest

/- After a flush nothing is left in the queue. -/
theorem run_flush
    (hCount : sender.count ≤ udpBatchSize) :
    (run (calls ++ [.flush]) sender).Ensures
      (fun _ called => called.1.count = 0) := by
  induction calls generalizing sender with
  | nil =>
      apply flush_ensures.bind
      rintro used flushed ⟨hEmpty, _⟩
      exact Asks.Ensures.pure hEmpty
  | cons call calls ih =>
      apply (call_carries call hCount).bind
      intro used called hCalled
      apply (ih hCalled.count_le).bind
      intro more rest hEmpty
      exact Asks.Ensures.pure hEmpty

theorem call_stable
    (call : SenderCall) :
    (sender.call call).Stable := by
  cases call with
  | flush => exact flush_stable
  | enqueue item =>
      unfold Sender.call enqueue
      dsimp only
      split
      · exact Asks.stable_pure _
      · split
        · apply flush_stable.bind
          intro flushed
          exact Asks.stable_pure _
        · exact Asks.stable_pure _

theorem call_finishes
    (hAwake : Awake answers)
    (call : SenderCall) :
    (sender.call call).Finishes answers := by
  cases call with
  | flush => exact flush_finishes hAwake
  | enqueue item =>
      unfold Sender.call enqueue
      dsimp only
      split
      · exact Asks.finishes_pure _
      · split
        · apply (flush_finishes hAwake).bind flush_stable
          intro flushed
          exact Asks.finishes_pure _
        · exact Asks.finishes_pure _

theorem run_stable
    (calls : List SenderCall) :
    (run calls sender).Stable := by
  induction calls generalizing sender with
  | nil => exact Asks.stable_pure _
  | cons call calls ih =>
      apply (call_stable call).bind
      intro called
      apply ih.bind
      intro rest
      exact Asks.stable_pure _

/- A sequence of calls ends. -/
theorem run_finishes
    (hAwake : Awake answers)
    (calls : List SenderCall) :
    (run calls sender).Finishes answers := by
  induction calls generalizing sender with
  | nil => exact Asks.finishes_pure _
  | cons call calls ih =>
      apply (call_finishes hAwake call).bind
        (call_stable call)
      intro called
      apply ih.bind (run_stable calls)
      intro rest
      exact Asks.finishes_pure _

/-
  Whatever is called and however the kernel answers, as long
  as it does not interrupt for ever, the calls return.  What
  was handed over is a part of what was enqueued, each
  datagram at most once and in order.  A further flush goes
  run by run, and a run is cut short only by its own last
  answer.  From an empty queue on, if every call makes
  progress, the next flush completes exactly what was
  enqueued in the meantime.
-/
theorem sends_in_order
    (answers : Nat → SendResult)
    (hAwake : Awake answers) :
    ∃ n sender wire,
      run calls init (segment answers 0 n) =
        some ((sender, wire), []) ∧
      sender.count ≤ udpBatchSize ∧
      wire.Sublist ((accepted calls).map SendItem.outgoing) ∧
      (∃ m after sent,
        sender.flush (segment answers n m) =
          some ((after, sent), []) ∧
        Flushes sender.queue (segment answers n m) sent) ∧
      (sender.count = 0 → (∀ k ≥ n, (answers k).progresses) →
        ∀ later, ∃ m after,
          run (later ++ [.flush]) sender
              (segment answers n m) =
            some ((after,
              (accepted later).map SendItem.outgoing),
              [])) := by
  rcases run_finishes hAwake calls 0 with
    ⟨n, ⟨sender, wire⟩, hRun⟩
  have hStart : init.count ≤ udpBatchSize := Nat.zero_le _
  have hCarries := (run_carries calls hStart).of_run hRun
  refine ⟨n, sender, wire, hRun, hCarries.count_le, ?_, ?_,
    ?_⟩
  · exact (List.sublist_append_left _ _).trans hCarries.order
  · rcases flush_finishes hAwake n with
      ⟨m, ⟨after, sent⟩, hFlush⟩
    exact ⟨m, after, sent, hFlush,
      (flush_ensures.of_run hFlush).2⟩
  · intro hEmpty hProgress later
    rcases run_finishes hAwake (later ++ [.flush]) n with
      ⟨m, ⟨after, sent⟩, hLater⟩
    have hDone :=
      (run_flush later hCarries.count_le).of_run hLater
    have hAll :=
      ((run_carries (later ++ [.flush])
        hCarries.count_le).of_run hLater).complete
        (segment_all hProgress)
    rw [queue_eq_nil hDone, queue_eq_nil hEmpty,
      List.map_nil, List.append_nil, accepted_flush]
      at hAll
    refine ⟨m, after, ?_⟩
    rw [hLater]
    exact congrArg (fun sent => some ((after, sent), [])) hAll

/- Two items of one descriptor and one of another. -/
def sampleItem
    (fd : Int)
    (byte : UInt8) : SendItem where
  fd := fd
  packet := [byte]
  dest := Sockaddr.zero
  origin := none

/- Two runs in one batch. -/
def sampleCalls : List SenderCall :=
  [.enqueue (sampleItem 4 1), .enqueue (sampleItem 4 2),
    .enqueue (sampleItem 5 3), .flush]

/- Interrupted, one message, an error, then one by one. -/
def sampleAnswers :
    Nat → SendResult
| 0 => .interrupted
| 1 => .sent 1
| 2 => .failed
| _ + 3 => .sent 1

/- The answers hold no endless interruptions. -/
theorem sampleAnswers_awake :
    Awake sampleAnswers := by
  intro k
  refine ⟨k + 3, Nat.le_add_right k 3, ?_⟩
  unfold sampleAnswers
  exact fun hEq => by cases hEq

/- The error drops the second item and not the third. -/
theorem sample_sends_in_order :
    (∃ n sender wire,
      run sampleCalls init (segment sampleAnswers 0 n) =
        some ((sender, wire), []) ∧
      wire.Sublist
        ((accepted sampleCalls).map SendItem.outgoing)) ∧
    (run sampleCalls init (segment sampleAnswers 0 4)).map
        (fun called => (called.1.2, called.2)) =
      some ([(sampleItem 4 1).outgoing,
        (sampleItem 5 3).outgoing], []) := by
  rcases sends_in_order sampleCalls sampleAnswers
      sampleAnswers_awake with
    ⟨n, sender, wire, hRun, _, hOrder, _, _⟩
  refine ⟨⟨n, sender, wire, hRun, hOrder⟩, ?_⟩
  decide

end Sender

------------------------------------------------------------
-- The Sender Of The Dataplane
------------------------------------------------------------

/- Answered calls are what the list model of a run does. -/
theorem sendRun_answered
    {run : List SendItem}
    {answers : List SendResult}
    {n : Nat}
    (hAnswered : Answered run.length answers n)
    (left : List SendResult) :
    sendRun (answers ++ left) run = (run.take n, left) := by
  generalize hLength : run.length = m at hAnswered
  induction hAnswered generalizing run with
  | done =>
      rw [List.length_eq_zero_iff] at hLength
      rw [hLength, List.nil_append]
      unfold sendRun
      rfl
  | interrupted _ ih =>
      cases run with
      | nil => cases hLength
      | cons item items => exact ih hLength
  | failed m =>
      cases run with
      | nil => cases hLength
      | cons item items => rfl
  | nothing m =>
      cases run with
      | nil => cases hLength
      | cons item items => rfl
  | @sent m k n answers _ ih =>
      cases run with
      | nil => cases hLength
      | cons item items =>
          have hDrop :
              ((item :: items).drop (k + 1)).length =
                m + 1 - (k + 1) := by
            rw [List.length_drop, hLength]
          have hStep :
              sendRun (.sent (k + 1) :: answers ++ left)
                  (item :: items) =
                ((item :: items).take (k + 1) ++
                    (sendRun (answers ++ left)
                      ((item :: items).drop (k + 1))).1,
                  (sendRun (answers ++ left)
                    ((item :: items).drop (k + 1))).2) :=
            rfl
          rw [hStep, ih hDrop]
          exact Prod.ext List.take_add.symm rfl

/- The next run has another descriptor. -/
theorem attempts_head
    {attempt : Attempt}
    {attempts : List Attempt}
    (hChain :
      (attempt :: attempts).IsChain
        (fun a b => a.fd ≠ b.fd)) :
    ∀ item ∈ (attempts.flatMap Attempt.run).head?,
      item.fd ≠ attempt.fd := by
  intro item hItem
  cases attempts with
  | nil => cases hItem
  | cons next attempts =>
      have hOther := (List.isChain_cons_cons.mp hChain).1
      cases hRun : next.run with
      | nil => exact absurd hRun next.nonempty
      | cons first items =>
          rw [List.flatMap_cons, hRun] at hItem
          cases hItem
          have hSame :=
            next.same item
              (by rw [hRun]; exact List.mem_cons_self)
          rw [hSame]
          exact Ne.symm hOther

/- Where the items of one kind end. -/
theorem takeWhile_of_split
    (hSame : ∀ item ∈ items, p item = true)
    (hOther : ∀ item ∈ rest.head?, p item = false) :
    (items ++ rest).takeWhile p = items := by
  rw [List.takeWhile_append_of_pos hSame]
  cases rest with
  | nil => exact List.append_nil items
  | cons other rest =>
      rw [List.takeWhile_cons, hOther other rfl]
      exact List.append_nil items

theorem dropWhile_of_split
    (hSame : ∀ item ∈ items, p item = true)
    (hOther : ∀ item ∈ rest.head?, p item = false) :
    (items ++ rest).dropWhile p = rest := by
  rw [List.dropWhile_append_of_pos hSame]
  cases rest with
  | nil => rfl
  | cons other rest =>
      rw [List.dropWhile_cons, hOther other rfl]
      rfl

theorem length_le_flatMap
    (attempts : List Attempt) :
    attempts.length ≤
      (attempts.flatMap Attempt.run).length := by
  induction attempts with
  | nil => exact Nat.le_refl 0
  | cons attempt attempts ih =>
      have hSome := List.length_pos_iff.mpr attempt.nonempty
      rw [List.flatMap_cons, List.length_append,
        List.length_cons]
      omega

/- The model of the queue makes the same attempts. -/
theorem sendRuns_attempts
    (fuel : Nat)
    (attempts : List Attempt)
    (left : List SendResult)
    (hFuel : attempts.length ≤ fuel)
    (hChain : attempts.IsChain (fun a b => a.fd ≠ b.fd)) :
    sendRuns fuel (attempts.flatMap Attempt.answers ++ left)
        (attempts.flatMap Attempt.run) =
      (attempts.flatMap (fun a => a.run.take a.sent),
        left) := by
  induction attempts generalizing fuel with
  | nil =>
      cases fuel with
      | zero => rfl
      | succ fuel => rfl
  | cons attempt attempts ih =>
      cases fuel with
      | zero => cases hFuel
      | succ fuel =>
          cases hRun : attempt.run with
          | nil => exact absurd hRun attempt.nonempty
          | cons first items =>
              have hFirst : first.fd = attempt.fd :=
                attempt.same first
                  (by rw [hRun]; exact List.mem_cons_self)
              have hSame :
                  ∀ item ∈ items,
                    (item.fd == first.fd) = true := by
                intro item hItem
                rw [hFirst, attempt.same item
                  (by
                    rw [hRun]
                    exact List.mem_cons_of_mem _ hItem)]
                exact beq_self_eq_true _
              have hOther :
                  ∀ item ∈
                    (attempts.flatMap Attempt.run).head?,
                    (item.fd == first.fd) = false := by
                intro item hItem
                rw [hFirst, beq_eq_false_iff_ne]
                exact attempts_head hChain item hItem
              have hTake := takeWhile_of_split hSame hOther
              have hDrop := dropWhile_of_split hSame hOther
              have hAnswered :=
                sendRun_answered attempt.answered
                  (attempts.flatMap Attempt.answers ++ left)
              have hRest :=
                ih fuel (Nat.le_of_succ_le_succ hFuel)
                  hChain.tail
              rw [List.flatMap_cons, List.flatMap_cons,
                List.flatMap_cons, List.append_assoc, hRun,
                List.cons_append]
              unfold sendRuns
              dsimp only
              rw [hTake, hDrop, ← hRun, hAnswered]
              dsimp only
              rw [hRest]

namespace Sender

/-
  A step of the dataplane that queues, hands over and asks
  as the sender does.
-/
structure Simulates
    (dp dp' : Dataplane)
    (called : Sender × List Outgoing)
    (left : List SendResult) : Prop where
  queue : called.1.queue = dp'.queue
  sends : dp'.answers.sends = left
  wire :
    dp'.wire.map (fun t => t.item.outgoing) =
      dp.wire.map (fun t => t.item.outgoing) ++ called.2

variable {sender : Sender} {dp : Dataplane}
variable {called : Sender × List Outgoing}
variable {left : List SendResult}

/- A flush of the queue is a flush of the sender. -/
theorem flush_simulates
    (hQueue : sender.queue = dp.queue)
    (hFlush :
      sender.flush dp.answers.sends = some (called, left)) :
    Simulates dp dp.flush called left := by
  rcases flush_ensures dp.answers.sends _ left hFlush with
    ⟨used, hUsed, hEmpty, attempts, hRuns, hAnswers, hSent,
      hChain, _⟩
  have hFuel : attempts.length ≤ dp.queue.length := by
    rw [← hQueue, hRuns]
    exact length_le_flatMap attempts
  have hModel :=
    sendRuns_attempts dp.queue.length attempts left hFuel
      hChain
  rw [← hAnswers, ← hUsed, ← hRuns, hQueue] at hModel
  refine ⟨queue_eq_nil hEmpty, ?_, ?_⟩
  · unfold Dataplane.flush
    dsimp only
    rw [hModel]
  · unfold Dataplane.flush
    dsimp only
    rw [hModel, List.map_append, List.map_map, hSent]
    congr 1
    rw [List.map_flatMap]
    rfl

/- So is an enqueue. -/
theorem enqueue_simulates
    {item : SendItem}
    (hQueue : sender.queue = dp.queue)
    (hEnqueue :
      sender.enqueue item dp.answers.sends =
        some (called, left)) :
    Simulates dp (dp.enqueue item) called left := by
  have hCount : dp.queue.length = sender.count := by
    rw [← hQueue]
    exact sender.length_slice
  unfold enqueue at hEnqueue
  unfold Dataplane.enqueue
  split at hEnqueue
  · rename_i hLong
    cases hEnqueue
    rw [if_pos hLong]
    exact ⟨hQueue, rfl, (List.append_nil _).symm⟩
  · rename_i hShort
    rw [if_neg hShort, hCount]
    split at hEnqueue
    · rename_i hFull
      rw [if_pos hFull]
      rcases Asks.bind_eq_some hEnqueue with
        ⟨flushed, mid, hFlush, hPush⟩
      cases hPush
      have hFlushed := flush_simulates hQueue hFlush
      refine ⟨?_, hFlushed.sends, hFlushed.wire⟩
      dsimp only
      rw [queue_push, hFlushed.queue]
    · rename_i hRoom
      cases hEnqueue
      rw [if_neg hRoom]
      refine ⟨?_, rfl, (List.append_nil _).symm⟩
      dsimp only
      rw [queue_push, hQueue]

/- The dataplane's own model of a call. -/
def callQueue
    (dp : Dataplane) :
    SenderCall → Dataplane
| .enqueue item => dp.enqueue item
| .flush => dp.flush

/- And so is a sequence of calls. -/
theorem run_simulates
    (calls : List SenderCall)
    (hQueue : sender.queue = dp.queue)
    (hRun :
      run calls sender dp.answers.sends =
        some (called, left)) :
    Simulates dp (calls.foldl callQueue dp) called left := by
  induction calls generalizing sender dp called with
  | nil =>
      cases hRun
      exact ⟨hQueue, rfl, (List.append_nil _).symm⟩
  | cons call calls ih =>
      rcases Asks.bind_eq_some hRun with
        ⟨first, mid, hFirst, hLater⟩
      rcases Asks.bind_eq_some hLater with
        ⟨rest, after, hRest, hDone⟩
      cases hDone
      have hHead :
          Simulates dp (callQueue dp call) first mid := by
        cases call with
        | enqueue item =>
            exact enqueue_simulates hQueue hFirst
        | flush => exact flush_simulates hQueue hFirst
      rw [← hHead.sends] at hRest
      have hTail := ih hHead.queue hRest
      refine ⟨hTail.queue, hTail.sends, ?_⟩
      rw [List.foldl_cons, hTail.wire, hHead.wire,
        List.append_assoc]

/-
  Any calls, on arrays and with `sendmmsg` taking as much as
  it likes, come to an end, and they queue, send and consume
  as the list queue of the dataplane does.
-/
theorem arrays_refine_queue
    (calls : List SenderCall)
    (answers : Nat → SendResult)
    (hAwake : Awake answers) :
    ∃ n sender wire,
      run calls init (segment answers 0 n) =
        some ((sender, wire), []) ∧
      ∀ dp : Dataplane, dp.queue = [] →
        dp.answers.sends = segment answers 0 n →
        Simulates dp (calls.foldl callQueue dp)
          (sender, wire) [] := by
  rcases run_finishes hAwake calls 0 with
    ⟨n, ⟨sender, wire⟩, hRun⟩
  refine ⟨n, sender, wire, hRun, ?_⟩
  intro dp hEmpty hSends
  rw [← hSends] at hRun
  refine run_simulates calls ?_ hRun
  rw [hEmpty]
  exact queue_eq_nil rfl

/- The sample calls, in both models. -/
theorem sample_refines_queue :
    ∃ n sender wire,
      run sampleCalls init (segment sampleAnswers 0 n) =
        some ((sender, wire), []) ∧
      ∀ dp : Dataplane, dp.queue = [] →
        dp.answers.sends = segment sampleAnswers 0 n →
        Simulates dp (sampleCalls.foldl callQueue dp)
          (sender, wire) [] :=
  arrays_refine_queue sampleCalls sampleAnswers
    sampleAnswers_awake

end Sender

end QuicSniRouter
