import QuicSniRouter.Dataplane.FreshInitial
import QuicSniRouter.Dataplane.PendingLookup
import QuicSniRouter.Quic.Reassembly
import QuicSniRouter.Tls.Prefix

/-
  A ClientHello that comes in several Initials is routed the
  same way in whatever order they arrive: the merged stream
  depends on the frames only, and a name that is found early
  is the name that the whole front of the message has.

  Main declarations:
    * `routeHello`
    * `Arrival`
    * `Processed`
    * `arrival_order_irrelevant`
-/

------------------------------------------------------------
-- Routing By The Front Of A Message
------------------------------------------------------------

namespace QuicSniRouter

open PendingTable

variable {hash : Bytes → Nat} {config : Config}

/-
  The server name in the first bytes of a ClientHello and
  the backend of its route.
-/
def routeHello
    (hash : Bytes → Nat)
    (config : Config)
    (data : Nat → UInt8)
    (len : Nat) :
    Except Status (Bytes × Sockaddr) := do
  if len = 0 then
    throw .truncated
  let sni ← Tls.clientHelloSni data len
  match config.routes.lookup hash sni with
  | none => throw .notFound
  | some route =>
      if !route.backendResolved then
        throw .invalid
      return (sni, route.backend)

theorem routeCryptoStream_eq
    (hash : Bytes → Nat)
    (config : Config)
    (crypto : Quic.CryptoStream) :
    routeCryptoStream hash config crypto =
      (routeHello hash config crypto.data
        crypto.contiguousLen).map Prod.snd := by
  unfold routeCryptoStream routeHello
  dsimp only
  split
  · rfl
  · cases Tls.clientHelloSni crypto.data
        crypto.contiguousLen with
    | error status => rfl
    | ok sni =>
        simp only [bind, Except.bind]
        cases config.routes.lookup hash sni with
        | none => rfl
        | some route =>
            dsimp only
            split
            · rfl
            · rfl

/- More of a message is routed like its first bytes. -/
theorem routeHello_extends
    {data data' : Nat → UInt8}
    {len len' : Nat}
    {chosen : Bytes × Sockaddr}
    (hAgree : ∀ i < len, data' i = data i)
    (hLe : len ≤ len')
    (hBound : len' ≤ maxClientHelloSize)
    (hRoute : routeHello hash config data len = .ok chosen) :
    routeHello hash config data' len' = .ok chosen := by
  unfold routeHello at hRoute ⊢
  rcases except_guard_eq_ok hRoute with ⟨hSome, hRoute⟩
  rcases except_bind_eq_ok hRoute with ⟨sni, hSni, hRoute⟩
  rw [if_neg (by omega),
    Tls.clientHelloSni_extends hAgree hLe hBound hSni]
  exact hRoute

open PendingTable

open Quic Segments

/- One Initial datagram and when it is processed. -/
structure Arrival where
  packet : Bytes
  initial : Quic.Initial
  source : Sockaddr
  now : Int

/- The CRYPTO frames of a payload that can be read. -/
def carriedFrames
    (payload : Except Status Bytes) : List CryptoFrame :=
  match payload >>= cryptoFrames with
  | .ok frames => frames
  | .error _ => []

namespace Arrival

/- The decrypted payload. -/
def payload
    (env : Env)
    (arrival : Arrival) : Except Status Bytes :=
  decryptInitial env.crypto arrival.packet arrival.initial

/- The frames that an arrival carries. -/
def frames
    (env : Env)
    (arrival : Arrival) : List CryptoFrame :=
  carriedFrames (arrival.payload env)

/- The frames carry bytes of a message where they belong. -/
def Carries
    (env : Env)
    (whole : Bytes)
    (arrival : Arrival) : Prop :=
  ∀ frame ∈ arrival.frames env, frame.Of whole

instance
    (env : Env)
    (whole : Bytes)
    (arrival : Arrival) :
    Decidable (arrival.Carries env whole) := by
  unfold Carries
  infer_instance

/- Routing of one arrival. -/
def route
    (env : Env)
    (config : Config)
    (pending : PendingTable)
    (arrival : Arrival) :
    PendingTable × Except Status RoutedInitial :=
  routeInitialDatagram env config pending arrival.packet
    arrival.initial arrival.source arrival.now

end Arrival

/-
  Arrivals of one connection are processed one after the
  other.  In between the table may change in any way that
  leaves the connection's entry as it is.
-/
inductive Processed
    (env : Env)
    (config : Config)
    (source : Sockaddr)
    (initial : Quic.Initial)
    (start : PendingTable) :
    List Arrival → PendingTable →
      List (Except Status RoutedInitial) → Prop
  | nil :
      Processed env config source initial start [] start []
  | arrive
      {arrivals : List Arrival}
      {pending : PendingTable}
      {outcomes : List (Except Status RoutedInitial)}
      (arrival : Arrival)
      (hProcessed :
        Processed env config source initial start arrivals
          pending outcomes)
      (hSame :
        SameConnection source initial arrival.source
          arrival.initial) :
      Processed env config source initial start
        (arrivals ++ [arrival])
        (arrival.route env config pending).1
        (outcomes ++ [(arrival.route env config pending).2])
  | other
      {arrivals : List Arrival}
      {pending : PendingTable}
      {outcomes : List (Except Status RoutedInitial)}
      (after : PendingTable)
      (hProcessed :
        Processed env config source initial start arrivals
          pending outcomes)
      (hKept :
        after.held source initial =
          pending.held source initial) :
      Processed env config source initial start arrivals
        after outcomes

/- Process arrivals back to back. -/
def processAll
    (env : Env)
    (config : Config)
    (start : PendingTable)
    (arrivals : List Arrival) :
    PendingTable × List (Except Status RoutedInitial) :=
  arrivals.foldl
    (fun state arrival =>
      let routed := arrival.route env config state.1
      (routed.1, state.2 ++ [routed.2]))
    (start, [])

theorem processAll_processed
    {env : Env}
    {config : Config}
    {source : Sockaddr}
    {initial : Quic.Initial}
    {start : PendingTable}
    {arrivals : List Arrival}
    (hSame :
      ∀ arrival ∈ arrivals,
        SameConnection source initial arrival.source
          arrival.initial) :
    Processed env config source initial start arrivals
      (processAll env config start arrivals).1
      (processAll env config start arrivals).2 := by
  induction arrivals using List.reverseRecOn with
  | nil => exact Processed.nil
  | append_singleton arrivals arrival ih =>
      have hBefore :=
        ih (fun other hOther =>
          hSame other (List.mem_append_left _ hOther))
      unfold processAll at hBefore ⊢
      rw [List.foldl_append]
      exact Processed.arrive arrival hBefore
        (hSame arrival
          (List.mem_append_right _ List.mem_cons_self))

/- What has been merged for a connection. -/
def PendingTable.streamOf
    (table : PendingTable)
    (source : Sockaddr)
    (initial : Quic.Initial) : CryptoStream :=
  match table.held source initial with
  | some entry => entry.crypto
  | none => CryptoStream.init

end QuicSniRouter

------------------------------------------------------------
-- One Arrival
------------------------------------------------------------

namespace QuicSniRouter

open PendingTable

open Quic Segments

variable {env : Env} {config : Config} {whole : Bytes}
variable {arrival : Arrival} {frames : List CryptoFrame}

theorem initialCrypto_eq
    (env : Env)
    (arrival : Arrival) :
    initialCrypto env.crypto arrival.packet arrival.initial =
      (arrival.payload env >>= cryptoFrames).map
        CryptoStream.init.writeAll := by
  unfold initialCrypto Arrival.payload
  cases decryptInitial env.crypto arrival.packet
      arrival.initial with
  | error status => rfl
  | ok plaintext => exact extractCrypto_eq _ _

/- A readable payload gives a stream that holds it. -/
theorem Arrival.Carries.holds
    {crypto : CryptoStream}
    (hCarries : arrival.Carries env whole)
    (hCrypto :
      initialCrypto env.crypto arrival.packet
        arrival.initial = .ok crypto) :
    crypto.Holds whole (arrival.frames env) := by
  rw [initialCrypto_eq] at hCrypto
  unfold Arrival.Carries at hCarries
  unfold Arrival.frames carriedFrames at hCarries ⊢
  cases hFrames : arrival.payload env >>= cryptoFrames with
  | error status =>
      rw [hFrames] at hCrypto
      cases hCrypto
  | ok frames =>
      rw [hFrames] at hCrypto hCarries
      cases hCrypto
      rcases except_bind_eq_ok hFrames with
        ⟨plaintext, _, hRead⟩
      exact (CryptoStream.init_holds whole).writeAll
        hCarries (cryptoFrames_fit hRead)

theorem Arrival.frames_eq_nil
    {status : Status}
    (hCrypto :
      initialCrypto env.crypto arrival.packet
        arrival.initial = .error status) :
    arrival.frames env = [] := by
  rw [initialCrypto_eq] at hCrypto
  unfold Arrival.frames carriedFrames
  cases hFrames : arrival.payload env >>= cryptoFrames with
  | error status => rfl
  | ok frames =>
      rw [hFrames] at hCrypto
      cases hCrypto

/- Buffering merges into the stream of the connection. -/
theorem bufferInitial_crypto
    (pending : PendingTable)
    (packet : Bytes)
    (initial : Quic.Initial)
    (source : Sockaddr)
    (now : Int)
    (crypto : CryptoStream) :
    (bufferInitial pending packet initial source now
        crypto).2.1.crypto =
      (pending.streamOf source initial).merge crypto := by
  have hAppend :
      ∀ entry : PendingInitial,
        (entry.appendPacket packet).crypto =
          entry.crypto := by
    intro entry
    unfold PendingInitial.appendPacket
    split
    · rfl
    · split
      · rfl
      · split
        · rfl
        · rfl
  unfold bufferInitial streamOf
  dsimp only
  rw [hAppend, pending.getEntry_held source initial now]
  cases pending.held source initial with
  | none => rfl
  | some entry => rfl

/-
  The frames so far against the outcomes so far: the stream
  holds the frames, each success chose what the front of the
  whole message chooses, and if that chooses anything there
  was a success.
-/
structure Follows
    (env : Env)
    (config : Config)
    (whole : Bytes)
    (frames : List CryptoFrame)
    (stream : CryptoStream)
    (outcomes : List (Except Status RoutedInitial)) :
    Prop where
  holds : stream.Holds whole frames
  routed :
    ∀ routed, Except.ok routed ∈ outcomes →
      ∃ sni,
        routeHello env.hash config routed.entry.crypto.data
            routed.entry.crypto.contiguousLen =
          .ok (sni, routed.backend) ∧
        routeHello env.hash config (byteAt whole)
            (coveredLen frames) =
          .ok (sni, routed.backend)
  found :
    ∀ chosen,
      routeHello env.hash config (byteAt whole)
          (coveredLen frames) = .ok chosen →
        ∃ routed, Except.ok routed ∈ outcomes

/- A stream is routed like the message that it holds. -/
theorem routeHello_holds
    {stream : CryptoStream}
    (hHolds : stream.Holds whole frames)
    (chosen : Bytes × Sockaddr) :
    routeHello env.hash config stream.data
        stream.contiguousLen = .ok chosen ↔
      routeHello env.hash config (byteAt whole)
        (coveredLen frames) = .ok chosen := by
  rw [hHolds.contiguousLen]
  constructor
  · exact routeHello_extends
      (fun i hi => (hHolds.front hi).symm)
      (Nat.le_refl _) (coveredLen_le frames)
  · exact routeHello_extends (fun i hi => hHolds.front hi)
      (Nat.le_refl _) (coveredLen_le frames)

/- More frames choose what fewer of them choose. -/
theorem routeHello_covered
    {chosen : Bytes × Sockaddr}
    (more : List CryptoFrame)
    (hRoute :
      routeHello env.hash config (byteAt whole)
        (coveredLen frames) = .ok chosen) :
    routeHello env.hash config (byteAt whole)
      (coveredLen (frames ++ more)) = .ok chosen := by
  refine routeHello_extends (fun _ _ => rfl)
    (leading_mono ?_ _ _) (coveredLen_le _) hRoute
  intro i hCovered
  rw [covered_append, hCovered, Bool.true_or]

theorem Follows.arrive
    {pending : PendingTable}
    {outcomes : List (Except Status RoutedInitial)}
    (hFollows :
      Follows env config whole frames
        (pending.streamOf arrival.source arrival.initial)
        outcomes)
    (hCarries : arrival.Carries env whole) :
    Follows env config whole (frames ++ arrival.frames env)
      ((arrival.route env config pending).1.streamOf
        arrival.source arrival.initial)
      (outcomes ++
        [(arrival.route env config pending).2]) := by
  unfold Arrival.route routeInitialDatagram
  cases hCrypto :
      initialCrypto env.crypto arrival.packet
        arrival.initial with
  | error status =>
      -- Nothing was merged, and the failure is no success.
      dsimp only
      rw [Arrival.frames_eq_nil hCrypto, List.append_nil]
      refine ⟨hFollows.holds, ?_, ?_⟩
      · intro routed hRouted
        rcases List.mem_append.mp hRouted with hOld | hNew
        · exact hFollows.routed routed hOld
        · cases List.mem_singleton.mp hNew
      · intro chosen hChosen
        rcases hFollows.found chosen hChosen with
          ⟨routed, hRouted⟩
        exact ⟨routed, List.mem_append_left _ hRouted⟩
  | ok crypto =>
      dsimp only
      have hEntry :=
        bufferInitial_crypto pending arrival.packet
          arrival.initial arrival.source arrival.now crypto
      have hHeld :=
        bufferInitial_held pending arrival.packet
          arrival.initial arrival.source arrival.now crypto
      generalize
        bufferInitial pending arrival.packet arrival.initial
          arrival.source arrival.now crypto = buffered
        at hEntry hHeld ⊢
      have hMerged :
          buffered.2.1.crypto.Holds whole
            (frames ++ arrival.frames env) := by
        rw [hEntry]
        exact hFollows.holds.merge (hCarries.holds hCrypto)
      have hStream :
          buffered.2.2.streamOf arrival.source
            arrival.initial = buffered.2.1.crypto := by
        unfold streamOf
        rw [hHeld]
      rw [routeCryptoStream_eq]
      refine ⟨?_, ?_, ?_⟩
      · rw [hStream]
        exact hMerged
      · intro routed hRouted
        rcases List.mem_append.mp hRouted with hOld | hNew
        · rcases hFollows.routed routed hOld with
            ⟨sni, hSni, hWhole⟩
          exact ⟨sni, hSni, routeHello_covered _ hWhole⟩
        · rcases except_bind_eq_ok
              (List.mem_singleton.mp hNew).symm with
            ⟨backend, hBackend, hDone⟩
          cases hDone
          cases hChosen :
              routeHello env.hash config
                buffered.2.1.crypto.data
                buffered.2.1.crypto.contiguousLen with
          | error status =>
              rw [hChosen] at hBackend
              cases hBackend
          | ok chosen =>
              rw [hChosen] at hBackend
              cases hBackend
              exact ⟨chosen.1, rfl,
                (routeHello_holds hMerged chosen).mp hChosen⟩
      · intro chosen hChosen
        rw [(routeHello_holds hMerged chosen).mpr hChosen]
        exact ⟨_, List.mem_append_right _
          (List.mem_singleton.mpr rfl)⟩

open PendingTable

open Quic Segments

variable {env : Env} {config : Config} {source : Sockaddr}
variable {initial : Quic.Initial}

/- The frames of some arrivals. -/
def allFrames
    (env : Env)
    (arrivals : List Arrival) : List CryptoFrame :=
  arrivals.flatMap (Arrival.frames env)

theorem streamOf_congr
    {source' : Sockaddr}
    {initial' : Quic.Initial}
    (hSame : SameConnection source initial source' initial')
    (table : PendingTable) :
    table.streamOf source' initial' =
      table.streamOf source initial := by
  unfold streamOf
  rw [held_congr hSame]

theorem Processed.follows
    {whole : Bytes}
    {start after : PendingTable}
    {arrivals : List Arrival}
    {outcomes : List (Except Status RoutedInitial)}
    (hProcessed :
      Processed env config source initial start arrivals
        after outcomes)
    (hFresh : start.held source initial = none)
    (hCarry :
      ∀ arrival ∈ arrivals, arrival.Carries env whole) :
    Follows env config whole (allFrames env arrivals)
      (after.streamOf source initial) outcomes := by
  induction hProcessed with
  | nil =>
      unfold streamOf
      rw [hFresh]
      refine ⟨CryptoStream.init_holds whole, ?_, ?_⟩
      · intro routed hRouted
        cases hRouted
      · intro chosen hChosen
        cases hChosen
  | arrive arrival hProcessed hSame ih =>
      have hBefore :=
        ih (fun other hOther =>
          hCarry other (List.mem_append_left _ hOther))
      rw [← streamOf_congr hSame] at hBefore ⊢
      have hStep :=
        hBefore.arrive
          (hCarry arrival
            (List.mem_append_right _ List.mem_cons_self))
      unfold allFrames at hStep ⊢
      rw [List.flatMap_append, List.flatMap_singleton]
      exact hStep
  | other after hProcessed hKept ih =>
      have hBefore := ih hCarry
      unfold streamOf at hBefore ⊢
      rw [hKept]
      exact hBefore

/- The frames are those of the payloads, in any order. -/
theorem allFrames_perm
    {first second : List Arrival}
    (hPerm :
      (first.map (Arrival.payload env)).Perm
        (second.map (Arrival.payload env))) :
    (allFrames env first).Perm (allFrames env second) := by
  have hFrames := hPerm.flatMap_right carriedFrames
  rw [List.flatMap_map, List.flatMap_map] at hFrames
  exact hFrames

/-
  Two orders of the same payloads, all of whose CRYPTO
  frames carry bytes of one message: the merged streams have
  received the same bytes, every success routes by the name
  that the received front of the message has, and there is a
  success in one order just if there is one in the other.
-/
theorem arrival_order_irrelevant
    {start start' after after' : PendingTable}
    {first second : List Arrival}
    {outcomes outcomes' : List (Except Status RoutedInitial)}
    (whole : Bytes)
    (hPerm :
      (first.map (Arrival.payload env)).Perm
        (second.map (Arrival.payload env)))
    (hCarry : ∀ arrival ∈ first, arrival.Carries env whole)
    (hFresh : start.held source initial = none)
    (hFresh' : start'.held source initial = none)
    (hFirst :
      Processed env config source initial start first after
        outcomes)
    (hSecond :
      Processed env config source initial start' second
        after' outcomes') :
    let stream := after.streamOf source initial
    let stream' := after'.streamOf source initial
    (∀ i,
      stream.received i = stream'.received i ∧
        (stream.received i = true →
          stream.data i = stream'.data i)) ∧
    (∀ routed, Except.ok routed ∈ outcomes →
      ∃ sni,
        routeHello env.hash config routed.entry.crypto.data
            routed.entry.crypto.contiguousLen =
          .ok (sni, routed.backend) ∧
        routeHello env.hash config (byteAt whole)
            stream.contiguousLen =
          .ok (sni, routed.backend)) ∧
    ((∃ routed, Except.ok routed ∈ outcomes) ↔
      ∃ routed, Except.ok routed ∈ outcomes') := by
  have hFrames := allFrames_perm hPerm
  have hCarry' :
      ∀ arrival ∈ second, arrival.Carries env whole := by
    intro arrival hArrival frame hFrame
    have hMem :
        frame ∈ allFrames env first :=
      hFrames.mem_iff.mpr
        (List.mem_flatMap.mpr ⟨arrival, hArrival, hFrame⟩)
    rcases List.mem_flatMap.mp hMem with
      ⟨other, hOther, hFrame'⟩
    exact hCarry other hOther frame hFrame'
  have hFollows := hFirst.follows hFresh hCarry
  have hFollows' := hSecond.follows hFresh' hCarry'
  have hCovered := covered_perm hFrames
  have hLen :
      coveredLen (allFrames env first) =
        coveredLen (allFrames env second) := by
    unfold coveredLen
    rw [hCovered]
  intro stream stream'
  refine ⟨?_, ?_, ?_, ?_⟩
  · intro i
    have hReceived := hFollows.holds.received i
    have hReceived' := hFollows'.holds.received i
    rw [← hCovered] at hReceived'
    refine ⟨hReceived.trans hReceived'.symm, ?_⟩
    intro hSet
    rw [hReceived] at hSet
    rw [hFollows.holds.data i hSet,
      hFollows'.holds.data i (by rw [← hCovered]; exact hSet)]
  · rw [hFollows.holds.contiguousLen]
    exact hFollows.routed
  · rintro ⟨routed, hRouted⟩
    rcases hFollows.routed routed hRouted with
      ⟨sni, _, hWhole⟩
    rw [hLen] at hWhole
    exact hFollows'.found _ hWhole
  · rintro ⟨routed, hRouted⟩
    rcases hFollows'.routed routed hRouted with
      ⟨sni, _, hWhole⟩
    rw [← hLen] at hWhole
    exact hFollows.found _ hWhole

end QuicSniRouter

namespace QuicSniRouter

open PendingTable

namespace Deployment

open Quic

/-
  One of nine Initials that carry the ClientHello of the
  connection to server 1, seven bytes each.
-/
structure Piece where
  number : Nat
  mask : Bytes
  ciphertext : Bytes
  tag : Bytes

namespace Piece

/- The header up to the packet number, unprotected. -/
def header : Bytes :=
  [0xc0, 0, 0, 0, 1, 8] ++ connection1.dcid ++ [1, 1, 0, 37]

/- Its part of the ClientHello. -/
def part
    (piece : Piece) : Bytes :=
  (connection1.clientHello.drop (7 * piece.number)).take 7

/- One CRYPTO frame, padded to 20 bytes. -/
def plaintext
    (piece : Piece) : Bytes :=
  [6, UInt8.ofNat (7 * piece.number),
    UInt8.ofNat piece.part.length] ++ piece.part ++
    List.replicate (17 - piece.part.length) 0

/- The nonce that the piece is sealed with. -/
def nonce
    (piece : Piece) : Bytes :=
  packetNonce connection1.iv piece.number

/- The header protection sample. -/
def sample
    (piece : Piece) : Bytes :=
  (piece.ciphertext.drop 3).take 16

/- The protected Initial, padded to 1200 bytes. -/
def packet
    (piece : Piece) : Bytes :=
  header.set 0 (0xc0 ^^^ (byteAt piece.mask 0 &&& 0x0f)) ++
    [UInt8.ofNat piece.number ^^^ byteAt piece.mask 1] ++
    piece.ciphertext ++ piece.tag ++
    List.replicate 1145 0

end Piece

/- AES-128 and AES-128-GCM along the nine Initials. -/
def pieces : List Piece :=
  [ { number := 0
      mask :=
        [46, 163, 93, 144, 118, 88, 6, 225, 101, 29, 136,
         239, 94, 104, 111, 218]
      ciphertext :=
        [150, 217, 51, 152, 53, 250, 35, 247, 159, 105, 170,
         63, 97, 57, 17, 119, 234, 212, 115, 184]
      tag :=
        [62, 43, 6, 20, 196, 71, 117, 143, 183, 93, 221, 1,
         81, 115, 59, 88] },
    { number := 1
      mask :=
        [55, 199, 94, 71, 124, 141, 64, 168, 211, 229, 133,
         49, 222, 206, 9, 174]
      ciphertext :=
        [134, 164, 90, 1, 203, 125, 143, 113, 113, 58, 65,
         154, 95, 21, 153, 86, 14, 123, 178, 254]
      tag :=
        [7, 157, 147, 222, 41, 79, 111, 212, 126, 9, 32,
         118, 237, 121, 211, 222] },
    { number := 2
      mask :=
        [4, 73, 111, 223, 210, 251, 207, 9, 182, 130, 207,
         152, 142, 201, 169, 201]
      ciphertext :=
        [1, 100, 95, 237, 177, 111, 183, 226, 42, 145, 13,
         98, 157, 219, 91, 177, 103, 62, 212, 23]
      tag :=
        [198, 248, 50, 166, 76, 219, 241, 160, 18, 12, 13,
         7, 221, 179, 140, 198] },
    { number := 3
      mask :=
        [184, 14, 39, 79, 200, 62, 195, 251, 109, 17, 31,
         35, 255, 225, 107, 209]
      ciphertext :=
        [241, 229, 16, 123, 114, 157, 189, 55, 38, 63, 74,
         228, 216, 90, 92, 165, 27, 169, 255, 132]
      tag :=
        [14, 31, 180, 120, 83, 243, 113, 196, 113, 84, 91,
         21, 167, 184, 221, 190] },
    { number := 4
      mask :=
        [176, 108, 117, 151, 122, 105, 166, 138, 20, 69,
         181, 122, 197, 41, 83, 40]
      ciphertext :=
        [123, 180, 180, 124, 243, 120, 48, 1, 5, 80, 163,
         49, 91, 118, 86, 57, 107, 42, 173, 12]
      tag :=
        [158, 29, 51, 165, 27, 208, 6, 200, 37, 119, 115,
         214, 14, 8, 201, 220] },
    { number := 5
      mask :=
        [227, 128, 203, 145, 38, 222, 10, 56, 129, 111, 208,
         11, 104, 4, 110, 140]
      ciphertext :=
        [235, 70, 42, 53, 97, 177, 142, 173, 20, 49, 115,
         84, 34, 230, 10, 109, 36, 6, 128, 247]
      tag :=
        [136, 105, 30, 247, 157, 29, 250, 164, 67, 40, 101,
         123, 112, 15, 216, 152] },
    { number := 6
      mask :=
        [183, 42, 104, 3, 34, 53, 236, 178, 27, 82, 213,
         104, 72, 129, 247, 244]
      ciphertext :=
        [132, 173, 133, 155, 143, 148, 23, 210, 169, 31,
         104, 115, 32, 230, 71, 175, 7, 201, 187, 202]
      tag :=
        [109, 131, 27, 226, 35, 142, 220, 251, 67, 246, 49,
         100, 7, 64, 21, 183] },
    { number := 7
      mask :=
        [68, 76, 161, 30, 164, 79, 168, 203, 203, 30, 119,
         70, 218, 201, 97, 197]
      ciphertext :=
        [17, 141, 186, 124, 236, 250, 144, 128, 215, 122,
         245, 178, 2, 25, 119, 7, 8, 226, 28, 82]
      tag :=
        [169, 172, 201, 191, 186, 156, 196, 250, 50, 246,
         157, 88, 236, 17, 46, 51] },
    { number := 8
      mask :=
        [152, 23, 193, 95, 135, 63, 151, 45, 47, 191, 200,
         44, 241, 207, 143, 110]
      ciphertext :=
        [233, 56, 161, 224, 33, 98, 39, 11, 38, 154, 95,
         224, 8, 126, 154, 95, 89, 88, 133, 129]
      tag :=
        [208, 72, 147, 40, 206, 56, 60, 208, 5, 45, 180, 66,
         178, 69, 177, 154] }]

/- The primitives on the inputs of these Initials as well. -/
def inPieces : Env where
  hash := env.hash
  crypto :=
    let others := handshakes [connection1]
    { others with
      aesEcb := fun key block =>
        ((pieces.find?
          (fun piece =>
            key == connection1.hp &&
              block == piece.sample)).map Piece.mask).or
          (others.aesEcb key block)
      aesGcmOpen := fun key nonce aad encrypted tag =>
        ((pieces.find?
          (fun piece =>
            key == connection1.key && nonce == piece.nonce &&
              aad == Piece.header ++
                [UInt8.ofNat piece.number] &&
              encrypted == piece.ciphertext &&
              tag == piece.tag)).map Piece.plaintext).or
          (others.aesGcmOpen key nonce aad encrypted tag) }

/- The pieces, all parsed alike. -/
def pieceHeader : Quic.Initial :=
  okValue
    (Quic.parseInitial ((pieces.map Piece.packet).headD []))
    (by decide +kernel)

/- The pieces come from the fourth client. -/
def pieceArrivals : List Arrival :=
  pieces.map
    (fun piece =>
      { packet := piece.packet
        initial := pieceHeader
        source := client 4
        now := 0 })

/- The pieces, first to last. -/
def inOrder :
    PendingTable × List (Except Status RoutedInitial) :=
  processAll inPieces byName.config init pieceArrivals

/- The pieces, last to first. -/
def reversed :
    PendingTable × List (Except Status RoutedInitial) :=
  processAll inPieces byName.config init pieceArrivals.reverse

/- Both orders route, having received the same. -/
theorem pieces_in_any_order :
    (∃ routed, Except.ok routed ∈ inOrder.2) ∧
    (∃ routed, Except.ok routed ∈ reversed.2) ∧
    ∀ i,
      (inOrder.1.streamOf (client 4) pieceHeader).received i =
        (reversed.1.streamOf (client 4)
          pieceHeader).received i := by
  have hSame :
      ∀ arrival ∈ pieceArrivals,
        SameConnection (client 4) pieceHeader
          arrival.source arrival.initial := by
    intro arrival hArrival
    rcases List.mem_map.mp hArrival with ⟨piece, _, hEq⟩
    subst hEq
    exact ⟨Sockaddr.equals_refl _, rfl, rfl⟩
  have hRouted : inOrder.2.any Except.isOk = true := by
    decide +kernel
  have hFirst :
      ∃ routed, Except.ok routed ∈ inOrder.2 := by
    rcases List.any_eq_true.mp hRouted with
      ⟨outcome, hOutcome, hOk⟩
    exact ⟨okValue outcome hOk, by
      rw [← eq_okValue outcome hOk]
      exact hOutcome⟩
  have hCarry :
      ∀ arrival ∈ pieceArrivals,
        arrival.Carries inPieces connection1.clientHello := by
    decide +kernel
  have hInOrder :
      Processed inPieces byName.config (client 4)
        pieceHeader init pieceArrivals
        inOrder.1 inOrder.2 :=
    processAll_processed hSame
  have hReversed :
      Processed inPieces byName.config (client 4)
        pieceHeader init pieceArrivals.reverse
        reversed.1 reversed.2 :=
    processAll_processed
      (fun arrival hArrival =>
        hSame arrival (List.mem_reverse.mp hArrival))
  have hBoth :=
    arrival_order_irrelevant connection1.clientHello
      (List.Perm.map _ (List.reverse_perm _).symm) hCarry
      rfl rfl hInOrder hReversed
  exact ⟨hFirst, hBoth.2.2.mp hFirst,
    fun i => (hBoth.1 i).1⟩

end Deployment

end QuicSniRouter
