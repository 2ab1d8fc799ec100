import QuicSniRouter.SessionTable.Contents

/-
  The bytes that a session key is hashed over.  Two flag
  bytes say which parts follow, and each part stands behind
  its length, so that the bytes determine the key as far as
  keys are compared.

  Main declarations:
    * `SessionKey.Built` and `SessionKey.Bare`
    * `SessionKey.serialize_counted`
    * `SessionKey.equals_of_serialize`
    * `SessionKey.serialize_distinguishes`
-/

------------------------------------------------------------
-- The Layout
------------------------------------------------------------

namespace QuicSniRouter

open Octets

namespace SessionKey

variable {key : SessionKey}

/- The parts of a key fit into the arrays they are kept in. -/
structure Bounded
    (key : SessionKey) : Prop where
  client : key.hasTuple = true → key.client.len ≤ 128
  dcid : key.dcid.length ≤ 20
  scid : key.scid.length ≤ 20

theorem bounded_of_valid
    (hValid : key.valid = true) :
    key.Bounded := by
  simp only [valid, Sockaddr.valid, Bool.and_eq_true,
    Bool.or_eq_true, Bool.not_eq_true', decide_eq_true_eq]
    at hValid
  rcases hValid with ⟨⟨⟨⟨_, hDcid⟩, hScid⟩, hClient⟩, _⟩
  refine ⟨?_, hDcid, hScid⟩
  intro hTuple
  rcases hClient with hNone | hAddr
  · rw [hTuple] at hNone
    cases hNone
  · exact hAddr.1.2

/- Two flags, then each part behind its own length. -/
theorem serialize_counted
    (hBounded : key.Bounded) :
    key.serialize = (if key.hasTuple then 1 else 0) ::
      (if key.hasCids then 1 else 0) ::
      ((if key.hasTuple then counted key.client.bytes
        else []) ++
      (if key.hasCids then
        counted key.dcid ++ counted key.scid
      else [])) := by
  have hClient :
      (if key.hasTuple then
        UInt8.ofNat key.client.len :: key.client.bytes
      else []) =
        if key.hasTuple then counted key.client.bytes
        else [] := by
    cases hTuple : key.hasTuple with
    | false => rfl
    | true =>
        unfold counted
        rw [Sockaddr.length_bytes (hBounded.client hTuple)]
  unfold serialize
  rw [hClient]
  rfl

/- The bytes fit into the buffer of `key_hash`. -/
theorem length_serialize_le
    (hBounded : key.Bounded) :
    key.serialize.length ≤ 192 := by
  have hDcid := hBounded.dcid
  have hScid := hBounded.scid
  rw [serialize_counted hBounded]
  have hClient :
      (if key.hasTuple then counted key.client.bytes
        else []).length ≤ 129 := by
    cases hTuple : key.hasTuple with
    | false => simp
    | true =>
        have hLen := hBounded.client hTuple
        have hBytes := Sockaddr.length_bytes hLen
        simp only [if_true, length_counted]
        omega
  have hIds :
      (if key.hasCids then
        counted key.dcid ++ counted key.scid
      else []).length ≤ 42 := by
    cases key.hasCids with
    | false => simp
    | true =>
        simp only [if_true, List.length_append,
          length_counted]
        omega
  simp only [List.length_cons, List.length_append]
  omega

/- The keys that the three constructors return. -/
inductive Built : SessionKey → Prop
  | tuple
      (addr : Sockaddr) :
      Built (tupleKey addr)
  | cids
      (dcid scid : Bytes) :
      Built (cidKey dcid scid)
  | single
      (cid : Bytes) :
      Built (singleCidKey cid)

/- The parts of a key that its flags leave out are empty. -/
structure Bare
    (key : SessionKey) : Prop where
  client : key.hasTuple = false → key.client.len = 0
  ids :
    key.hasCids = false → key.dcid = [] ∧ key.scid = []

theorem zero_bare :
    zero.Bare :=
  ⟨fun _ => rfl, fun _ => ⟨rfl, rfl⟩⟩

theorem cidKey_bare
    (dcid scid : Bytes) :
    (cidKey dcid scid).Bare := by
  unfold cidKey
  split
  · refine ⟨fun _ => rfl, ?_⟩
    intro hNone
    cases hNone
  · exact zero_bare

theorem Built.bare
    (hBuilt : key.Built) :
    key.Bare := by
  cases hBuilt with
  | tuple addr =>
      unfold tupleKey
      split
      · refine ⟨?_, fun _ => ⟨rfl, rfl⟩⟩
        intro hNone
        cases hNone
      · exact zero_bare
  | cids dcid scid => exact cidKey_bare dcid scid
  | single cid =>
      unfold singleCidKey
      split
      · exact zero_bare
      · exact cidKey_bare cid []

variable {a b : SessionKey}

/- A part that both keys have or both keys lack. -/
theorem optional_append_inj
    {flag : Bool}
    {x y restX restY : Bytes}
    (hX : flag = true → x.length < 256)
    (hY : flag = true → y.length < 256)
    (hEq :
      (if flag then counted x else []) ++ restX =
        (if flag then counted y else []) ++ restY) :
    (flag = true → x = y) ∧ restX = restY := by
  cases flag with
  | false =>
      refine ⟨?_, hEq⟩
      intro hTrue
      cases hTrue
  | true =>
      rcases counted_append_inj (hX rfl) (hY rfl) hEq with
        ⟨hBytes, hRest⟩
      exact ⟨fun _ => hBytes, hRest⟩

theorem flag_inj
    {x y : Bool}
    (hEq :
      (if x then 1 else 0 : UInt8) = if y then 1 else 0) :
    x = y := by
  cases x <;> cases y <;> simp_all

/- Keys over the same bytes have the same parts. -/
theorem parts_of_serialize
    (hA : a.Bounded)
    (hB : b.Bounded)
    (hEq : a.serialize = b.serialize) :
    a.hasTuple = b.hasTuple ∧ a.hasCids = b.hasCids ∧
      (a.hasTuple = true → a.client.bytes = b.client.bytes) ∧
      (a.hasCids = true →
        a.dcid = b.dcid ∧ a.scid = b.scid) := by
  rw [serialize_counted hA, serialize_counted hB] at hEq
  rcases List.cons.inj hEq with ⟨hFirst, hEq⟩
  rcases List.cons.inj hEq with ⟨hSecond, hEq⟩
  have hTuple := flag_inj hFirst
  have hCids := flag_inj hSecond
  rw [← hTuple, ← hCids] at hEq
  have hShort (key : SessionKey) (hKey : key.Bounded)
      (hFlag : key.hasTuple = true) :
      key.client.bytes.length < 256 := by
    have hLen := hKey.client hFlag
    rw [Sockaddr.length_bytes hLen]
    omega
  rcases optional_append_inj (hShort a hA)
      (fun hFlag => hShort b hB (hTuple ▸ hFlag)) hEq with
    ⟨hClient, hIds⟩
  refine ⟨hTuple, hCids, hClient, ?_⟩
  intro hFlag
  rw [hFlag] at hIds
  have hDcidA := hA.dcid
  have hDcidB := hB.dcid
  have hScidA := hA.scid
  have hScidB := hB.scid
  rcases counted_append_inj (by omega) (by omega) hIds with
    ⟨hDcid, hScid⟩
  have hScid :
      counted a.scid ++ [] = counted b.scid ++ [] := by
    rw [hScid]
  exact ⟨hDcid,
    (counted_append_inj (by omega) (by omega) hScid).1⟩

/- Without bytes in absent parts, such keys are equal. -/
theorem equals_of_serialize
    (hA : a.Bounded)
    (hB : b.Bounded)
    (hBareA : a.Bare)
    (hBareB : b.Bare)
    (hEq : a.serialize = b.serialize) :
    a.equals b = true := by
  rcases parts_of_serialize hA hB hEq with
    ⟨hTuple, hCids, hClient, hIds⟩
  have hLen : a.client.len = b.client.len := by
    cases hFlag : a.hasTuple with
    | false =>
        rw [hBareA.client hFlag,
          hBareB.client (hTuple ▸ hFlag)]
    | true =>
        rw [← Sockaddr.length_bytes (hA.client hFlag),
          hClient hFlag, Sockaddr.length_bytes
            (hB.client (hTuple ▸ hFlag))]
  have hSame : a.dcid = b.dcid ∧ a.scid = b.scid := by
    cases hFlag : a.hasCids with
    | false =>
        rcases hBareA.ids hFlag with ⟨hDcidA, hScidA⟩
        rcases hBareB.ids (hCids ▸ hFlag) with
          ⟨hDcidB, hScidB⟩
        rw [hDcidA, hDcidB, hScidA, hScidB]
        exact ⟨rfl, rfl⟩
    | true => exact hIds hFlag
  exact equals_iff.mpr
    ⟨hTuple, hCids, hLen, congrArg List.length hSame.1,
      congrArg List.length hSame.2, hClient, hIds⟩

/-
  Among the valid keys that the constructors build, the
  bytes that are hashed tell exactly the unequal keys apart.
  They never exceed the buffer, and equal keys start probing
  at one slot whatever the hash and the capacity.
-/
theorem serialize_distinguishes
    (hBuiltA : a.Built)
    (hBuiltB : b.Built)
    (hValidA : a.valid = true)
    (hValidB : b.valid = true) :
    (a.serialize = b.serialize ↔ a.equals b = true) ∧
      a.serialize.length ≤ 192 ∧
      b.serialize.length ≤ 192 ∧
      (a.equals b = true →
        ∀ hash capacity,
          a.hash hash capacity = b.hash hash capacity) := by
  have hA := bounded_of_valid hValidA
  have hB := bounded_of_valid hValidB
  refine ⟨⟨?_, serialize_eq⟩, length_serialize_le hA,
    length_serialize_le hB, ?_⟩
  · intro hEq
    exact equals_of_serialize hA hB hBuiltA.bare
      hBuiltB.bare hEq
  · intro hEquals hash capacity
    exact hash_eq hash capacity hEquals

/- An id alone, and the same id in front of a second one. -/
theorem serialize_distinguishes_ids :
    (singleCidKey (List.replicate 8 7)).serialize ≠
        (cidKey (List.replicate 8 7) [1]).serialize ∧
      (singleCidKey
        (List.replicate 8 7)).serialize.length ≤ 192 := by
  have hBoth :=
    serialize_distinguishes
      (Built.single (List.replicate 8 7))
      (Built.cids (List.replicate 8 7) [1])
      (by decide) (by decide)
  refine ⟨?_, hBoth.2.1⟩
  intro hEq
  have hEquals := hBoth.1.mp hEq
  revert hEquals
  decide

end SessionKey

end QuicSniRouter
