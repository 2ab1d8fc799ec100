import QuicSniRouter.RouteTable.Basic
import QuicSniRouter.Tls.Grammar

/-
  Host names.  The ClientHello parser and the route table
  check names in loops of their own; both loops accept the
  dot-separated sequences of labels, and the normal form of
  a name is its lower-case form.

  Main declarations:
    * `Hostname.Label`
    * `Hostname`
    * `Hostname.SameName`
    * `hostname_checks_agree`
-/

------------------------------------------------------------
-- Names
------------------------------------------------------------

namespace QuicSniRouter

namespace Hostname

/- An ASCII letter, digit or hyphen. -/
def LabelByte
    (c : UInt8) : Prop :=
  (0x30 ≤ c ∧ c ≤ 0x39) ∨ (0x41 ≤ c ∧ c ≤ 0x5a) ∨
    (0x61 ≤ c ∧ c ≤ 0x7a) ∨ c = 0x2d

/- One label of a name. -/
structure Label
    (label : Bytes) : Prop where
  nonempty : 1 ≤ label.length
  short : label.length ≤ 63
  bytes : ∀ c ∈ label, LabelByte c
  first : label.head? ≠ some 0x2d
  last : label.getLast? ≠ some 0x2d

/- Labels with a dot in front of each but the first. -/
def dotted
    (first : Bytes)
    (others : List Bytes) : Bytes :=
  first ++ others.flatMap (0x2e :: ·)

/- The same byte, or one letter in its two cases. -/
def SameByte
    (a b : UInt8) : Prop :=
  a = b ∨ (0x41 ≤ a ∧ a ≤ 0x5a ∧ b = a + 0x20) ∨
    (0x41 ≤ b ∧ b ≤ 0x5a ∧ a = b + 0x20)

/- Equality up to the case of ASCII letters. -/
def SameName :
    Bytes → Bytes → Prop :=
  List.Forall₂ SameByte

end Hostname

open Hostname in

/- A name of labels, of at most 255 bytes. -/
def Hostname
    (name : Bytes) : Prop :=
  1 ≤ name.length ∧ name.length ≤ 255 ∧
    ∃ first others,
      Label first ∧ (∀ label ∈ others, Label label) ∧
        name = dotted first others

namespace Hostname

variable {c p q previous : UInt8} {n : Nat}

theorem lowerByte_eq_iff
    {a b : UInt8} :
    lowerByte a = lowerByte b ↔ SameByte a b := by
  have hA := a.toNat_lt
  have hB := b.toNat_lt
  unfold lowerByte SameByte
  simp only [UInt8.le_iff_toNat_le, ← UInt8.toNat_inj]
  split <;> split <;>
    simp only [UInt8.toNat_add, UInt8.reduceToNat] at * <;>
    omega

theorem map_lowerByte_eq_iff
    {a b : Bytes} :
    a.map lowerByte = b.map lowerByte ↔ SameName a b := by
  unfold SameName
  induction a generalizing b with
  | nil =>
      cases b with
      | nil => simp
      | cons y b => simp
  | cons x a ih =>
      cases b with
      | nil => simp
      | cons y b =>
          rw [List.map_cons, List.map_cons, List.cons_eq_cons,
            List.forall₂_cons, lowerByte_eq_iff, ih]

theorem lowerByte_lowerByte
    (c : UInt8) :
    lowerByte (lowerByte c) = lowerByte c := by
  apply lowerByte_eq_iff.mpr
  by_cases hUpper : 0x41 ≤ c ∧ c ≤ 0x5a
  · exact Or.inr (Or.inr
      ⟨hUpper.1, hUpper.2, if_pos hUpper⟩)
  · exact Or.inl (if_neg hUpper)

/- Neither a hyphen nor a dot is a folded letter. -/
theorem lowerByte_eq_of_mark
    {mark : UInt8}
    (hMark : mark = 0x2d ∨ mark = 0x2e) :
    lowerByte c = mark ↔ c = mark := by
  have hC := c.toNat_lt
  unfold lowerByte
  rcases hMark with hMark | hMark <;> subst hMark <;>
    simp only [UInt8.le_iff_toNat_le, ← UInt8.toNat_inj] <;>
    split <;>
    simp only [UInt8.toNat_add, UInt8.reduceToNat] at * <;>
    omega

open Tls

/- Bytes that both loops treat alike. -/
structure Alike
    (a b : UInt8) : Prop where
  dot : a = 0x2e ↔ b = 0x2e
  hyphen : a = 0x2d ↔ b = 0x2d
  alnum : isAlnum a = isAlnum b

theorem isAlnum_iff
    (c : UInt8) :
    (isAlnum c || c == 0x2d) = true ↔ LabelByte c := by
  unfold isAlnum LabelByte
  simp only [Bool.or_eq_true, Bool.and_eq_true,
    decide_eq_true_eq, beq_iff_eq, or_assoc]

theorem lowerByte_alike
    (c : UInt8) :
    Alike (lowerByte c) c where
  dot := lowerByte_eq_of_mark (Or.inr rfl)
  hyphen := lowerByte_eq_of_mark (Or.inl rfl)
  alnum := by
    have hC := c.toNat_lt
    unfold isAlnum lowerByte
    rw [Bool.eq_iff_iff]
    simp only [Bool.or_eq_true, Bool.and_eq_true,
      decide_eq_true_eq, UInt8.le_iff_toNat_le]
    split
    · simp only [UInt8.toNat_add, UInt8.reduceToNat] at *
      omega
    · simp only [UInt8.reduceToNat]

theorem validLabels_lower
    {name : Bytes}
    (hHyphen : p = 0x2d ↔ q = 0x2d) :
    validLabels (name.map lowerByte) n p =
      validLabels name n q := by
  induction name generalizing n p q with
  | nil =>
      rw [List.map_nil]
      unfold validLabels
      have hBne : (p != 0x2d) = (q != 0x2d) := by
        rw [Bool.eq_iff_iff, bne_iff_ne, bne_iff_ne]
        exact not_congr hHyphen
      rw [hBne]
  | cons c name ih =>
      have hAlike := lowerByte_alike c
      have hBeq : (lowerByte c == 0x2d) = (c == 0x2d) := by
        rw [Bool.eq_iff_iff, beq_iff_eq, beq_iff_eq]
        exact hAlike.hyphen
      rw [List.map_cons]
      unfold validLabels
      rw [hAlike.alnum, hBeq]
      simp only [hAlike.dot, hAlike.hyphen, hHyphen,
        ih hAlike.hyphen]

theorem normalizeLabels_eq
    {name : Bytes}
    (hHyphen : p = 0x2d ↔ q = 0x2d) :
    normalizeLabels name n p =
      if validLabels name n q = true then
        some (name.map lowerByte)
      else
        none := by
  induction name generalizing n p q with
  | nil =>
      unfold normalizeLabels validLabels
      simp only [hHyphen, Bool.and_eq_true,
        decide_eq_true_eq, bne_iff_ne]
      by_cases hBad : n = 0 ∨ n > 63 ∨ q = 0x2d
      · rw [if_pos hBad, if_neg]
        rintro ⟨⟨hPos, hShort⟩, hNe⟩
        rcases hBad with hBad | hBad | hBad
        · omega
        · omega
        · exact hNe hBad
      · rw [if_neg hBad, if_pos]
        · rfl
        · rw [not_or, not_or] at hBad
          exact ⟨⟨by omega, by omega⟩, hBad.2.2⟩
  | cons c name ih =>
      -- The same ranges, tested in another order.
      have hSame :
          ((0x61 ≤ c && c ≤ 0x7a) || (0x41 ≤ c && c ≤ 0x5a) ||
            (0x30 ≤ c && c ≤ 0x39) || c == 0x2d) =
          (isAlnum c || c == 0x2d) := by
        unfold isAlnum
        rw [Bool.or_comm (_ || _) (0x30 ≤ c && c ≤ 0x39),
          Bool.or_comm (0x61 ≤ c && c ≤ 0x7a),
          ← Bool.or_assoc]
      unfold normalizeLabels validLabels
      rw [hSame]
      simp only [hHyphen]
      by_cases hDot : c = 0x2e
      · rw [if_pos hDot, if_pos hDot]
        by_cases hBad : n = 0 ∨ n > 63 ∨ q = 0x2d
        · rw [if_pos hBad, if_pos hBad]
          rfl
        · rw [if_neg hBad, if_neg hBad, hDot,
            ih (Iff.refl (0x2e = 0x2d))]
          cases validLabels name 0 0x2e with
          | true => rfl
          | false => rfl
      · rw [if_neg hDot, if_neg hDot]
        by_cases hOther : (!(isAlnum c || c == 0x2d)) = true
        · rw [if_pos hOther, if_pos hOther]
          rfl
        · rw [if_neg hOther, if_neg hOther]
          by_cases hFirst : n = 0 ∧ c = 0x2d
          · rw [if_pos hFirst, if_pos hFirst]
            rfl
          · rw [if_neg hFirst, if_neg hFirst,
              ih (lowerByte_alike c).hyphen]
            cases validLabels name (n + 1) c with
            | true => rfl
            | false => rfl

/- The loops agree, and one of them folds the letters. -/
theorem normalizeHostname_eq
    (name : Bytes) :
    normalizeHostname name (maxHostnameLen + 1) =
      if validHostname name = true then
        some (name.map lowerByte)
      else
        none := by
  unfold normalizeHostname validHostname
  have hBuffer :
      name.length ≥ maxHostnameLen + 1 ↔
        name.length > maxHostnameLen :=
    Nat.lt_iff_add_one_le.symm
  simp only [hBuffer]
  rw [normalizeLabels_eq (Iff.refl (0 = 0x2d))]
  by_cases hBad :
      name.length = 0 ∨ name.length > maxHostnameLen ∨
        byteAt name 0 = 0x2e ∨
        byteAt name (name.length - 1) = 0x2e
  · rw [if_pos hBad, if_pos hBad]
    rfl
  · rw [if_neg hBad, if_neg hBad]

------------------------------------------------------------
-- The Loops And The Labels
------------------------------------------------------------

variable {seen rest first : Bytes} {others : List Bytes}

/- The part of a label that the loop has passed. -/
structure Open
    (seen : Bytes)
    (previous : UInt8) : Prop where
  bytes : ∀ c ∈ seen, LabelByte c
  first : seen.head? ≠ some 0x2d
  last : seen ≠ [] → seen.getLast? = some previous

theorem Open.nil
    (previous : UInt8) :
    Open [] previous where
  bytes := by simp
  first := by simp
  last := by simp

theorem Open.snoc
    (hOpen : Open seen previous)
    (hByte : LabelByte c)
    (hFirst : ¬ (seen.length = 0 ∧ c = 0x2d)) :
    Open (seen ++ [c]) c where
  bytes := by
    intro b hMem
    rcases List.mem_append.mp hMem with hMem | hMem
    · exact hOpen.bytes b hMem
    · rw [List.mem_singleton.mp hMem]
      exact hByte
  first := by
    cases seen with
    | nil => simpa using hFirst
    | cons b seen => exact hOpen.first
  last := by simp

/- Where a label may end. -/
theorem Open.label_iff
    (hOpen : Open seen previous) :
    Label seen ↔
      ¬ (seen.length = 0 ∨ seen.length > 63 ∨
        previous = 0x2d) := by
  constructor
  · intro hLabel hBad
    have hNonempty := hLabel.nonempty
    have hShort := hLabel.short
    rcases hBad with hBad | hBad | hBad
    · omega
    · omega
    · apply hLabel.last
      rw [← hBad]
      apply hOpen.last
      intro hNil
      simp [hNil] at hNonempty
  · intro hGood
    rw [not_or, not_or] at hGood
    refine ⟨by omega, by omega, hOpen.bytes, hOpen.first, ?_⟩
    have hNonempty : seen ≠ [] := by
      intro hNil
      exact hGood.1 (by rw [hNil]; rfl)
    rw [hOpen.last hNonempty]
    intro hEq
    exact hGood.2.2 (Option.some.inj hEq)

theorem LabelByte.ne_dot
    (hByte : LabelByte c) :
    c ≠ 0x2e := by
  intro hEq
  subst hEq
  revert hByte
  unfold LabelByte
  decide

/- What stands before the first dot. -/
theorem takeWhile_dotted
    (hBytes : ∀ c ∈ first, LabelByte c)
    (others : List Bytes) :
    (dotted first others).takeWhile (· != 0x2e) = first := by
  have hFirst :
      ∀ c ∈ first, (c != 0x2e) = true := by
    intro c hMem
    exact bne_iff_ne.mpr (hBytes c hMem).ne_dot
  unfold dotted
  rw [List.takeWhile_append_of_pos hFirst]
  cases others with
  | nil => simp
  | cons label others => simp

theorem dotted_inj
    {first' : Bytes}
    {others' : List Bytes}
    (hBytes : ∀ c ∈ first, LabelByte c)
    (hBytes' : ∀ c ∈ first', LabelByte c)
    (hEq : dotted first others = dotted first' others') :
    first = first' ∧
      others.flatMap (0x2e :: ·) =
        others'.flatMap (0x2e :: ·) := by
  have hSame : first = first' := by
    rw [← takeWhile_dotted hBytes others, hEq,
      takeWhile_dotted hBytes' others']
  refine ⟨hSame, ?_⟩
  unfold dotted at hEq
  rw [hSame] at hEq
  exact List.append_cancel_left hEq

/- A sequence of labels with a given start. -/
def Continues
    (seen rest : Bytes) : Prop :=
  ∃ first others,
    Label first ∧ (∀ label ∈ others, Label label) ∧
      seen ++ rest = dotted first others

theorem continues_nil_iff
    (hOpen : Open seen previous) :
    Continues seen [] ↔ Label seen := by
  constructor
  · rintro ⟨first, others, hFirst, _, hEq⟩
    have hAlone : seen ++ [] = dotted seen [] := rfl
    rw [hAlone] at hEq
    rw [(dotted_inj hOpen.bytes hFirst.bytes hEq).1]
    exact hFirst
  · intro hLabel
    exact ⟨seen, [], hLabel, by simp, rfl⟩

theorem continues_dot_iff
    (hOpen : Open seen previous) :
    Continues seen (0x2e :: rest) ↔
      Label seen ∧ Continues [] rest := by
  constructor
  · rintro ⟨first, others, hFirst, hOthers, hEq⟩
    have hWhole : dotted seen [rest] = seen ++ 0x2e :: rest := by
      simp [dotted]
    rw [← hWhole] at hEq
    rcases dotted_inj hOpen.bytes hFirst.bytes hEq with
      ⟨hSame, hRest⟩
    rw [hSame]
    refine ⟨hFirst, ?_⟩
    cases others with
    | nil => simp at hRest
    | cons label others =>
        refine ⟨label, others, hOthers label (by simp),
          fun l hMem => hOthers l (by simp [hMem]), ?_⟩
        simpa [dotted] using hRest
  · rintro ⟨hLabel, first, others, hFirst, hOthers, hEq⟩
    refine ⟨seen, first :: others, hLabel, ?_, ?_⟩
    · intro label hMem
      rcases List.mem_cons.mp hMem with hMem | hMem
      · rw [hMem]
        exact hFirst
      · exact hOthers label hMem
    · rw [List.nil_append] at hEq
      rw [hEq]
      simp [dotted]

/- Every byte of a name is a dot or belongs to a label. -/
theorem Continues.byte
    (hContinues : Continues seen rest)
    (hMem : c ∈ seen ++ rest) :
    c = 0x2e ∨ LabelByte c := by
  rcases hContinues with ⟨first, others, hFirst, hOthers, hEq⟩
  rw [hEq] at hMem
  unfold dotted at hMem
  rcases List.mem_append.mp hMem with hMem | hMem
  · exact Or.inr (hFirst.bytes c hMem)
  · rcases List.mem_flatMap.mp hMem with ⟨label, hLabel, hMem⟩
    rcases List.mem_cons.mp hMem with hMem | hMem
    · exact Or.inl hMem
    · exact Or.inr ((hOthers label hLabel).bytes c hMem)

theorem Continues.head
    (hContinues : Continues [] rest) :
    rest.head? ≠ some 0x2d := by
  rcases hContinues with ⟨first, others, hFirst, _, hEq⟩
  rw [List.nil_append] at hEq
  rw [hEq]
  unfold dotted
  cases first with
  | nil => exact absurd hFirst.nonempty (by simp)
  | cons c first => exact hFirst.first

/- The loop goes on from a label of which it has a part. -/
theorem validLabels_iff
    (hOpen : Open seen previous) :
    validLabels rest seen.length previous = true ↔
      Continues seen rest := by
  induction rest generalizing seen previous with
  | nil =>
      rw [continues_nil_iff hOpen, hOpen.label_iff]
      unfold validLabels
      rw [Bool.and_eq_true, Bool.and_eq_true,
        decide_eq_true_eq, decide_eq_true_eq, bne_iff_ne,
        not_or, not_or, and_assoc]
      refine and_congr (by omega) (and_congr (by omega) ?_)
      rfl
  | cons c rest ih =>
      unfold validLabels
      by_cases hDot : c = 0x2e
      · rw [if_pos hDot, hDot, continues_dot_iff hOpen,
          hOpen.label_iff, ← ih (Open.nil 0x2e)]
        simp
      · rw [if_neg hDot]
        by_cases hByte : (isAlnum c || c == 0x2d) = true
        · rw [hByte]
          by_cases hFirst : seen.length = 0 ∧ c = 0x2d
          · -- A label does not start with a hyphen.
            have hNil := List.length_eq_zero_iff.mp hFirst.1
            rw [if_neg (by simp), if_pos hFirst, hNil]
            refine iff_of_false (by simp) ?_
            intro hContinues
            apply hContinues.head
            rw [hFirst.2]
            rfl
          · have hNext :=
              ih (hOpen.snoc ((isAlnum_iff c).mp hByte) hFirst)
            rw [List.length_append] at hNext
            rw [if_neg (by simp), if_neg hFirst]
            unfold Continues at hNext ⊢
            rw [List.append_assoc] at hNext
            exact hNext
        · rw [if_pos (by simp [hByte])]
          refine iff_of_false (by simp) ?_
          intro hContinues
          rcases hContinues.byte (c := c) (by simp) with
            hEq | hLabelByte
          · exact hDot hEq
          · exact hByte ((isAlnum_iff c).mpr hLabelByte)

variable {name : Bytes}

/- The loop itself refuses a dot at the end. -/
theorem validLabels_snoc_dot
    (name : Bytes)
    (n : Nat)
    (previous : UInt8) :
    validLabels (name ++ [0x2e]) n previous = false := by
  induction name generalizing n previous with
  | nil => simp [validLabels]
  | cons c name ih => simp [validLabels, ih]

theorem byteAt_last_ne_dot
    (hLabels : validLabels name 0 0 = true) :
    byteAt name (name.length - 1) ≠ 0x2e := by
  intro hDot
  rcases List.eq_nil_or_concat name with hNil | hConcat
  · rw [hNil] at hDot
    revert hDot
    decide
  · rcases hConcat with ⟨front, last, hName⟩
    have hLast : last = 0x2e := by
      rw [← hDot, hName]
      simp [byteAt]
    rw [hName, hLast, List.concat_eq_append,
      validLabels_snoc_dot] at hLabels
    cases hLabels

theorem byteAt_first_ne_dot
    (hLabels : validLabels name 0 0 = true) :
    byteAt name 0 ≠ 0x2e := by
  intro hDot
  cases name with
  | nil =>
      revert hDot
      decide
  | cons c name =>
      have hEq : c = 0x2e := hDot
      rw [hEq] at hLabels
      simp [validLabels] at hLabels

/- The check accepts the names, and only them. -/
theorem validHostname_iff
    (name : Bytes) :
    validHostname name = true ↔ Hostname name := by
  have hLoop :
      validLabels name 0 0 = true ↔ Continues [] name :=
    validLabels_iff (Open.nil 0)
  unfold validHostname
  constructor
  · intro hValid
    split at hValid
    · cases hValid
    · rename_i hGood
      rw [not_or, not_or] at hGood
      exact ⟨Nat.pos_of_ne_zero hGood.1,
        Nat.le_of_not_lt hGood.2.1, hLoop.mp hValid⟩
  · rintro ⟨hNonempty, hShort, hLabels⟩
    have hValid := hLoop.mpr hLabels
    rw [if_neg]
    · exact hValid
    · rintro (hBad | hBad | hBad | hBad)
      · omega
      · exact Nat.not_lt_of_le hShort hBad
      · exact byteAt_first_ne_dot hValid hBad
      · exact byteAt_last_ne_dot hValid hBad

/- Names are normalized to lower case. -/
theorem normalizeHostname_eq_some
    {normal : Bytes} :
    normalizeHostname name (maxHostnameLen + 1) =
        some normal ↔
      Hostname name ∧ normal = name.map lowerByte := by
  rw [normalizeHostname_eq, ← validHostname_iff]
  cases validHostname name with
  | true => simp [eq_comm]
  | false => simp

/- Names are names in any case. -/
theorem hostname_lower_iff
    (name : Bytes) :
    Hostname (name.map lowerByte) ↔ Hostname name := by
  have hLoop :
      Continues [] (name.map lowerByte) ↔
        Continues [] name := by
    rw [← validLabels_iff (Open.nil 0),
      ← validLabels_iff (Open.nil 0),
      validLabels_lower (Iff.refl (0 = 0x2d))]
  have hLength := @List.length_map _ _ name lowerByte
  constructor
  · rintro ⟨hNonempty, hShort, hLabels⟩
    rw [hLength] at hNonempty hShort
    exact ⟨hNonempty, hShort, hLoop.mp hLabels⟩
  · rintro ⟨hNonempty, hShort, hLabels⟩
    rw [← hLength] at hNonempty hShort
    exact ⟨hNonempty, hShort, hLoop.mpr hLabels⟩

theorem map_lowerByte_idem
    (name : Bytes) :
    (name.map lowerByte).map lowerByte =
      name.map lowerByte := by
  rw [List.map_map]
  apply List.map_congr_left
  intro c _
  exact lowerByte_lowerByte c

open Tls Tls.Grammar

/- A field behind its length in `n` bytes. -/
def field
    (n : Nat)
    (content : Bytes) : Bytes :=
  Octets.encode n content.length ++ content

/- A server name list with one entry. -/
def serverName
    (name : Bytes) : Bytes :=
  field 2 (0 :: field 2 name)

/- A hello with no other content than its server name. -/
def presenting
    (name : Bytes) : Bytes :=
  1 :: field 3
    (List.replicate 34 0 ++
      (field 1 [] ++ (field 2 [] ++ (field 1 [] ++
        field 2 ([0, 0] ++ field 2 (serverName name))))))

theorem field_prefixed
    {content : Bytes}
    (hFits : content.length < 256 ^ n)
    (rest : Bytes) :
    Prefixed n content (field n content ++ rest) rest := by
  refine ⟨Octets.encode n content.length,
    Octets.length_encode _ _, beNat_encode hFits, ?_⟩
  unfold field
  rw [List.append_assoc]

theorem length_field
    (n : Nat)
    (content : Bytes) :
    (field n content).length = n + content.length := by
  unfold field
  rw [List.length_append, Octets.length_encode]

theorem length_serverName
    (name : Bytes) :
    (serverName name).length = name.length + 5 := by
  unfold serverName
  rw [length_field, List.length_cons, length_field]
  omega

theorem serverName_extensions
    (hShort : name.length ≤ 255) :
    Extensions name
      ([0, 0] ++ field 2 (serverName name)) := by
  have hEntry := field_prefixed
    (show name.length < 256 ^ 2 by omega) []
  have hList := field_prefixed
    (show (0 :: field 2 name).length < 256 ^ 2 by
      rw [List.length_cons, length_field]
      omega) []
  have hData := field_prefixed
    (show (serverName name).length < 256 ^ 2 by
      rw [length_serverName]
      omega) []
  rw [List.append_nil] at hEntry hList hData
  exact Extensions.serverName rfl rfl hData
    ⟨_, _, hList, NameList.host hEntry⟩

/- A hello that presents the name. -/
theorem presenting_message
    (hShort : name.length ≤ 255) :
    Message name (presenting name) := by
  have hEmpty (n : Nat) (rest : Bytes) :
      Prefixed n [] (field n [] ++ rest) rest :=
    field_prefixed (Nat.pow_pos (by decide)) rest
  have hArea :
      ([0, 0] ++ field 2 (serverName name)).length =
        name.length + 9 := by
    rw [List.length_append, length_field, length_serverName]
    simp only [List.length_cons, List.length_nil]
    omega
  refine ⟨_, _, rfl, Octets.length_encode _ _, ?_⟩
  rw [beNat_encode, List.take_length]
  · refine ⟨_, _, [], _, [], _, [], _, _, _, rfl,
      List.length_replicate, hEmpty 1 _, hEmpty 2 _, rfl,
      hEmpty 1 _, rfl, Octets.length_encode _ _, ?_⟩
    rw [beNat_encode (by rw [hArea]; omega), List.take_length]
    exact serverName_extensions hShort
  · simp only [List.length_append, length_field, hArea,
      List.length_replicate, List.length_nil]
    omega

theorem length_presenting
    (name : Bytes) :
    (presenting name).length = name.length + 53 := by
  unfold presenting
  simp only [List.length_append, List.length_cons,
    length_field, List.length_replicate, List.length_nil,
    length_serverName]
  omega

/- Every name can be sent in a ClientHello. -/
theorem presenting_accepted
    (hName : Hostname name) :
    clientHelloSni (byteAt (presenting name))
      (presenting name).length = .ok name := by
  have hShort := hName.2.1
  have hBound :
      (presenting name).length ≤ maxClientHelloSize := by
    rw [length_presenting]
    exact Nat.le_trans (Nat.add_le_add_right hShort 53)
      (by decide)
  rw [clientHelloSni_wire, inputBytes_byteAt]
  apply (Wire.clientHelloSni_iff hBound).mpr
  refine ⟨?_, (validHostname_iff name).mpr hName⟩
  unfold Input
  rw [if_neg]
  · exact presenting_message hShort
  · rintro ⟨_, hRecord⟩
    cases hRecord

/- A name that was read from a ClientHello is one. -/
theorem hostname_of_sni
    {memory : Nat → UInt8}
    {len : Nat}
    (hSni : clientHelloSni memory len = .ok name) :
    Hostname name := by
  rw [clientHelloSni_wire] at hSni
  exact (validHostname_iff name).mp
    ((Wire.clientHelloSni_iff
      (Wire.length_of_clientHelloSni hSni)).mp hSni).2

end Hostname

open Hostname Tls in
/-
  Both checks accept the host names, the normal form is the
  lower-case name, and it identifies names up to case.  So a
  name out of a ClientHello is never refused by the route
  table, and every name it accepts can be sent by a client.
-/
theorem hostname_checks_agree :
    (∀ name,
      (validHostname name = true ↔ Hostname name) ∧
        ((∃ normal,
          normalizeHostname name (maxHostnameLen + 1) =
            some normal) ↔ Hostname name)) ∧
    (∀ name normal,
      normalizeHostname name (maxHostnameLen + 1) =
          some normal →
        normal = name.map lowerByte ∧
          normalizeHostname normal (maxHostnameLen + 1) =
            some normal) ∧
    (∀ a b normalA normalB,
      normalizeHostname a (maxHostnameLen + 1) =
          some normalA →
      normalizeHostname b (maxHostnameLen + 1) =
          some normalB →
        (normalA = normalB ↔ SameName a b)) ∧
    (∀ memory len name,
      clientHelloSni memory len = .ok name →
        ∃ normal,
          normalizeHostname name (maxHostnameLen + 1) =
            some normal) ∧
    (∀ name normal,
      normalizeHostname name (maxHostnameLen + 1) =
          some normal →
        ∃ input : Bytes,
          clientHelloSni (byteAt input) input.length =
            .ok name) := by
  refine ⟨?_, ?_, ?_, ?_, ?_⟩
  · intro name
    refine ⟨validHostname_iff name, ?_⟩
    constructor
    · rintro ⟨normal, hNormal⟩
      exact (normalizeHostname_eq_some.mp hNormal).1
    · intro hName
      exact ⟨_, normalizeHostname_eq_some.mpr ⟨hName, rfl⟩⟩
  · intro name normal hNormal
    rcases normalizeHostname_eq_some.mp hNormal with
      ⟨hName, hLower⟩
    refine ⟨hLower, ?_⟩
    apply normalizeHostname_eq_some.mpr
    rw [hLower]
    exact ⟨(hostname_lower_iff name).mpr hName,
      (map_lowerByte_idem name).symm⟩
  · intro a b normalA normalB hA hB
    rw [(normalizeHostname_eq_some.mp hA).2,
      (normalizeHostname_eq_some.mp hB).2]
    exact map_lowerByte_eq_iff
  · intro memory len name hSni
    exact ⟨_, normalizeHostname_eq_some.mpr
      ⟨hostname_of_sni hSni, rfl⟩⟩
  · intro name normal hNormal
    exact ⟨presenting name, presenting_accepted
      (normalizeHostname_eq_some.mp hNormal).1⟩

end QuicSniRouter
