import QuicSniRouter.Config

/-
  The numbers of a configuration file.  The parsers rely on
  `strtoul`, which takes white space and a sign in front of
  the digits, and one parser serves durations, with their
  suffix, and ports alike.  The texts on which this makes a
  difference are described.

  Main declarations:
    * `Scalar.Spells`
    * `Scalar.Plain`
    * `Scalar.Decorated`
    * `Scalar.scalars_strict_iff`
-/

------------------------------------------------------------
-- Spellings
------------------------------------------------------------

namespace QuicSniRouter

namespace Scalar

variable {c : UInt8} {p : UInt8 → Bool}

/- The value of a string of decimal digits. -/
def digitValue
    (digits : Bytes) : Nat :=
  digits.foldl (fun acc c => acc * 10 + (c.toNat - 0x30)) 0

/- White space, a sign, digits, and what follows them. -/
structure Spells
    (text space sign digits rest : Bytes) : Prop where
  text : text = space ++ (sign ++ (digits ++ rest))
  space : ∀ c ∈ space, isSpace c = true
  sign : sign = [] ∨ sign = [0x2b] ∨ sign = [0x2d]
  nonempty : digits ≠ []
  digits : ∀ c ∈ digits, isDigit c = true

/- Negation is that of an unsigned long. -/
def signedValue
    (sign digits : Bytes) : Nat :=
  if sign = [0x2d] then
    (2 ^ 64 - digitValue digits) % 2 ^ 64
  else
    digitValue digits

/- Digits and a suffix, and nothing else. -/
def Plain
    (suffixes : List Bytes)
    (lo hi : Nat)
    (text : Bytes)
    (value : Nat) : Prop :=
  ∃ digits suffix,
    text = digits ++ suffix ∧ suffix ∈ suffixes ∧
      digits ≠ [] ∧ (∀ c ∈ digits, isDigit c = true) ∧
      value = digitValue digits ∧ lo ≤ value ∧ value ≤ hi

/-
  The spelling of a number in range with something in front
  of the digits, or with a suffix that is not a plain one.
-/
def Decorated
    (accepted plain : List Bytes)
    (lo hi : Nat)
    (text : Bytes) : Prop :=
  ∃ space sign digits suffix,
    Spells text space sign digits suffix ∧ suffix ∈ accepted ∧
      digitValue digits < 2 ^ 64 ∧
      lo ≤ signedValue sign digits ∧
      signedValue sign digits ≤ hi ∧
      (space ≠ [] ∨ sign ≠ [] ∨ suffix ∉ plain)

------------------------------------------------------------
-- The Conversion
------------------------------------------------------------

variable {text space sign digits rest : Bytes}

theorem isDigit_of_isSpace
    (hSpace : isSpace c = true) :
    isDigit c = false := by
  unfold isSpace at hSpace
  unfold isDigit
  simp only [Bool.or_eq_true, Bool.and_eq_true, beq_iff_eq,
    decide_eq_true_eq, ← UInt8.toNat_inj,
    UInt8.le_iff_toNat_le, UInt8.reduceToNat] at hSpace
  simp only [Bool.and_eq_false_iff, decide_eq_false_iff_not,
    UInt8.le_iff_toNat_le, UInt8.reduceToNat]
  omega

/- A prefix of one kind of bytes, and then another byte. -/
theorem span_append
    {front : Bytes}
    (hFront : ∀ c ∈ front, p c = true)
    (hRest : ∀ c, rest.head? = some c → p c = false) :
    (front ++ rest).takeWhile p = front ∧
      (front ++ rest).dropWhile p = rest := by
  have hTake : rest.takeWhile p = [] := by
    cases rest with
    | nil => rfl
    | cons c rest => simp [hRest c rfl]
  have hDrop : rest.dropWhile p = rest := by
    cases rest with
    | nil => rfl
    | cons c rest => simp [hRest c rfl]
  constructor
  · rw [List.takeWhile_append_of_pos hFront, hTake,
      List.append_nil]
  · rw [List.dropWhile_append_of_pos hFront, hDrop]

theorem Spells.unsigned_head
    (hSpells : Spells text space sign digits rest)
    (hHead : (digits ++ rest).head? = some c) :
    isDigit c = true := by
  cases digits with
  | nil => exact absurd rfl hSpells.nonempty
  | cons d digits =>
      cases hHead
      exact hSpells.digits c (by simp)

theorem strtoul_of_spells
    (hSpells : Spells text space sign digits rest) :
    strtoul text =
      strtoulDigits text (decide (sign = [0x2d]))
        (digits ++ rest) := by
  have hBody :
      text.dropWhile isSpace = sign ++ (digits ++ rest) := by
    rw [hSpells.text]
    refine (span_append hSpells.space ?_).2
    intro c hHead
    rcases hSpells.sign with hSign | hSign | hSign
    · rw [hSign, List.nil_append] at hHead
      have hDigit := hSpells.unsigned_head hHead
      by_contra hSpace
      rw [isDigit_of_isSpace (by simpa using hSpace)]
        at hDigit
      cases hDigit
    · rw [hSign] at hHead
      cases hHead
      decide
    · rw [hSign] at hHead
      cases hHead
      decide
  unfold strtoul
  rw [hBody]
  rcases hSpells.sign with hSign | hSign | hSign
  · cases hUnsigned : digits ++ rest with
    | nil =>
        rw [List.append_eq_nil_iff] at hUnsigned
        exact absurd hUnsigned.1 hSpells.nonempty
    | cons c others =>
        have hDigit :=
          hSpells.unsigned_head (c := c)
            (by rw [hUnsigned]; rfl)
        have hMinus : c ≠ 0x2d := by
          intro hEq
          rw [hEq] at hDigit
          cases hDigit
        have hPlus : c ≠ 0x2b := by
          intro hEq
          rw [hEq] at hDigit
          cases hDigit
        rw [hSign]
        simp [hMinus, hPlus]
  · rw [hSign]
    simp
  · rw [hSign]
    simp

/- Every text starts in this way, if not with a digit. -/
theorem strtoul_split
    (text : Bytes) :
    ∃ space sign unsignedText : Bytes,
      text = space ++ (sign ++ unsignedText) ∧
        (∀ c ∈ space, isSpace c = true) ∧
        (sign = [] ∨ sign = [0x2b] ∨ sign = [0x2d]) ∧
        strtoul text =
          strtoulDigits text (decide (sign = [0x2d]))
            unsignedText := by
  have hText :=
    (List.takeWhile_append_dropWhile (p := isSpace)
      (l := text)).symm
  have hSpace :
      ∀ c ∈ text.takeWhile isSpace, isSpace c = true :=
    List.all_eq_true.mp List.all_takeWhile
  unfold strtoul
  cases hBody : text.dropWhile isSpace with
  | nil =>
      rw [hBody] at hText
      exact ⟨_, [], [], hText, hSpace, Or.inl rfl, rfl⟩
  | cons c others =>
      rw [hBody] at hText
      dsimp only
      by_cases hMinus : c = 0x2d
      · rw [if_pos hMinus]
        rw [hMinus] at hText
        exact ⟨_, [0x2d], others, hText, hSpace,
          Or.inr (Or.inr rfl), rfl⟩
      · rw [if_neg hMinus]
        by_cases hPlus : c = 0x2b
        · rw [if_pos hPlus]
          rw [hPlus] at hText
          exact ⟨_, [0x2b], others, hText, hSpace,
            Or.inr (Or.inl rfl), rfl⟩
        · rw [if_neg hPlus]
          exact ⟨_, [], c :: others, hText, hSpace,
            Or.inl rfl, rfl⟩

theorem head_dropWhile
    {bytes : Bytes}
    (hHead : (bytes.dropWhile p).head? = some c) :
    p c = false := by
  induction bytes with
  | nil => cases hHead
  | cons b bytes ih =>
      cases hTest : p b with
      | true =>
          rw [List.dropWhile_cons_of_pos hTest] at hHead
          exact ih hHead
      | false =>
          rw [List.dropWhile_cons_of_neg (by simp [hTest])]
            at hHead
          cases hHead
          exact hTest

/- The conversions that neither fail nor overflow. -/
theorem strtoul_eq_iff
    {value : Nat} :
    strtoul text =
        { value, overflow := false, converted := true
          rest } ↔
      ∃ space sign digits,
        Spells text space sign digits rest ∧
          (∀ c, rest.head? = some c → isDigit c = false) ∧
          digitValue digits < 2 ^ 64 ∧
          value = signedValue sign digits := by
  constructor
  · intro hParsed
    rcases strtoul_split text with
      ⟨space, sign, unsignedText, hText, hSpace, hSign, hEq⟩
    have hUnsigned :=
      (List.takeWhile_append_dropWhile (p := isDigit)
        (l := unsignedText)).symm
    have hDigits :
        ∀ c ∈ unsignedText.takeWhile isDigit,
          isDigit c = true :=
      List.all_eq_true.mp List.all_takeWhile
    rw [hEq] at hParsed
    unfold strtoulDigits at hParsed
    dsimp only at hParsed
    split at hParsed
    · cases hParsed
    · rename_i hNonempty
      split at hParsed
      · cases hParsed
      · rename_i hFits
        rw [Strtoul.mk.injEq] at hParsed
        rcases hParsed with ⟨hValue, _, _, hRest⟩
        rw [hRest] at hUnsigned
        rw [hUnsigned] at hText
        refine ⟨space, sign, unsignedText.takeWhile isDigit,
          ⟨hText, hSpace, hSign, ?_, hDigits⟩, ?_,
          Nat.lt_of_not_le hFits, ?_⟩
        · intro hNil
          exact hNonempty (by rw [hNil]; rfl)
        · intro c hHead
          rw [← hRest] at hHead
          exact head_dropWhile hHead
        · rw [← hValue]
          unfold signedValue digitValue
          simp only [decide_eq_true_eq]
  · rintro ⟨space, sign, digits, hSpells, hRest, hFits,
      hValue⟩
    rcases span_append hSpells.digits hRest with
      ⟨hTake, hDrop⟩
    have hNonempty : digits.length ≠ 0 := by
      intro hZero
      exact hSpells.nonempty
        (List.length_eq_zero_iff.mp hZero)
    rw [strtoul_of_spells hSpells]
    unfold strtoulDigits
    unfold digitValue at hFits
    rw [hTake, hDrop]
    dsimp only
    rw [if_neg hNonempty, if_neg (Nat.not_le_of_lt hFits),
      hValue]
    unfold signedValue digitValue
    simp only [decide_eq_true_eq]

variable {text : Bytes} {lo hi value : Nat}
variable {accepted plain : List Bytes}

/- The suffix of a duration. -/
def seconds : Bytes := [0x73]

/- What the parsers accept, up to their suffixes. -/
def Accepted
    (accepted : List Bytes)
    (lo hi : Nat)
    (text : Bytes)
    (value : Nat) : Prop :=
  ∃ space sign digits suffix,
    Spells text space sign digits suffix ∧ suffix ∈ accepted ∧
      digitValue digits < 2 ^ 64 ∧
      value = signedValue sign digits ∧
      lo ≤ value ∧ value ≤ hi

/- No suffix could be read as more digits. -/
def Ends
    (suffixes : List Bytes) : Prop :=
  ∀ suffix ∈ suffixes, ∀ c ∈ suffix, isDigit c = false

theorem ends_nil :
    Ends [[]] := by
  intro suffix hMem c hChar
  rw [List.mem_singleton] at hMem
  subst hMem
  cases hChar

theorem ends_seconds :
    Ends [[], seconds] := by
  intro suffix hMem c hChar
  rw [List.mem_cons, List.mem_singleton] at hMem
  rcases hMem with hMem | hMem
  · subst hMem
    cases hChar
  · subst hMem
    rw [List.mem_singleton.mp hChar]
    rfl

theorem accepted_iff
    (hEnds : Ends accepted) :
    Accepted accepted lo hi text value ↔
      ∃ suffix ∈ accepted,
        strtoul text =
            { value, overflow := false, converted := true
              rest := suffix } ∧
          lo ≤ value ∧ value ≤ hi := by
  constructor
  · rintro ⟨space, sign, digits, suffix, hSpells, hMem, hFits,
      hValue, hLo, hHi⟩
    refine ⟨suffix, hMem, strtoul_eq_iff.mpr
      ⟨space, sign, digits, hSpells, ?_, hFits, hValue⟩,
      hLo, hHi⟩
    intro c hHead
    exact hEnds suffix hMem c (List.mem_of_head? hHead)
  · rintro ⟨suffix, hMem, hParsed, hLo, hHi⟩
    rcases strtoul_eq_iff.mp hParsed with
      ⟨space, sign, digits, hSpells, _, hFits, hValue⟩
    exact ⟨space, sign, digits, suffix, hSpells, hMem, hFits,
      hValue, hLo, hHi⟩

theorem length_ne_zero_of_converted
    (hConverted : (strtoul text).converted = true) :
    text.length ≠ 0 := by
  intro hZero
  rw [List.length_eq_zero_iff.mp hZero] at hConverted
  cases hConverted

theorem parseU32_eq_ok :
    parseU32 text lo hi = .ok value ↔
      Accepted [[], seconds] lo hi text value := by
  rw [accepted_iff ends_seconds]
  constructor
  · intro hParse
    unfold parseU32 at hParse
    split at hParse
    · cases hParse
    · dsimp only at hParse
      split at hParse
      · cases hParse
      · rename_i hGood
        split at hParse
        · cases hParse
        · rename_i hRest
          cases hParse
          rw [not_or, not_or, not_or, Bool.not_eq_true,
            not_not] at hGood
          refine ⟨(strtoul text).rest, ?_, ?_,
            Nat.le_of_not_lt hGood.2.2.1,
            Nat.le_of_not_lt hGood.2.2.2⟩
          · rw [not_and_or, not_not, not_not] at hRest
            simpa [seconds] using hRest
          · rw [← hGood.1, ← hGood.2.1]
  · rintro ⟨suffix, hMem, hParsed, hLo, hHi⟩
    have hLength : text.length ≠ 0 := by
      apply length_ne_zero_of_converted
      rw [hParsed]
    unfold parseU32
    rw [if_neg hLength, hParsed]
    dsimp only
    rw [if_neg (by simp; omega), if_neg]
    rw [not_and_or, not_not, not_not]
    simpa [seconds] using hMem

theorem parseSize_eq_ok :
    parseSize text lo hi = .ok value ↔
      Accepted [[]] lo hi text value := by
  rw [accepted_iff ends_nil]
  constructor
  · intro hParse
    unfold parseSize at hParse
    split at hParse
    · cases hParse
    · dsimp only at hParse
      split at hParse
      · cases hParse
      · rename_i hGood
        cases hParse
        rw [not_or, not_or, not_or, not_or, Bool.not_eq_true,
          not_not, not_not] at hGood
        refine ⟨[], by simp, ?_,
          Nat.le_of_not_lt hGood.2.2.2.1,
          Nat.le_of_not_lt hGood.2.2.2.2⟩
        rw [← hGood.1, ← hGood.2.1, ← hGood.2.2.1]
  · rintro ⟨suffix, hMem, hParsed, hLo, hHi⟩
    have hLength : text.length ≠ 0 := by
      apply length_ne_zero_of_converted
      rw [hParsed]
    rw [List.mem_singleton] at hMem
    unfold parseSize
    rw [if_neg hLength, hParsed]
    dsimp only
    rw [if_neg (by simp [hMem]; omega)]

theorem accepted_of_plain
    (hSub : plain ⊆ accepted)
    (hHi : hi < 2 ^ 64)
    (hPlain : Plain plain lo hi text value) :
    Accepted accepted lo hi text value := by
  rcases hPlain with
    ⟨digits, suffix, hText, hMem, hNonempty, hDigits, hValue,
      hLo, hLe⟩
  refine ⟨[], [], digits, suffix,
    ⟨hText, by simp, Or.inl rfl, hNonempty, hDigits⟩,
    hSub hMem, ?_, hValue, hLo, hLe⟩
  rw [← hValue]
  omega

/- Without decoration only plain texts are accepted. -/
theorem plain_of_accepted
    (hBare : ¬ Decorated accepted plain lo hi text)
    (hAccepted : Accepted accepted lo hi text value) :
    Plain plain lo hi text value := by
  rcases hAccepted with
    ⟨space, sign, digits, suffix, hSpells, hMem, hFits,
      hValue, hLo, hHi⟩
  have hNone :
      ¬ (space ≠ [] ∨ sign ≠ [] ∨ suffix ∉ plain) := by
    intro hSome
    rw [hValue] at hLo hHi
    exact hBare ⟨space, sign, digits, suffix, hSpells, hMem,
      hFits, hLo, hHi, hSome⟩
  rw [not_or, not_or, not_not, not_not, not_not] at hNone
  rcases hNone with ⟨hSpace, hSign, hPlain⟩
  have hText := hSpells.text
  rw [hSpace, hSign] at hText
  rw [hSign] at hValue
  exact ⟨digits, suffix, hText, hPlain, hSpells.nonempty,
    hSpells.digits, hValue, hLo, hHi⟩

theorem Plain.head
    (hPlain : Plain plain lo hi text value) :
    ∃ c, text.head? = some c ∧ isDigit c = true := by
  rcases hPlain with
    ⟨digits, suffix, hText, _, hNonempty, hDigits, _⟩
  cases digits with
  | nil => exact absurd rfl hNonempty
  | cons c digits =>
      rw [hText]
      exact ⟨c, rfl, hDigits c (by simp)⟩

/- A text cannot be read in both ways. -/
theorem not_plain_of_decorated
    (hEnds : Ends accepted)
    (hSub : plain ⊆ accepted)
    (hDecorated : Decorated accepted plain lo hi text) :
    ¬ Plain plain lo hi text value := by
  intro hPlain
  rcases hDecorated with
    ⟨space, sign, digits, suffix, hSpells, hMem, _, _, _,
      hSome⟩
  rcases hPlain.head with ⟨c, hHead, hDigit⟩
  rw [hSpells.text] at hHead
  by_cases hSpace : space = []
  · by_cases hSign : sign = []
    · rcases hPlain with
        ⟨digits', suffix', hText, hMem', _, hDigits', _⟩
      have hRest (s : Bytes) (hMem : s ∈ accepted) :
          ∀ c, s.head? = some c → isDigit c = false :=
        fun c hHead =>
          hEnds s hMem c (List.mem_of_head? hHead)
      have hSuffix : suffix = suffix' := by
        rw [← (span_append hSpells.digits
            (hRest suffix hMem)).2,
          ← (span_append hDigits'
            (hRest suffix' (hSub hMem'))).2, ← hText,
          hSpells.text, hSpace, hSign]
        rfl
      rcases hSome with hSome | hSome | hSome
      · exact hSome hSpace
      · exact hSome hSign
      · exact hSome (hSuffix ▸ hMem')
    · rcases hSpells.sign with hEq | hEq | hEq
      · exact hSign hEq
      · rw [hSpace, hEq] at hHead
        cases hHead
        cases hDigit
      · rw [hSpace, hEq] at hHead
        cases hHead
        cases hDigit
  · cases space with
    | nil => exact hSpace rfl
    | cons b space =>
        cases hHead
        rw [isDigit_of_isSpace
          (hSpells.space c (by simp))] at hDigit
        cases hDigit

theorem strict_iff
    {result : Except Status Nat}
    (hParse :
      ∀ value, result = .ok value ↔
        Accepted accepted lo hi text value)
    (hEnds : Ends accepted)
    (hSub : plain ⊆ accepted)
    (hHi : hi < 2 ^ 64) :
    (∀ value, result = .ok value ↔
      Plain plain lo hi text value) ↔
      ¬ Decorated accepted plain lo hi text := by
  constructor
  · intro hStrict hDecorated
    have hSpelled := hDecorated
    rcases hSpelled with
      ⟨space, sign, digits, suffix, hSpells, hMem, hFits,
        hLo, hLe, _⟩
    have hAccepted :=
      (hParse _).mpr ⟨space, sign, digits, suffix, hSpells,
        hMem, hFits, rfl, hLo, hLe⟩
    exact not_plain_of_decorated hEnds hSub hDecorated
      ((hStrict _).mp hAccepted)
  · intro hBare value
    rw [hParse value]
    constructor
    · exact plain_of_accepted hBare
    · exact accepted_of_plain hSub hHi

/-
  A port, a number of sessions and a timeout are read as
  digits alone, a timeout also with its suffix, on all texts
  but those that decorate a number in range.
-/
theorem scalars_strict_iff
    (text : Bytes) :
    ((∀ value, parsePort text = .ok value ↔
        Plain [[]] 1 65535 text value) ↔
      ¬ Decorated [[], seconds] [[]] 1 65535 text) ∧
    ((∀ value,
        parseSize text 1 (maxSessionsDefault * 10) =
            .ok value ↔
          Plain [[]] 1 1000000 text value) ↔
      ¬ Decorated [[]] [[]] 1 1000000 text) ∧
    ((∀ value, parseU32 text 1 86400 = .ok value ↔
        Plain [[], seconds] 1 86400 text value) ↔
      ¬ Decorated [[], seconds] [[], seconds] 1 86400
        text) := by
  refine ⟨?_, ?_, ?_⟩
  · exact strict_iff (fun _ => parseU32_eq_ok) ends_seconds
      (by simp) (by decide)
  · exact strict_iff (fun _ => parseSize_eq_ok) ends_nil
      (fun _ hMem => hMem) (by decide)
  · exact strict_iff (fun _ => parseU32_eq_ok) ends_seconds
      (fun _ hMem => hMem) (by decide)

/-
  "443s", " 443" and "-18446744073709551615" are ports, the
  last of them port 1, " +5" is a number of sessions, and
  "+60s" a timeout.
-/
theorem decorated_scalars_accepted :
    (parsePort [52, 52, 51, 115] = .ok 443 ∧
      ¬ Plain [[]] 1 65535 [52, 52, 51, 115] 443) ∧
    (parsePort [32, 52, 52, 51] = .ok 443 ∧
      ¬ Plain [[]] 1 65535 [32, 52, 52, 51] 443) ∧
    (parsePort
        [45, 49, 56, 52, 52, 54, 55, 52, 52, 48, 55, 51, 55,
          48, 57, 53, 53, 49, 54, 49, 53] = .ok 1 ∧
      ¬ Plain [[]] 1 65535
        [45, 49, 56, 52, 52, 54, 55, 52, 52, 48, 55, 51, 55,
          48, 57, 53, 53, 49, 54, 49, 53] 1) ∧
    (parseSize [32, 43, 53] 1 (maxSessionsDefault * 10) =
        .ok 5 ∧
      ¬ Plain [[]] 1 1000000 [32, 43, 53] 5) ∧
    (parseU32 [43, 54, 48, 115] 1 86400 = .ok 60 ∧
      ¬ Plain [[], seconds] 1 86400 [43, 54, 48, 115] 60) := by
  refine ⟨⟨by decide +kernel, ?_⟩, ⟨by decide +kernel, ?_⟩,
    ⟨by decide +kernel, ?_⟩, ⟨by decide +kernel, ?_⟩,
    ⟨by decide +kernel, ?_⟩⟩
  · intro hPlain
    rcases hPlain with
      ⟨digits, suffix, hText, hMem, _, hDigits, _⟩
    rw [List.mem_singleton.mp hMem, List.append_nil] at hText
    have hLast := hDigits 115 (by rw [← hText]; decide)
    cases hLast
  all_goals
    intro hPlain
    rcases hPlain.head with ⟨c, hHead, hDigit⟩
    cases hHead
    cases hDigit

end Scalar

end QuicSniRouter
