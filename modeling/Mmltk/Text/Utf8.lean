import Mathlib.Tactic.SplitIfs

namespace Mmltk.Text

/-! Recognition of well-formed UTF-8, one scalar at a time. -/

/-- The lead byte's sequence length; zero for a byte that starts no sequence. -/
def leadLength (first : UInt8) : Nat :=
  if 0xc2 ≤ first ∧ first ≤ 0xdf then 2
  else if 0xe0 ≤ first ∧ first ≤ 0xef then 3
  else if 0xf0 ≤ first ∧ first ≤ 0xf4 then 4
  else 0

/-- The loop body at `index`: a continuation byte, with the tighter bounds some
lead bytes put on the second byte. -/
def continuationAllowed (first : UInt8) (index : Nat) (next : UInt8) : Bool :=
  if next < 0x80 ∨ 0xbf < next then false
  else if index = 1 ∧
      ((first = 0xe0 ∧ next < 0xa0) ∨ (first = 0xed ∧ 0x9f < next) ∨
        (first = 0xf0 ∧ next < 0x90) ∨ (first = 0xf4 ∧ 0x8f < next)) then false
  else true

/-- `for (index = 1; index < length; ++index)` over the bytes after the lead. -/
def continuationsAllowed (first : UInt8) : (index : Nat) → List UInt8 → Bool
  | _, [] => true
  | index, next :: rest =>
      continuationAllowed first index next && continuationsAllowed first (index + 1) rest

/-- Length of the complete scalar at the front of `text`, or zero. -/
def utf8PrefixLength : List UInt8 → Nat
  | [] => 0
  | first :: rest =>
      if first < 0x80 then 1
      else
        let length := leadLength first
        if length = 0 ∨ rest.length + 1 < length then 0
        else if continuationsAllowed first 1 (rest.take (length - 1)) then length
        else 0

/-- `while (!text.empty())`; every round removes at least one byte, so the text's
length bounds the rounds. -/
def validUtf8Rounds : (fuel : Nat) → List UInt8 → Bool
  | _, [] => true
  | 0, _ :: _ => false
  | fuel + 1, first :: rest =>
      let length := utf8PrefixLength (first :: rest)
      if length = 0 then false
      else validUtf8Rounds fuel ((first :: rest).drop length)

def validUtf8 (text : List UInt8) : Bool := validUtf8Rounds text.length text

/-- Concatenated encodings of Unicode scalar values. -/
def WellFormed (text : List UInt8) : Prop :=
  ∃ scalars : List Char, text = scalars.flatMap String.utf8EncodeChar

theorem exists_scalar (code : Nat) (h : code.isValidChar) :
    ∃ scalar : Char, scalar.val.toNat = code := by
  have hbound : code < 2 ^ 32 := by
    rcases h with h | h <;> omega
  have hcode : (UInt32.ofNat code).toNat = code := UInt32.toNat_ofNat_of_lt' hbound
  exact ⟨⟨UInt32.ofNat code, by rwa [UInt32.isValidChar, hcode]⟩, hcode⟩

theorem ofNat_eq {code : Nat} (byte : UInt8) (h : code = byte.toNat) :
    UInt8.ofNat code = byte := by
  rw [h, UInt8.ofNat_toNat]

theorem encode_one {a : UInt8} (ha : a.toNat < 0x80) :
    ∃ scalar, String.utf8EncodeChar scalar = [a] := by
  obtain ⟨scalar, hscalar⟩ := exists_scalar a.toNat (.inl (by omega))
  refine ⟨scalar, ?_⟩
  simp only [String.utf8EncodeChar, hscalar]
  rw [if_pos (by omega), UInt8.ofNat_toNat]

theorem encode_two {a b : UInt8} (hlow : 0xc2 ≤ a.toNat) (hhigh : a.toNat ≤ 0xdf)
    (hb : 0x80 ≤ b.toNat ∧ b.toNat ≤ 0xbf) :
    ∃ scalar, String.utf8EncodeChar scalar = [a, b] := by
  obtain ⟨scalar, hscalar⟩ :=
    exists_scalar ((a.toNat - 0xc0) * 64 + (b.toNat - 0x80)) (.inl (by omega))
  refine ⟨scalar, ?_⟩
  simp only [String.utf8EncodeChar, hscalar]
  rw [if_neg (by omega), if_pos (by omega)]
  rw [ofNat_eq a (by omega), ofNat_eq b (by omega)]

theorem encode_three {a b c : UInt8} (hlow : 0xe0 ≤ a.toNat) (hhigh : a.toNat ≤ 0xef)
    (hb : 0x80 ≤ b.toNat ∧ b.toNat ≤ 0xbf) (hc : 0x80 ≤ c.toNat ∧ c.toNat ≤ 0xbf)
    (hoverlong : a.toNat = 0xe0 → 0xa0 ≤ b.toNat)
    (hsurrogate : a.toNat = 0xed → b.toNat ≤ 0x9f) :
    ∃ scalar, String.utf8EncodeChar scalar = [a, b, c] := by
  obtain ⟨scalar, hscalar⟩ := exists_scalar
    ((a.toNat - 0xe0) * 4096 + (b.toNat - 0x80) * 64 + (c.toNat - 0x80)) (by
      unfold Nat.isValidChar
      omega)
  refine ⟨scalar, ?_⟩
  simp only [String.utf8EncodeChar, hscalar]
  rw [if_neg (by omega), if_neg (by omega), if_pos (by omega)]
  rw [ofNat_eq a (by omega), ofNat_eq b (by omega),
    ofNat_eq c (by omega)]

theorem encode_four {a b c d : UInt8} (hlow : 0xf0 ≤ a.toNat) (hhigh : a.toNat ≤ 0xf4)
    (hb : 0x80 ≤ b.toNat ∧ b.toNat ≤ 0xbf) (hc : 0x80 ≤ c.toNat ∧ c.toNat ≤ 0xbf)
    (hd : 0x80 ≤ d.toNat ∧ d.toNat ≤ 0xbf)
    (hoverlong : a.toNat = 0xf0 → 0x90 ≤ b.toNat)
    (hrange : a.toNat = 0xf4 → b.toNat ≤ 0x8f) :
    ∃ scalar, String.utf8EncodeChar scalar = [a, b, c, d] := by
  obtain ⟨scalar, hscalar⟩ := exists_scalar
    ((a.toNat - 0xf0) * 262144 + (b.toNat - 0x80) * 4096 +
      (c.toNat - 0x80) * 64 + (d.toNat - 0x80)) (by
      unfold Nat.isValidChar
      omega)
  refine ⟨scalar, ?_⟩
  simp only [String.utf8EncodeChar, hscalar]
  rw [if_neg (by omega), if_neg (by omega), if_neg (by omega)]
  rw [ofNat_eq a (by omega), ofNat_eq b (by omega),
    ofNat_eq c (by omega), ofNat_eq d (by omega)]

theorem continuationAllowed_later {first next : UInt8} {index : Nat} (hindex : index ≠ 1) :
    continuationAllowed first index next = true ↔
      0x80 ≤ next.toNat ∧ next.toNat ≤ 0xbf := by
  simp only [continuationAllowed, hindex, false_and, if_false, UInt8.lt_iff_toNat_lt,
    UInt8.reduceToNat]
  split
  · exact iff_of_false Bool.false_ne_true (by omega)
  · exact iff_of_true rfl (by omega)

theorem continuationAllowed_second {first next : UInt8} :
    continuationAllowed first 1 next = true ↔
      (0x80 ≤ next.toNat ∧ next.toNat ≤ 0xbf) ∧
      (first.toNat = 0xe0 → 0xa0 ≤ next.toNat) ∧ (first.toNat = 0xed → next.toNat ≤ 0x9f) ∧
      (first.toNat = 0xf0 → 0x90 ≤ next.toNat) ∧ (first.toNat = 0xf4 → next.toNat ≤ 0x8f) := by
  simp only [continuationAllowed, true_and, UInt8.lt_iff_toNat_lt, ← UInt8.toNat_inj,
    UInt8.reduceToNat]
  split_ifs <;> simp only [false_iff, true_iff] <;> omega

theorem leadLength_cases (first : UInt8) :
    (leadLength first = 2 ∧ 0xc2 ≤ first.toNat ∧ first.toNat ≤ 0xdf) ∨
    (leadLength first = 3 ∧ 0xe0 ≤ first.toNat ∧ first.toNat ≤ 0xef) ∨
    (leadLength first = 4 ∧ 0xf0 ≤ first.toNat ∧ first.toNat ≤ 0xf4) ∨
    (leadLength first = 0 ∧ (first.toNat < 0xc2 ∨ 0xf4 < first.toNat)) := by
  simp only [leadLength, UInt8.le_iff_toNat_le, UInt8.reduceToNat]
  split_ifs <;> omega

/-- A recognised prefix is the encoding of one scalar. -/
theorem utf8PrefixLength_sound {text : List UInt8} (h : utf8PrefixLength text ≠ 0) :
    ∃ scalar rest, text = String.utf8EncodeChar scalar ++ rest ∧
      (String.utf8EncodeChar scalar).length = utf8PrefixLength text := by
  cases text with
  | nil => exact absurd rfl h
  | cons a rest =>
      rw [utf8PrefixLength] at h ⊢
      split at h
      · next hascii =>
        rw [if_pos hascii]
        rw [UInt8.lt_iff_toNat_lt] at hascii
        obtain ⟨scalar, hscalar⟩ := encode_one hascii
        exact ⟨scalar, rest, by rw [hscalar]; rfl, by rw [hscalar]; rfl⟩
      · next hascii =>
        rw [if_neg hascii]
        dsimp only at h ⊢
        split at h
        · exact absurd rfl h
        · next hlength =>
          rw [if_neg hlength]
          split at h
          · next hallowed =>
            rw [if_pos hallowed]
            rcases leadLength_cases a with ⟨hlead, hlow, hhigh⟩ | ⟨hlead, hlow, hhigh⟩ |
              ⟨hlead, hlow, hhigh⟩ | ⟨hlead, _⟩
            · rw [hlead] at hallowed hlength ⊢
              match rest, hlength, hallowed with
              | b :: rest, _, hallowed =>
                  simp only [List.take_succ_cons, Nat.add_one_sub_one, List.take_zero,
                    continuationsAllowed, Bool.and_true] at hallowed
                  obtain ⟨hb, _⟩ := continuationAllowed_second.mp hallowed
                  obtain ⟨scalar, hscalar⟩ := encode_two hlow hhigh hb
                  exact ⟨scalar, rest, by rw [hscalar]; rfl, by rw [hscalar]; rfl⟩
              | [], hlength, _ => simp at hlength
            · rw [hlead] at hallowed hlength ⊢
              match rest, hlength, hallowed with
              | b :: c :: rest, _, hallowed =>
                  simp only [List.take_succ_cons, Nat.add_one_sub_one, List.take_zero,
                    continuationsAllowed, Bool.and_true, Bool.and_eq_true] at hallowed
                  obtain ⟨hb, hoverlong, hsurrogate, _⟩ :=
                    continuationAllowed_second.mp hallowed.1
                  have hc := (continuationAllowed_later (by decide)).mp hallowed.2
                  obtain ⟨scalar, hscalar⟩ :=
                    encode_three hlow hhigh hb hc hoverlong hsurrogate
                  exact ⟨scalar, rest, by rw [hscalar]; rfl, by rw [hscalar]; rfl⟩
              | [_], hlength, _ => simp at hlength
              | [], hlength, _ => simp at hlength
            · rw [hlead] at hallowed hlength ⊢
              match rest, hlength, hallowed with
              | b :: c :: d :: rest, _, hallowed =>
                  simp only [List.take_succ_cons, Nat.add_one_sub_one, List.take_zero,
                    continuationsAllowed, Bool.and_true, Bool.and_eq_true] at hallowed
                  obtain ⟨hb, _, _, hoverlong, hrange⟩ :=
                    continuationAllowed_second.mp hallowed.1
                  have hc := (continuationAllowed_later (by decide)).mp hallowed.2.1
                  have hd := (continuationAllowed_later (by decide)).mp hallowed.2.2
                  obtain ⟨scalar, hscalar⟩ :=
                    encode_four hlow hhigh hb hc hd hoverlong hrange
                  exact ⟨scalar, rest, by rw [hscalar]; rfl, by rw [hscalar]; rfl⟩
              | [_, _], hlength, _ => simp at hlength
              | [_], hlength, _ => simp at hlength
              | [], hlength, _ => simp at hlength
            · exact absurd (.inl hlead) hlength
          · exact absurd rfl h

theorem toNat_ofNat_of_lt {code : Nat} (h : code < 256) : (UInt8.ofNat code).toNat = code :=
  UInt8.toNat_ofNat_of_lt' h

theorem utf8PrefixLength_of_lead {first : UInt8} (tail : List UInt8)
    (hfirst : 0x80 ≤ first.toNat) (hlead : leadLength first = tail.length + 1)
    (hallowed : continuationsAllowed first 1 tail = true) (rest : List UInt8) :
    utf8PrefixLength (first :: (tail ++ rest)) = tail.length + 1 := by
  have hascii : ¬ first < 0x80 := by
    rw [UInt8.lt_iff_toNat_lt]
    exact Nat.not_lt.mpr hfirst
  have htake : (tail ++ rest).take (tail.length + 1 - 1) = tail := by
    rw [Nat.add_sub_cancel, List.take_left]
  have hshort : ¬ (tail.length + 1 = 0 ∨ (tail ++ rest).length + 1 < tail.length + 1) := by
    rw [List.length_append]
    omega
  rw [utf8PrefixLength, if_neg hascii]
  simp only [hlead, htake, if_neg hshort, hallowed, if_true]

/-- Every scalar's encoding is recognised whole, whatever follows it. -/
theorem utf8PrefixLength_encode (scalar : Char) (rest : List UInt8) :
    utf8PrefixLength (String.utf8EncodeChar scalar ++ rest) =
      (String.utf8EncodeChar scalar).length := by
  have hvalid := scalar.valid
  simp only [UInt32.isValidChar, Nat.isValidChar] at hvalid
  unfold String.utf8EncodeChar
  dsimp only
  generalize scalar.val.toNat = code at hvalid
  split_ifs with h1 h2 h3
  · have hascii : UInt8.ofNat code < 0x80 := by
      rw [UInt8.lt_iff_toNat_lt, toNat_ofNat_of_lt (by omega)]
      exact Nat.lt_succ_of_le h1
    simp only [List.cons_append, utf8PrefixLength, if_pos hascii, List.length_cons,
      List.length_nil]
  · have ha : (UInt8.ofNat (code / 64 % 0x20 + 0xc0)).toNat = code / 64 % 0x20 + 0xc0 :=
      toNat_ofNat_of_lt (by omega)
    have hb : (UInt8.ofNat (code % 0x40 + 0x80)).toNat = code % 0x40 + 0x80 :=
      toNat_ofNat_of_lt (by omega)
    generalize UInt8.ofNat (code / 64 % 0x20 + 0xc0) = a at ha ⊢
    generalize UInt8.ofNat (code % 0x40 + 0x80) = b at hb ⊢
    have hlead := leadLength_cases a
    refine utf8PrefixLength_of_lead [b] (by omega) ?_ ?_ rest
    · rw [List.length_singleton]
      omega
    · simp only [continuationsAllowed, Bool.and_true, continuationAllowed_second]
      omega
  · have ha : (UInt8.ofNat (code / 4096 % 0x10 + 0xe0)).toNat = code / 4096 % 0x10 + 0xe0 :=
      toNat_ofNat_of_lt (by omega)
    have hb : (UInt8.ofNat (code / 64 % 0x40 + 0x80)).toNat = code / 64 % 0x40 + 0x80 :=
      toNat_ofNat_of_lt (by omega)
    have hc : (UInt8.ofNat (code % 0x40 + 0x80)).toNat = code % 0x40 + 0x80 :=
      toNat_ofNat_of_lt (by omega)
    generalize UInt8.ofNat (code / 4096 % 0x10 + 0xe0) = a at ha ⊢
    generalize UInt8.ofNat (code / 64 % 0x40 + 0x80) = b at hb ⊢
    generalize UInt8.ofNat (code % 0x40 + 0x80) = c at hc ⊢
    have hlead := leadLength_cases a
    refine utf8PrefixLength_of_lead [b, c] (by omega) ?_ ?_ rest
    · simp only [List.length_cons, List.length_nil]
      omega
    · simp only [continuationsAllowed, Bool.and_true, Bool.and_eq_true,
        continuationAllowed_second, continuationAllowed_later (show 1 + 1 ≠ 1 by decide)]
      omega
  · have ha : (UInt8.ofNat (code / 262144 % 0x08 + 0xf0)).toNat =
        code / 262144 % 0x08 + 0xf0 := toNat_ofNat_of_lt (by omega)
    have hb : (UInt8.ofNat (code / 4096 % 0x40 + 0x80)).toNat = code / 4096 % 0x40 + 0x80 :=
      toNat_ofNat_of_lt (by omega)
    have hc : (UInt8.ofNat (code / 64 % 0x40 + 0x80)).toNat = code / 64 % 0x40 + 0x80 :=
      toNat_ofNat_of_lt (by omega)
    have hd : (UInt8.ofNat (code % 0x40 + 0x80)).toNat = code % 0x40 + 0x80 :=
      toNat_ofNat_of_lt (by omega)
    generalize UInt8.ofNat (code / 262144 % 0x08 + 0xf0) = a at ha ⊢
    generalize UInt8.ofNat (code / 4096 % 0x40 + 0x80) = b at hb ⊢
    generalize UInt8.ofNat (code / 64 % 0x40 + 0x80) = c at hc ⊢
    generalize UInt8.ofNat (code % 0x40 + 0x80) = d at hd ⊢
    have hlead := leadLength_cases a
    refine utf8PrefixLength_of_lead [b, c, d] (by omega) ?_ ?_ rest
    · simp only [List.length_cons, List.length_nil]
      omega
    · simp only [continuationsAllowed, Bool.and_true, Bool.and_eq_true,
        continuationAllowed_second, continuationAllowed_later (show 1 + 1 ≠ 1 by decide),
        continuationAllowed_later (show 1 + 1 + 1 ≠ 1 by decide)]
      omega

theorem encode_ne_nil (scalar : Char) : String.utf8EncodeChar scalar ≠ [] :=
  String.utf8EncodeChar_ne_nil

theorem validUtf8Rounds_sound {fuel : Nat} {text : List UInt8}
    (h : validUtf8Rounds fuel text = true) : WellFormed text := by
  induction fuel generalizing text with
  | zero =>
      cases text with
      | nil => exact ⟨[], rfl⟩
      | cons first rest => simp [validUtf8Rounds] at h
  | succ fuel ih =>
      cases text with
      | nil => exact ⟨[], rfl⟩
      | cons first rest =>
          rw [validUtf8Rounds] at h
          split at h
          · contradiction
          · next hlength =>
            obtain ⟨scalar, tail, htext, hscalar⟩ := utf8PrefixLength_sound hlength
            rw [← hscalar, htext, List.drop_left] at h
            obtain ⟨scalars, htail⟩ := ih h
            refine ⟨scalar :: scalars, ?_⟩
            rw [htext, htail, List.flatMap_cons]

theorem validUtf8Rounds_complete (scalars : List Char) {fuel : Nat}
    (hfuel : (scalars.flatMap String.utf8EncodeChar).length ≤ fuel) :
    validUtf8Rounds fuel (scalars.flatMap String.utf8EncodeChar) = true := by
  induction scalars generalizing fuel with
  | nil => simp [validUtf8Rounds]
  | cons scalar scalars ih =>
      rw [List.flatMap_cons, List.length_append] at hfuel
      rw [List.flatMap_cons]
      have hlength := utf8PrefixLength_encode scalar (scalars.flatMap String.utf8EncodeChar)
      cases hencoded : String.utf8EncodeChar scalar with
      | nil => exact absurd hencoded (encode_ne_nil scalar)
      | cons first rest =>
          rw [hencoded] at hlength hfuel
          rw [List.length_cons] at hlength hfuel
          cases fuel with
          | zero => omega
          | succ fuel =>
              rw [List.cons_append] at hlength ⊢
              rw [validUtf8Rounds, hlength, if_neg (by omega), List.drop_succ_cons,
                List.drop_left]
              exact ih (by omega)

theorem validUtf8_iff (text : List UInt8) : validUtf8 text = true ↔ WellFormed text := by
  constructor
  · exact validUtf8Rounds_sound
  · rintro ⟨scalars, rfl⟩
    exact validUtf8Rounds_complete scalars (Nat.le_refl _)

end Mmltk.Text
