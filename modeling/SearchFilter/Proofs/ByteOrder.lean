import Mathlib.Data.String.Basic

/-!
# The order of texts is the order of their bytes

Texts are compared character by character, by code points. In UTF-8 the code point of a character is
spread over up to four bytes, the first of which tells how many there are, more significant bits first.
So two texts compare as their bytes do.
-/

namespace SearchFilter.Text

/-- The bytes of a text in UTF-8. -/
def bytes (s : String) : List UInt8 := s.toUTF8.data.toList

theorem bytes_eq (s : String) : bytes s = s.toList.flatMap String.utf8EncodeChar := by
  have text : s.toUTF8 = s.toList.utf8Encode := by
    rw [← String.toByteArray_ofList, String.ofList_toList, String.toUTF8_eq_toByteArray]
  rw [bytes, text, List.utf8Encode, List.toList_data_toByteArray]

/-- Bytes are compared at the first place where they differ. -/
theorem byte_cons_lt {m n : Nat} {xs ys : List UInt8} (hn : n < 256) (h : m < n ∨ m = n ∧ xs < ys) :
    UInt8.ofNat m :: xs < UInt8.ofNat n :: ys := by
  rw [List.cons_lt_cons_iff]
  rcases h with less | ⟨rfl, rest⟩
  · left
    rw [UInt8.lt_iff_toNat_lt, UInt8.toNat_ofNat', UInt8.toNat_ofNat']
    omega
  · exact .inr ⟨rfl, rest⟩

/-! ### Continuation bytes -/

variable {m n : Nat} {xs ys : List UInt8}

theorem last_byte_lt (less : m < n) (same : m / 64 = n / 64) :
    UInt8.ofNat (m % 64 + 128) :: xs < UInt8.ofNat (n % 64 + 128) :: ys :=
  byte_cons_lt (by omega) (.inl (by omega))

theorem last_two_bytes_lt (less : m < n) (same : m / 4096 = n / 4096) :
    UInt8.ofNat (m / 64 % 64 + 128) :: UInt8.ofNat (m % 64 + 128) :: xs <
      UInt8.ofNat (n / 64 % 64 + 128) :: UInt8.ofNat (n % 64 + 128) :: ys := by
  refine byte_cons_lt (by omega) ?_
  by_cases first : m / 64 = n / 64
  · exact .inr ⟨by rw [first], last_byte_lt less first⟩
  · exact .inl (by omega)

theorem last_three_bytes_lt (less : m < n) (same : m / 262144 = n / 262144) :
    UInt8.ofNat (m / 4096 % 64 + 128) :: UInt8.ofNat (m / 64 % 64 + 128) ::
        UInt8.ofNat (m % 64 + 128) :: xs <
      UInt8.ofNat (n / 4096 % 64 + 128) :: UInt8.ofNat (n / 64 % 64 + 128) ::
        UInt8.ofNat (n % 64 + 128) :: ys := by
  refine byte_cons_lt (by omega) ?_
  by_cases first : m / 4096 = n / 4096
  · exact .inr ⟨by rw [first], last_two_bytes_lt less first⟩
  · exact .inl (by omega)

/-! ### Characters and texts -/

/-- Of two characters, the lesser one has the lesser bytes, whatever follows. -/
theorem utf8EncodeChar_append_lt {c d : Char} (h : c < d) (xs ys : List UInt8) :
    String.utf8EncodeChar c ++ xs < String.utf8EncodeChar d ++ ys := by
  have less : c.val.toNat < d.val.toNat := h
  have bound : d.val.toNat < 0x110000 := by
    rcases d.valid with low | ⟨-, high⟩
    · exact Nat.lt_trans low (by decide)
    · exact high
  unfold String.utf8EncodeChar
  generalize c.val.toNat = m at less
  generalize d.val.toNat = n at less bound
  dsimp only
  -- the leading byte tells characters apart that are not spread over as many bytes
  by_cases one : n ≤ 127
  · rw [if_pos one, if_pos (by omega)]
    exact byte_cons_lt (by omega) (.inl less)
  by_cases two : n ≤ 2047
  · rw [if_neg one, if_pos two]
    split_ifs
    · exact byte_cons_lt (by omega) (.inl (by omega))
    · refine byte_cons_lt (by omega) ?_
      by_cases lead : m / 64 = n / 64
      · exact .inr ⟨by rw [lead], last_byte_lt less lead⟩
      · exact .inl (by omega)
    · omega
    · omega
  by_cases three : n ≤ 65535
  · rw [if_neg one, if_neg two, if_pos three]
    split_ifs
    · exact byte_cons_lt (by omega) (.inl (by omega))
    · exact byte_cons_lt (by omega) (.inl (by omega))
    · refine byte_cons_lt (by omega) ?_
      by_cases lead : m / 4096 = n / 4096
      · exact .inr ⟨by rw [lead], last_two_bytes_lt less lead⟩
      · exact .inl (by omega)
    · omega
  · rw [if_neg one, if_neg two, if_neg three]
    split_ifs
    · exact byte_cons_lt (by omega) (.inl (by omega))
    · exact byte_cons_lt (by omega) (.inl (by omega))
    · exact byte_cons_lt (by omega) (.inl (by omega))
    · refine byte_cons_lt (by omega) ?_
      by_cases lead : m / 262144 = n / 262144
      · exact .inr ⟨by rw [lead], last_three_bytes_lt less lead⟩
      · exact .inl (by omega)

theorem flatMap_utf8EncodeChar_lt {cs ds : List Char} (h : cs < ds) :
    cs.flatMap String.utf8EncodeChar < ds.flatMap String.utf8EncodeChar := by
  induction ds generalizing cs with
  | nil => exact absurd h (List.not_lt_nil cs)
  | cons d ds ih =>
    cases cs with
    | nil =>
      rw [List.flatMap_nil, List.flatMap_cons]
      cases encoded : String.utf8EncodeChar d with
      | nil => exact absurd encoded String.utf8EncodeChar_ne_nil
      | cons b bs => exact List.nil_lt_cons b _
    | cons c cs =>
      rw [List.flatMap_cons, List.flatMap_cons]
      rcases List.cons_lt_cons_iff.mp h with less | ⟨rfl, rest⟩
      · exact utf8EncodeChar_append_lt less _ _
      · exact List.append_left_lt (ih rest)

/-- The lesser text has the lesser bytes. -/
theorem bytes_lt {s t : String} (h : s < t) : bytes s < bytes t := by
  rw [bytes_eq, bytes_eq]
  exact flatMap_utf8EncodeChar_lt (String.lt_iff_toList_lt.mp h)

/-- Texts are in the order of their bytes. -/
theorem bytes_le_iff {s t : String} : bytes s ≤ bytes t ↔ s ≤ t := by
  constructor
  · intro h
    exact not_lt.mp fun less => h (bytes_lt less)
  · intro h
    rcases lt_or_eq_of_le h with less | rfl
    · exact List.lt_asymm (bytes_lt less)
    · exact List.lt_irrefl _

end SearchFilter.Text
