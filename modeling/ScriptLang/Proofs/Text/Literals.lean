import ScriptLang.Text.Decimal
import ScriptLang.Text.Literal

namespace ScriptLang.Text

namespace Literal

theorem read_backslash (c : Char) (rest : List Char) :
    read ('\\' :: c :: rest) = (unescapeChar c :: (read rest).1, (read rest).2) := by
  rw [read]

theorem read_plain {c : Char} (hquote : c ≠ '"') (hslash : c ≠ '\\') (rest : List Char) :
    read (c :: rest) = (c :: (read rest).1, (read rest).2) := by
  rw [read]
  · intro h
    exact absurd h hquote
  · intro h
    exact absurd h hslash
  · intro d behind h
    exact absurd h hslash

theorem read_escapeChar (c : Char) (rest : List Char) :
    read (escapeChar c ++ rest) = (c :: (read rest).1, (read rest).2) := by
  unfold escapeChar
  split
  · exact read_backslash _ _
  · exact read_backslash _ _
  · exact read_backslash _ _
  · exact read_backslash _ _
  · rename_i hquote hslash _ _
    exact read_plain hquote hslash rest

/-- An escaped text is read back, and the reader goes on behind it as if it began there. -/
theorem read_escape_append (text rest : List Char) :
    read (text.flatMap escapeChar ++ rest) = (text ++ (read rest).1, (read rest).2) := by
  induction text with
  | nil => rfl
  | cons c text ih =>
      rw [List.flatMap_cons, List.append_assoc, read_escapeChar, ih, List.cons_append]

theorem read_escape (text rest : List Char) :
    read (text.flatMap escapeChar ++ '"' :: rest) = (text, rest) := by
  rw [read_escape_append]
  simp [read]

end Literal

namespace Decimal

theorem value_ofNat (n : Nat) : value (ofNat n) = n := by
  rw [value, ofNat, String.toList_ofList]
  exact Nat.ofDigitChars_ten_toDigits

theorem toList_ofNat_ne_nil (n : Nat) : (ofNat n).toList ≠ [] := by
  rw [ofNat, String.toList_ofList]
  exact Nat.toDigits_ne_nil

theorem isDigit_of_mem_ofNat {n : Nat} {c : Char} (h : c ∈ (ofNat n).toList) :
    c.isDigit = true := by
  rw [ofNat, String.toList_ofList] at h
  exact Nat.isDigit_of_mem_toDigits (by decide) (by decide) h

theorem ofInt64_of_nonneg {n : Int64} (h : 0 ≤ n) : ofInt64 n = ofNat n.toNatClampNeg := by
  obtain ⟨m, hm⟩ := Int.eq_ofNat_of_zero_le (Int64.le_iff_toInt_le.mp h)
  have hclamp : n.toNatClampNeg = m := by
    rw [Int64.toNatClampNeg, hm, Int.toNat_natCast]
  rw [ofInt64, hm, hclamp]

theorem value_ofInt64 {n : Int64} (h : 0 ≤ n) :
    value (ofInt64 n) ≤ largest ∧ Int64.ofNat (value (ofInt64 n)) = n := by
  rw [ofInt64_of_nonneg h, value_ofNat]
  constructor
  · exact Nat.le_of_lt_succ n.toNatClampNeg_lt
  · exact Int64.ofNat_toNatClampNeg n h

end Decimal

end ScriptLang.Text
