import ScriptLang.Console.Repl

namespace ScriptLang

namespace Text

/-- The bytes that spell a text. -/
def bytes (text : String) : List UInt8 :=
  text.toUTF8.data.toList

variable {text : String} {b : UInt8} {c d : Char}

theorem bytes_append (a b : String) : bytes (a ++ b) = bytes a ++ bytes b := by
  simp [bytes, String.toUTF8_eq_toByteArray]

theorem bytes_eq_flatMap (text : String) :
    bytes text = text.toList.flatMap String.utf8EncodeChar := by
  rw [bytes, String.toUTF8_eq_toByteArray, ← String.utf8Encode_toList, List.utf8Encode]
  simp

theorem fromUTF8?_toUTF8 (text : String) : String.fromUTF8? text.toUTF8 = some text := by
  simp [String.fromUTF8?, String.fromUTF8, text.isValidUTF8]

theorem fromUTF8?_bytes (text : String) :
    String.fromUTF8? ⟨(bytes text).toArray⟩ = some text := by
  rw [bytes, Array.toArray_toList]
  exact fromUTF8?_toUTF8 text

/-- A byte below 128 spells the character of that number, and is part of no other. -/
theorem eq_of_mem_utf8EncodeChar (h : b ∈ String.utf8EncodeChar c) (hb : b.toNat = d.toNat)
    (hd : d.toNat < 128) : c = d := by
  apply Char.toNat_inj.mp
  have hval : c.toNat = c.val.toNat := rfl
  rw [String.utf8EncodeChar] at h
  split at h
  · rw [List.mem_singleton] at h
    rw [h, UInt8.toNat_ofNat'] at hb
    omega
  · repeat' split at h
    all_goals
      simp only [List.mem_cons, List.not_mem_nil, or_false, ← UInt8.toNat_inj,
        UInt8.toNat_ofNat'] at h
      omega

theorem mem_of_mem_bytes (h : b ∈ bytes text) (hb : b.toNat = d.toNat) (hd : d.toNat < 128) :
    d ∈ text.toList := by
  rw [bytes_eq_flatMap, List.mem_flatMap] at h
  obtain ⟨c, hc, hmem⟩ := h
  exact eq_of_mem_utf8EncodeChar hmem hb hd ▸ hc

theorem getLast?_of_getLast?_bytes (h : (bytes text).getLast? = some b) (hb : b.toNat = d.toNat)
    (hd : d.toNat < 128) : text.toList.getLast? = some d := by
  rw [bytes_eq_flatMap, List.getLast?_flatMap] at h
  rw [← List.head?_reverse]
  cases hchars : text.toList.reverse with
  | nil =>
      rw [hchars] at h
      cases h
  | cons c chars =>
      rw [hchars, List.findSome?_cons] at h
      cases hlast : (String.utf8EncodeChar c).getLast? with
      | none => exact absurd (List.getLast?_eq_none_iff.mp hlast) (String.utf8EncodeChar_ne_nil)
      | some b' =>
          rw [hlast] at h
          cases h
          rw [List.head?_cons, eq_of_mem_utf8EncodeChar (List.mem_of_getLast? hlast) hb hd]

end Text

namespace Console

theorem linesOf_append {line behind : List UInt8} {lines : List (List UInt8)} (hfeed : 10 ∉ line)
    (hbehind : linesOf behind = [] :: lines)
    (hreturn : line.getLast? = some 13 → behind.head? ≠ some 10) :
    linesOf (line ++ behind) = line :: lines := by
  induction line with
  | nil => exact hbehind
  | cons b line ih =>
      rw [List.mem_cons, not_or] at hfeed
      have hkept : ¬ (b = 13 ∧ (line ++ behind).head? = some 10) := by
        rintro ⟨rfl, hhead⟩
        cases line with
        | nil => exact hreturn rfl hhead
        | cons d line =>
            cases hhead
            exact hfeed.2 List.mem_cons_self
      have hline : linesOf (line ++ behind) = line :: lines := by
        apply ih hfeed.2
        intro hlast
        apply hreturn
        rw [List.getLast?_cons, hlast]
        rfl
      rw [List.cons_append, linesOf, if_neg (Ne.symm hfeed.1), if_neg hkept, hline]

theorem not_mem_bytes_of_no_feed {text : String} (h : '\n' ∉ text.toList) :
    10 ∉ Text.bytes text :=
  fun hmem => h (Text.mem_of_mem_bytes hmem rfl (by decide))

theorem linesOf_feed {text : String} (hfeed : '\n' ∉ text.toList)
    (hreturn : text.toList.getLast? ≠ some '\r') (behind : List UInt8) :
    linesOf (Text.bytes (text ++ "\n") ++ behind) = Text.bytes text :: linesOf behind := by
  have hbehind : linesOf (10 :: behind) = [] :: linesOf behind := by rw [linesOf, if_pos rfl]
  have hlast : (Text.bytes text).getLast? ≠ some 13 :=
    fun h => hreturn (Text.getLast?_of_getLast?_bytes h rfl (by decide))
  rw [Text.bytes_append, List.append_assoc]
  exact linesOf_append (not_mem_bytes_of_no_feed hfeed) hbehind (absurd · hlast)

theorem linesOf_return_feed {text : String} (hfeed : '\n' ∉ text.toList) (behind : List UInt8) :
    linesOf (Text.bytes (text ++ "\r\n") ++ behind) = Text.bytes text :: linesOf behind := by
  have hbehind : linesOf (13 :: 10 :: behind) = [] :: linesOf behind := by
    rw [linesOf, if_neg (by decide), if_pos ⟨rfl, rfl⟩, linesOf, if_pos rfl]
  rw [Text.bytes_append, List.append_assoc]
  have hhead : (13 :: 10 :: behind).head? ≠ some 10 := by simp
  exact linesOf_append (not_mem_bytes_of_no_feed hfeed) hbehind fun _ => hhead

/-- A line of text together with the way it is ended: by a line feed, or by a carriage return and
a line feed. -/
structure Line where
  text : String
  carriage : Bool
  no_feed : '\n' ∉ text.toList

namespace Line

def written (line : Line) : String :=
  line.text ++ if line.carriage then "\r\n" else "\n"

/-- What is heard of a line when bytes are cut: all of it, but for a carriage return in front of
the line feed, which counts as part of the line's end. -/
theorem exists_heard (line : Line) : ∃ heard : String,
    (line.text = heard ∨ line.text = heard ++ "\r") ∧
      ∀ behind, linesOf (Text.bytes line.written ++ behind) =
        Text.bytes heard :: linesOf behind := by
  obtain ⟨text, carriage, no_feed⟩ := line
  cases carriage with
  | true => exact ⟨text, .inl rfl, linesOf_return_feed no_feed⟩
  | false =>
      by_cases hreturn : text.toList.getLast? = some '\r'
      · obtain ⟨chars, hchars⟩ := List.getLast?_eq_some_iff.mp hreturn
        obtain ⟨heard, rfl⟩ : ∃ heard, text = heard ++ "\r" :=
          ⟨String.ofList chars, String.toList_inj.mp (by simp [hchars])⟩
        have hheard : '\n' ∉ heard.toList := fun hmem => no_feed (by simp [hmem])
        have hwritten : heard ++ "\r" ++ "\n" = heard ++ "\r\n" := String.append_assoc
        refine ⟨heard, .inr rfl, fun behind => ?_⟩
        rw [written, if_neg Bool.false_ne_true, hwritten]
        exact linesOf_return_feed hheard behind
      · exact ⟨text, .inl rfl, linesOf_feed no_feed hreturn⟩

end Line

end Console

end ScriptLang
