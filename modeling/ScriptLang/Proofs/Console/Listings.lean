import Mathlib.Data.List.Nodup
import ScriptLang.Console.Command
import ScriptLang.Proofs.Console.Lines

namespace ScriptLang

theorem eq_of_append_mark {α : Type} {mark : α} {front front' behind behind' : List α}
    (h : front ++ mark :: behind = front' ++ mark :: behind') (hfront : mark ∉ front)
    (hfront' : mark ∉ front') : front = front' ∧ behind = behind' := by
  induction front generalizing front' with
  | nil =>
      cases front' with
      | nil => exact ⟨rfl, (List.cons.inj h).2⟩
      | cons a front' => exact absurd (List.mem_cons.mpr (.inl (List.cons.inj h).1)) hfront'
  | cons a front ih =>
      cases front' with
      | nil => exact absurd (List.mem_cons.mpr (.inl (List.cons.inj h).1.symm)) hfront
      | cons b front' =>
          obtain ⟨rfl, htail⟩ := List.cons.inj h
          obtain ⟨rfl, hbehind⟩ := ih htail (List.not_mem_of_not_mem_cons hfront)
            (List.not_mem_of_not_mem_cons hfront')
          exact ⟨rfl, hbehind⟩

namespace Text.Listing

variable {c d : Char} {rest rest' : List Char}

section Digits

theorem toDigits_eq_append (n : Nat) : Nat.toDigits 16 n =
    (if n < 16 then [] else Nat.toDigits 16 (n / 16)) ++ [Nat.digitChar (n % 16)] := by
  rw [Nat.toDigits_eq_if (by decide)]
  split
  · rename_i hlt
    rw [Nat.mod_eq_of_lt hlt, List.nil_append]
  · rfl

theorem exists_digitChar_of_mem {n : Nat} (h : c ∈ Nat.toDigits 16 n) :
    ∃ digit < 16, c = Nat.digitChar digit := by
  induction n using Nat.strongRecOn with
  | ind n ih =>
      rw [toDigits_eq_append] at h
      rcases List.mem_append.mp h with hfront | hlast
      · split at hfront
        · cases hfront
        · exact ih (n / 16) (by omega) hfront
      · exact ⟨n % 16, Nat.mod_lt _ (by decide), List.mem_singleton.mp hlast⟩

theorem digitChar_injective : ∀ m < 16, ∀ n < 16, Nat.digitChar m = Nat.digitChar n → m = n := by
  decide

theorem toDigits_injective {m n : Nat} (h : Nat.toDigits 16 m = Nat.toDigits 16 n) : m = n := by
  induction m using Nat.strongRecOn generalizing n with
  | ind m ih =>
      rw [toDigits_eq_append m, toDigits_eq_append n] at h
      obtain ⟨hfront, hlast⟩ := List.append_inj' h rfl
      have hdigit := digitChar_injective _ (Nat.mod_lt m (by decide)) _ (Nat.mod_lt n (by decide))
        (List.singleton_inj.mp hlast)
      by_cases hm : m < 16
      · by_cases hn : n < 16
        · omega
        · rw [if_pos hm, if_neg hn] at hfront
          exact absurd hfront.symm Nat.toDigits_ne_nil
      · by_cases hn : n < 16
        · rw [if_neg hm, if_pos hn] at hfront
          exact absurd hfront Nat.toDigits_ne_nil
        · rw [if_neg hm, if_neg hn] at hfront
          have hquotient := ih (m / 16) (by omega) hfront
          omega

theorem not_mem_toDigits (h : ∀ digit < 16, Nat.digitChar digit ≠ c) (n : Nat) :
    c ∉ Nat.toDigits 16 n := by
  intro hmem
  obtain ⟨digit, hlt, rfl⟩ := exists_digitChar_of_mem hmem
  exact h digit hlt rfl

end Digits

section Escapes

/-- The characters with an escape of their own, and the letters behind the backslash. -/
def lettered : List (Char × Char) :=
  [('"', '"'), ('\\', '\\'), ('\n', 'n'), ('\r', 'r'), ('\t', 't'), ('\x00', '0')]

theorem lettered_apart : ∀ p ∈ lettered, p.2 ≠ 'u' ∧ p.2 ≠ '\n' ∧
    ∀ q ∈ lettered, p.2 = q.2 → p.1 = q.1 := by
  decide

theorem escapeChar_cases (c : Char) :
    (∃ letter, (c, letter) ∈ lettered ∧ escapeChar c = ['\\', letter]) ∨
    escapeChar c = numbered c ∨
    (c ≠ '\\' ∧ c ≠ '"' ∧ c ≠ '\n') ∧ escapeChar c = [c] := by
  unfold escapeChar
  split
  case h_7 hquote hslash hfeed _ _ _ =>
      split
      · exact .inr (.inl rfl)
      · exact .inr (.inr ⟨⟨hslash, hquote, hfeed⟩, rfl⟩)
  all_goals exact .inl ⟨_, by decide, rfl⟩

theorem numbered_append (c : Char) (rest : List Char) : numbered c ++ rest =
    '\\' :: 'u' :: '\x7b' :: (Nat.toDigits 16 c.toNat ++ '\x7d' :: rest) := by
  simp [numbered]

theorem eq_of_numbered (h : numbered c ++ rest = numbered d ++ rest') : c = d := by
  rw [numbered_append, numbered_append] at h
  simp only [List.cons.injEq, true_and] at h
  have hdigits := (eq_of_append_mark h (not_mem_toDigits (by decide) _)
    (not_mem_toDigits (by decide) _)).1
  exact Char.toNat_inj.mp (toDigits_injective hdigits)

theorem eq_of_lettered {letter : Char} (hc : (c, letter) ∈ lettered)
    (h : '\\' :: letter :: rest = escapeChar d ++ rest') : c = d := by
  obtain ⟨hu, -, hapart⟩ := lettered_apart _ hc
  rcases escapeChar_cases d with ⟨letter', hd, heq⟩ | heq | ⟨⟨hslash, -⟩, heq⟩
  · rw [heq] at h
    exact hapart _ hd (List.cons.inj (List.cons.inj h).2).1
  · rw [heq, numbered_append] at h
    exact absurd (List.cons.inj (List.cons.inj h).2).1 hu
  · rw [heq] at h
    exact absurd (List.cons.inj h).1.symm hslash

theorem eq_of_escapeChar (h : escapeChar c ++ rest = escapeChar d ++ rest') : c = d := by
  rcases escapeChar_cases c with ⟨letter, hc, heq⟩ | heq | ⟨⟨hslash, -⟩, heq⟩
  · rw [heq] at h
    exact eq_of_lettered hc h
  · rcases escapeChar_cases d with ⟨letter, hd, heq'⟩ | heq' | ⟨⟨hslash, -⟩, heq'⟩
    · rw [heq'] at h
      exact (eq_of_lettered hd h.symm).symm
    · rw [heq, heq'] at h
      exact eq_of_numbered h
    · rw [heq, heq', numbered_append] at h
      exact absurd (List.cons.inj h).1.symm hslash
  · rcases escapeChar_cases d with ⟨letter, hd, heq'⟩ | heq' | ⟨-, heq'⟩
    · rw [heq'] at h
      exact (eq_of_lettered hd h.symm).symm
    · rw [heq, heq', numbered_append] at h
      exact absurd (List.cons.inj h).1 hslash
    · rw [heq, heq'] at h
      exact (List.cons.inj h).1

theorem quote_not_head_escapeChar (h : '"' :: rest = escapeChar c ++ rest') : False := by
  rcases escapeChar_cases c with ⟨letter, -, heq⟩ | heq | ⟨⟨-, hquote, -⟩, heq⟩
  · rw [heq] at h
    exact absurd (List.cons.inj h).1 (by decide)
  · rw [heq, numbered_append] at h
    exact absurd (List.cons.inj h).1 (by decide)
  · rw [heq] at h
    exact hquote (List.cons.inj h).1.symm

theorem feed_not_mem_escapeChar (c : Char) : '\n' ∉ escapeChar c := by
  rcases escapeChar_cases c with ⟨letter, hc, heq⟩ | heq | ⟨⟨-, -, hfeed⟩, heq⟩
  · have hletter := (lettered_apart _ hc).2.1
    simp [heq, hletter.symm]
  · have hdigits := not_mem_toDigits (c := '\n') (by decide) c.toNat
    simp [heq, numbered, hdigits]
  · simp [heq, hfeed.symm]

end Escapes

section Quotes

/-- Characters up to the quote that closes them are determined by their escapes. -/
theorem eq_of_escapes {text text' : List Char}
    (h : text.flatMap escapeChar ++ '"' :: rest = text'.flatMap escapeChar ++ '"' :: rest') :
    text = text' := by
  induction text generalizing text' with
  | nil =>
      cases text' with
      | nil => rfl
      | cons d text' =>
          rw [List.flatMap_cons, List.append_assoc] at h
          exact (quote_not_head_escapeChar h).elim
  | cons c text ih =>
      cases text' with
      | nil =>
          rw [List.flatMap_cons, List.append_assoc] at h
          exact (quote_not_head_escapeChar h.symm).elim
      | cons d text' =>
          rw [List.flatMap_cons, List.append_assoc, List.flatMap_cons, List.append_assoc] at h
          obtain rfl := eq_of_escapeChar h
          rw [ih (List.append_cancel_left h)]

theorem toList_quote (text : String) :
    (quote text).toList = '"' :: (text.toList.flatMap escapeChar ++ ['"']) := by
  simp [quote]

theorem quote_injective {text text' : String} (h : quote text = quote text') : text = text' := by
  rw [← String.toList_inj, toList_quote, toList_quote] at h
  exact String.toList_inj.mp (eq_of_escapes (List.cons.inj h).2)

theorem feed_not_mem_quote (text : String) : '\n' ∉ (quote text).toList := by
  rw [toList_quote]
  simp [feed_not_mem_escapeChar]

end Quotes

end Text.Listing

namespace Token

open ScriptLang.Text

section Names

/-- All kinds of tokens. -/
def Kind.all : List Kind :=
  [.illegal, .eof, .ident, .int, .string, .assign, .plus, .minus, .bang, .asterisk, .slash,
    .lt, .gt, .eq, .notEq, .comma, .semicolon, .colon, .lparen, .rparen, .lbrace, .rbrace,
    .lbracket, .rbracket, .fnWord, .letWord, .ifWord, .elseWord, .returnWord, .trueWord,
    .falseWord]

theorem Kind.mem_all (kind : Kind) : kind ∈ Kind.all := by
  cases kind <;> decide

theorem Kind.nodup_names : (Kind.all.map Kind.name).Nodup := by
  decide +kernel

theorem Kind.name_injective {kind kind' : Kind} (h : kind.name = kind'.name) : kind = kind' :=
  List.inj_on_of_nodup_map Kind.nodup_names kind.mem_all kind'.mem_all h

theorem Kind.not_mem_name (kind : Kind) : ' ' ∉ kind.name.toList ∧ '\n' ∉ kind.name.toList := by
  cases kind <;> decide

end Names

theorem toList_render (token : Token) : token.render.toList =
    token.kind.name.toList ++ ' ' :: (Listing.quote token.literal).toList := by
  simp [render]

theorem render_injective {token token' : Token} (h : token.render = token'.render) :
    token = token' := by
  rw [← String.toList_inj, toList_render, toList_render] at h
  obtain ⟨hname, hliteral⟩ :=
    eq_of_append_mark h token.kind.not_mem_name.1 token'.kind.not_mem_name.1
  have hkind := Kind.name_injective (String.toList_inj.mp hname)
  have htext := Listing.quote_injective (String.toList_inj.mp hliteral)
  obtain ⟨kind, literal⟩ := token
  cases hkind
  cases htext
  rfl

theorem feed_not_mem_render (token : Token) : '\n' ∉ token.render.toList := by
  rw [toList_render]
  simp [token.kind.not_mem_name.2, Listing.feed_not_mem_quote]

theorem splitOn_listing {tokens : List Token} (h : tokens ≠ []) :
    (listing tokens).toList.splitOn '\n' = tokens.map fun token => token.render.toList := by
  have hlines : ∀ line ∈ tokens.map (fun token => token.render.toList), '\n' ∉ line := by
    intro line hline
    obtain ⟨token, -, rfl⟩ := List.mem_map.mp hline
    exact feed_not_mem_render token
  have hfeed : "\n".toList = ['\n'] := rfl
  rw [listing, String.toList_intercalate, List.map_map, hfeed]
  exact List.splitOn_intercalate '\n' hlines (by simpa using h)

theorem listing_injective {tokens tokens' : List Token} (hne : tokens ≠ []) (hne' : tokens' ≠ [])
    (h : listing tokens = listing tokens') : tokens = tokens' := by
  have hlines := splitOn_listing hne
  rw [h, splitOn_listing hne'] at hlines
  refine (List.map_injective_iff.mpr ?_ hlines).symm
  intro token token' hrender
  exact render_injective (String.toList_inj.mp hrender)

end Token

namespace Console

theorem Output.line_injective {text text' : String} (h : Output.line text = Output.line text') :
    text = text' := by
  have hstdout : text ++ "\n" = text' ++ "\n" := congrArg Output.stdout h
  exact (String.append_left_inj _).mp hstdout

theorem perform?_lex (depth : Nat) (source : String) : Command.lex.perform? depth source.toUTF8 =
    some (.line (Token.listing (Token.tokenize source))) := by
  simp only [Command.perform?, Text.fromUTF8?_toUTF8]

/-- A listing determines the tokens.  Two sources are listed alike exactly if they have the same
tokens.  Each token is listed on one line, and no two tokens are listed alike. -/
theorem listing_determines_tokens :
    (∀ (depth : Nat) (a b : String),
      Command.lex.perform? depth a.toUTF8 = Command.lex.perform? depth b.toUTF8 ↔
        Token.tokenize a = Token.tokenize b) ∧
    (∀ token : Token, '\n' ∉ token.render.toList) ∧
    ∀ token token' : Token, token.render = token'.render ↔ token = token' := by
  refine ⟨?_, Token.feed_not_mem_render, ?_⟩
  · intro depth a b
    rw [perform?_lex, perform?_lex]
    constructor
    · intro h
      have hlisting := Output.line_injective (Option.some.inj h)
      exact Token.listing_injective (by simp [Token.tokenize]) (by simp [Token.tokenize]) hlisting
    · intro h
      rw [h]
  · intro token token'
    exact ⟨Token.render_injective, congrArg Token.render⟩

end Console

end ScriptLang
