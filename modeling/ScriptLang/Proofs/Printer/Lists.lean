import ScriptLang.Proofs.Grammar.Levels
import ScriptLang.Proofs.Printer.Tokens

namespace ScriptLang

open Grammar
open Token (fixed separated)

/-- The tokens can be read as the expression wherever nothing behind them continues it. -/
def Stands (e : Expr) (tokens : List Token) : Prop :=
  ∀ rest, ¬ Continues (kindAhead rest) → Reads (.expression e) (tokens ++ rest) rest

/-- The tokens of a key and of a value, with a colon between them. -/
def StandsPair (pair : Expr × Expr) (tokens : List Token) : Prop :=
  ∃ key value, tokens = key ++ fixed .colon :: value ∧ Stands pair.1 key ∧ Stands pair.2 value

theorem not_continues_of_ofKind? {kind : Token.Kind} (h : Continuation.ofKind? kind = none) :
    ¬ Continues kind := by
  rw [continues_iff]
  rintro ⟨joint, rfl⟩
  rw [joint.ofKind?_kind] at h
  cases h

theorem not_continues_fixed {kind : Token.Kind} (h : Continuation.ofKind? kind = none)
    (rest : List Token) : ¬ Continues (kindAhead (fixed kind :: rest)) :=
  not_continues_of_ofKind? h

section Items

variable {es : List Expr} {tokens : List (List Token)}

theorem reads_moreItems (h : List.Forall₂ Stands es tokens) {close : Token.Kind}
    (hclose : Continuation.ofKind? close = none) (rest : List Token) :
    Reads (.moreItems close es) (tokens.flatMap (fixed .comma :: ·) ++ fixed close :: rest) rest ∧
    ¬ Continues (kindAhead (tokens.flatMap (fixed .comma :: ·) ++ fixed close :: rest)) := by
  induction h with
  | nil => exact ⟨.noMoreItems, not_continues_fixed hclose rest⟩
  | cons hfirst _ ih =>
      simp only [List.flatMap_cons, List.cons_append, List.append_assoc]
      exact ⟨.moreItems (hfirst _ ih.2) ih.1, not_continues_fixed rfl _⟩

theorem reads_items (h : List.Forall₂ Stands es tokens) {close : Token.Kind}
    (hclose : Continuation.ofKind? close = none) (rest : List Token) :
    Reads (.items close es) (separated tokens ++ fixed close :: rest) rest := by
  cases h with
  | nil => exact .noItems
  | cons hfirst hothers =>
      obtain ⟨hmore, hend⟩ := reads_moreItems hothers hclose rest
      rw [separated, List.append_assoc]
      exact .items (hfirst _ hend) hmore

end Items

section Params

theorem reads_moreParams (params : List String) (rest : List Token) :
    Reads (.moreParams params)
      ((params.map fun name => [⟨.ident, name⟩]).flatMap (fixed .comma :: ·) ++
        fixed .rparen :: rest) rest := by
  induction params with
  | nil => exact .noMoreParams
  | cons name params ih => exact .moreParams ih

theorem reads_params (params : List String) (rest : List Token) :
    Reads (.params params)
      (separated (params.map fun name => [⟨.ident, name⟩]) ++ fixed .rparen :: rest) rest := by
  cases params with
  | nil => exact .noParams
  | cons name params => exact .params (reads_moreParams params rest)

end Params

section Pairs

variable {pairs : List (Expr × Expr)} {tokens : List (List Token)}

theorem reads_pair {pair : Expr × Expr} {words behind rest : List Token}
    (h : StandsPair pair words) (hend : ¬ Continues (kindAhead behind))
    (hmore : Reads (.morePairs pairs) behind rest) :
    Reads (.pairs (pair :: pairs)) (words ++ behind) rest := by
  obtain ⟨key, value⟩ := pair
  obtain ⟨keyWords, valueWords, rfl, hkey, hvalue⟩ := h
  rw [List.append_assoc, List.cons_append]
  exact .pairs (hkey _ (not_continues_fixed rfl _)) (hvalue _ hend) hmore

theorem reads_morePairs (h : List.Forall₂ StandsPair pairs tokens) (rest : List Token) :
    Reads (.morePairs pairs) (tokens.flatMap (fixed .comma :: ·) ++ fixed .rbrace :: rest) rest ∧
    ¬ Continues (kindAhead (tokens.flatMap (fixed .comma :: ·) ++ fixed .rbrace :: rest)) := by
  induction h with
  | nil => exact ⟨.noMorePairs, not_continues_fixed rfl rest⟩
  | cons hfirst _ ih =>
      simp only [List.flatMap_cons, List.cons_append, List.append_assoc]
      exact ⟨.morePairs (reads_pair hfirst ih.2 ih.1), not_continues_fixed rfl _⟩

theorem reads_pairs (h : List.Forall₂ StandsPair pairs tokens) (rest : List Token) :
    Reads (.pairs pairs) (separated tokens ++ fixed .rbrace :: rest) rest := by
  cases h with
  | nil => exact .noPairs
  | cons hfirst hothers =>
      obtain ⟨hmore, hend⟩ := reads_morePairs hothers rest
      rw [separated, List.append_assoc]
      exact reads_pair hfirst hend hmore

end Pairs

end ScriptLang
