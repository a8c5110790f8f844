import ScriptLang.Proofs.Evaluation.Contexts
import ScriptLang.Proofs.Value.Sameness
import ScriptLang.Proofs.Value.Slots
import ScriptLang.Session

namespace ScriptLang

/-- The pairs of a literal evaluate, from left to right and the key before the value, to these
keys and values. -/
inductive Expr.PairsGive (call : Caller) (frame : FrameId) :
    List (Expr Label × Expr Label) → Store → List (Value × Value) → Store → Prop where
  | nil (s : Store) : PairsGive call frame [] s [] s
  | cons {keyExpr valueExpr : Expr Label} {pairs : List (Expr Label × Expr Label)}
      {key value : Value}
      {filed : List (Value × Value)} {s t u v : Store}
      (hkey : keyExpr.evalWith call frame s = .done key t)
      (hvalue : valueExpr.evalWith call frame t = .done value u) (hplain : value.isSignal = false)
      (hpairs : PairsGive call frame pairs u filed v) :
      PairsGive call frame ((keyExpr, valueExpr) :: pairs) s ((key, value) :: filed) v

namespace Value

/-- Two strings with one digest. -/
def Collide (k₁ k₂ : Value) : Prop :=
  ∃ s t : String, k₁ = .string s ∧ k₂ = .string t ∧
    Text.Digest.ofString s = Text.Digest.ofString t

variable {slot : HashKey} {k₁ k₂ : Value}

theorem isSignal_of_hashKey? {key : Value} (h : key.hashKey? = some slot) :
    key.isSignal = false := by
  cases key <;> first | rfl | cases h

/-- Different keys belong in one slot only if they are strings with one digest. -/
theorem hashKey?_eq_iff_collide (hkey : k₁.hashKey?.isSome) (hne : k₁ ≠ k₂) :
    k₁.hashKey? = k₂.hashKey? ↔ Collide k₁ k₂ := by
  constructor
  · intro h
    cases k₂ with
    | integer | boolean => exact absurd ((hashKey?_eq_iff (by simp [kind])).mp h) hne
    | string t =>
        cases k₁ with
        | string s => exact ⟨s, t, rfl, rfl, by simpa [hashKey?] using h⟩
        | _ => simp [hashKey?] at h
    | _ =>
        rw [h] at hkey
        cases hkey
  · rintro ⟨s, t, rfl, rfl, hdigest⟩
    rw [hashKey?, hashKey?, hdigest]

end Value

section Evaluation

variable {call : Caller} {depth : Nat} {frame : FrameId}
  {pairs : List (Expr Label × Expr Label)} {s t : Store}
  {filed : List (Value × Value)}

theorem Expr.PairsGive.evalPairs_eq (h : PairsGive call frame pairs s filed t)
    (hkeys : ∀ pair ∈ filed, pair.1.hashKey?.isSome) (before : List (Value × Value)) :
    Expr.evalPairs call frame pairs (Value.entriesOf before) s =
      .done (.hash (Value.entriesOf (before ++ filed))) t := by
  induction h generalizing before with
  | nil s => rw [Expr.evalPairs, List.append_nil]
  | @cons keyExpr valueExpr pairs key value filed s t u v hkey hvalue hplain _ ih =>
      obtain ⟨hfirst, hothers⟩ := List.forall_mem_cons.mp hkeys
      obtain ⟨slot, hslot⟩ := Option.isSome_iff_exists.mp hfirst
      rw [Expr.evalPairs, hkey, Run.andThen_of_plain (Value.isSignal_of_hashKey? hslot)]
      simp only [hslot]
      rw [hvalue, Run.andThen_of_plain hplain, ← Value.entriesOf_concat hslot, ih hothers,
        List.append_assoc, List.singleton_append]

theorem Expr.PairsGive.eval_eq (h : PairsGive (Value.call depth) frame pairs s filed t)
    (hkeys : ∀ pair ∈ filed, pair.1.hashKey?.isSome) :
    Expr.eval depth frame (.hash pairs) s = .done (.hash (Value.entriesOf filed)) t := by
  rw [Expr.eval, Expr.evalWith]
  exact h.evalPairs_eq hkeys []

/-- In a hash literal the last pair for a slot counts.  Indexing the hash with a key that belongs
in the slot gives the value of that pair, whose key the entry holds, and `null` if there is no
such pair.  There are as many entries as there are different slots.  An integer or a boolean
shares its slot with no other key. -/
theorem hash_literal_keeps_last_pairs
    (h : Expr.PairsGive (Value.call depth) frame pairs s filed t)
    (hkeys : ∀ pair ∈ filed, pair.1.hashKey?.isSome) :
    ∃ entries, Expr.eval depth frame (.hash pairs) s = .done (.hash entries) t ∧
      (∀ q slot, q.hashKey? = some slot →
        (∀ j key value, Value.LastAt filed slot j key value →
          (Value.hash entries).index q = value ∧
          Value.entryAt? entries slot = some ⟨slot, key, value⟩) ∧
        ((∀ pair ∈ filed, pair.1.hashKey? ≠ some slot) →
          (Value.hash entries).index q = .null ∧ Value.entryAt? entries slot = none)) ∧
      entries.length = (filed.map fun pair => pair.1.hashKey?).dedup.length ∧
      ∀ q : Value, q.kind = .integer ∨ q.kind = .boolean →
        ∀ key : Value, key.hashKey? = q.hashKey? ↔ key = q := by
  refine ⟨_, h.eval_eq hkeys, ?_, Value.length_entriesOf hkeys, ?_⟩
  · intro q slot hq
    constructor
    · intro j key value hlast
      rw [Value.index_entriesOf hq, Value.entryAt?_entriesOf, hlast.lastIn?_eq]
      exact ⟨rfl, rfl⟩
    · intro hnone
      rw [Value.index_entriesOf hq, Value.entryAt?_entriesOf, Value.lastIn?_eq_none hnone]
      exact ⟨rfl, rfl⟩
  · intro q hq key
    exact Value.hashKey?_eq_iff hq

/-- The second pair for `1` gives the value, and `true`, which has the bits of `1`, is a key of
its own. -/
theorem hash_literal_keeps_last_pair_for_one : ∃ pairs filed entries,
    pairs = [(.int 1, .int 10), (.bool true, .int 20), (.int 1, .int 30)] ∧
    Expr.PairsGive (Value.call 0) 0 pairs .empty filed .empty ∧
    (∀ pair ∈ filed, pair.1.hashKey?.isSome) ∧
    Expr.eval 0 0 (.hash pairs) .empty = .done (.hash entries) .empty ∧
    (Value.hash entries).index (.integer 1) = .integer 30 ∧
    (Value.hash entries).index (.boolean true) = .integer 20 ∧
    (Value.hash entries).index (.string "1") = .null ∧ entries.length = 2 := by
  let filed : List (Value × Value) :=
    [(.integer 1, .integer 10), (.boolean true, .integer 20), (.integer 1, .integer 30)]
  have hgive : Expr.PairsGive (Value.call 0) 0
      [(.int 1, .int 10), (.bool true, .int 20), (.int 1, .int 30)] .empty filed .empty :=
    .cons rfl rfl rfl (.cons rfl rfl rfl (.cons rfl rfl rfl (.nil _)))
  have hkeys : ∀ pair ∈ filed, pair.1.hashKey?.isSome := by simp [filed, Value.hashKey?]
  obtain ⟨entries, heval, hindex, hlength, -⟩ := hash_literal_keeps_last_pairs hgive hkeys
  have hone : Value.LastAt filed ⟨.integer, 1⟩ 2 (.integer 1) (.integer 30) := by
    refine ⟨rfl, rfl, ?_⟩
    rintro (_ | _ | _ | i) pair hi hpair <;> simp [filed] at hi hpair
  have htrue : Value.LastAt filed ⟨.boolean, 1⟩ 1 (.boolean true) (.integer 20) := by
    refine ⟨rfl, rfl, ?_⟩
    rintro (_ | _ | _ | i) pair hi hpair <;> simp [filed] at hi hpair
    simp [← hpair, Value.hashKey?]
  have hstring : ∀ pair ∈ filed, pair.1.hashKey? ≠ (Value.string "1").hashKey? := by
    simp [filed, Value.hashKey?]
  exact ⟨_, filed, entries, rfl, hgive, hkeys, heval, ((hindex _ _ rfl).1 _ _ _ hone).1,
    ((hindex _ _ rfl).1 _ _ _ htrue).1, ((hindex _ _ rfl).2 hstring).1, hlength⟩

section Collisions

variable {a b c d : Expr Label} {k₁ k₂ v₁ v₂ : Value}

namespace Value

theorem lastIn?_pair (slot : HashKey) : lastIn? slot [(k₁, v₁), (k₂, v₂)] =
    if k₂.hashKey? = some slot then some (k₂, v₂)
    else if k₁.hashKey? = some slot then some (k₁, v₁) else none := by
  have hfirst := lastIn?_concat [] k₁ v₁ slot
  rw [List.nil_append] at hfirst
  refine (lastIn?_concat [(k₁, v₁)] k₂ v₂ slot).trans ?_
  rw [hfirst]
  rfl

theorem entriesOf_pair_of_ne {slot₁ slot₂ : HashKey} (h₁ : k₁.hashKey? = some slot₁)
    (h₂ : k₂.hashKey? = some slot₂) (h : slot₁ ≠ slot₂) (v₁ v₂ : Value) :
    (entriesOf [(k₁, v₁), (k₂, v₂)]).length = 2 ∧
    (hash (entriesOf [(k₁, v₁), (k₂, v₂)])).index k₁ = v₁ ∧
    (hash (entriesOf [(k₁, v₁), (k₂, v₂)])).index k₂ = v₂ := by
  rw [length_entriesOf (by simp [h₁, h₂]), index_entriesOf h₁, index_entriesOf h₂, lastIn?_pair,
    lastIn?_pair]
  simp [h₁, h₂, h, Ne.symm h]

theorem entriesOf_pair_of_eq {slot : HashKey} (h₁ : k₁.hashKey? = some slot)
    (h₂ : k₂.hashKey? = some slot) (v₁ v₂ : Value) :
    (entriesOf [(k₁, v₁), (k₂, v₂)]).length = 1 ∧
    (hash (entriesOf [(k₁, v₁), (k₂, v₂)])).index k₁ = v₂ ∧
    (hash (entriesOf [(k₁, v₁), (k₂, v₂)])).index k₂ = v₂ := by
  rw [length_entriesOf (by simp [h₁, h₂]), index_entriesOf h₁, index_entriesOf h₂, lastIn?_pair]
  simp [h₁, h₂]

end Value

/-- Different keys share an entry only if they are strings with one digest.  Otherwise a literal
with two pairs has two entries and each key finds its own value.  Of two such strings the second
takes the place of the first. -/
theorem different_keys_share_entry_only_by_digest
    (hgive : Expr.PairsGive (Value.call depth) frame [(a, b), (c, d)] s [(k₁, v₁), (k₂, v₂)] t)
    (hkey₁ : k₁.hashKey?.isSome) (hkey₂ : k₂.hashKey?.isSome) (hne : k₁.same k₂ = false) :
    ∃ entries, Expr.eval depth frame (.hash [(a, b), (c, d)]) s = .done (.hash entries) t ∧
      (¬ Value.Collide k₁ k₂ → entries.length = 2 ∧ (Value.hash entries).index k₁ = v₁ ∧
        (Value.hash entries).index k₂ = v₂) ∧
      (Value.Collide k₁ k₂ → entries.length = 1 ∧ (Value.hash entries).index k₁ = v₂ ∧
        (Value.hash entries).index k₂ = v₂) := by
  have hdiffer : k₁ ≠ k₂ := by
    rintro rfl
    rw [Value.same_refl] at hne
    cases hne
  have hcollide := Value.hashKey?_eq_iff_collide hkey₁ hdiffer
  obtain ⟨slot₁, h₁⟩ := Option.isSome_iff_exists.mp hkey₁
  obtain ⟨slot₂, h₂⟩ := Option.isSome_iff_exists.mp hkey₂
  rw [h₁, h₂, Option.some.injEq] at hcollide
  refine ⟨_, hgive.eval_eq (by simp [h₁, h₂]), ?_, ?_⟩
  · intro hnot
    exact Value.entriesOf_pair_of_ne h₁ h₂ (hnot ∘ hcollide.mp) v₁ v₂
  · intro h
    obtain rfl := hcollide.mpr h
    exact Value.entriesOf_pair_of_eq h₁ h₂ v₁ v₂

/-- `1` and `true` have the same bits, and still each has its own entry. -/
theorem one_and_true_share_no_entry :
    (Value.integer 1).same (.boolean true) = false ∧ ∃ entries,
      Expr.eval 0 0 (.hash [(.int 1, .int 10), (.bool true, .int 20)]) .empty =
        .done (.hash entries) .empty ∧
      entries.length = 2 ∧ (Value.hash entries).index (.integer 1) = .integer 10 ∧
      (Value.hash entries).index (.boolean true) = .integer 20 := by
  have hgive : Expr.PairsGive (Value.call 0) 0 [(.int 1, .int 10), (.bool true, .int 20)] .empty
      [(.integer 1, .integer 10), (.boolean true, .integer 20)] .empty :=
    .cons rfl rfl rfl (.cons rfl rfl rfl (.nil _))
  have hne : (Value.integer 1).same (.boolean true) = false := rfl
  obtain ⟨entries, heval, happart, -⟩ :=
    different_keys_share_entry_only_by_digest hgive rfl rfl hne
  exact ⟨hne, entries, heval, happart nofun⟩

/-- Two different strings with one digest.  Either half of the second is that of the first with
the bits turned around in which the two seeds differ, so the two words that are multiplied change
places. -/
theorem different_strings_share_entry :
    (Value.string "Tұa1bAYTұa1bAY").same (.string "éb痂gnéb痂gn") = false ∧ ∃ entries,
      Expr.eval 0 Session.start.frame
          (.hash [(.string "Tұa1bAYTұa1bAY", .int 1), (.string "éb痂gnéb痂gn", .int 2)])
          Session.start.store = .done (.hash entries) Session.start.store ∧
      entries.length = 1 ∧
      (Value.hash entries).index (.string "Tұa1bAYTұa1bAY") = .integer 2 := by
  have hgive : Expr.PairsGive (Value.call 0) Session.start.frame
      [(.string "Tұa1bAYTұa1bAY", .int 1), (.string "éb痂gnéb痂gn", .int 2)] Session.start.store
      [(.string "Tұa1bAYTұa1bAY", .integer 1), (.string "éb痂gnéb痂gn", .integer 2)]
      Session.start.store :=
    .cons rfl rfl rfl (.cons rfl rfl rfl (.nil _))
  have hdigest : Text.Digest.ofString "Tұa1bAYTұa1bAY" = Text.Digest.ofString "éb痂gnéb痂gn" := by
    decide +kernel
  have hfirst : (Value.string "Tұa1bAYTұa1bAY").hashKey? =
      some ⟨.string, Text.Digest.ofString "éb痂gnéb痂gn"⟩ := by rw [Value.hashKey?, hdigest]
  have hsecond : (Value.string "éb痂gnéb痂gn").hashKey? =
      some ⟨.string, Text.Digest.ofString "éb痂gnéb痂gn"⟩ := rfl
  obtain ⟨hlength, hindex, -⟩ :=
    Value.entriesOf_pair_of_eq hfirst hsecond (.integer 1) (.integer 2)
  exact ⟨by decide, _, hgive.eval_eq (by simp [Value.hashKey?]), hlength, hindex⟩

end Collisions

end Evaluation

end ScriptLang
