import ScriptLang.Proofs.Value.Sameness
import ScriptLang.Proofs.Value.Slots
import ScriptLang.Value.Printer

namespace ScriptLang.Value

/-- For each slot, neither list has a pair, or the last pairs of the two have matching keys and
values. -/
def LastMatch (R : Value → Value → Prop) (ps qs : List (Value × Value)) : Prop :=
  ∀ slot, Option.Rel (fun p q => R p.1 q.1 ∧ R p.2 q.2) (lastIn? slot ps) (lastIn? slot qs)

/-- Neither comparing the values nor showing them nor indexing them tells them apart. -/
structure Indistinguishable (v w : Value) : Prop where
  same : v.same w = true
  render : v.render = w.render
  index : ∀ key, v.index key = w.index key

variable {ps qs pairs : List (Value × Value)}

theorem Indistinguishable.of_eq {v w : Value} (h : v = w) : v.Indistinguishable w := by
  subst h
  exact ⟨same_refl v, rfl, fun _ => rfl⟩

theorem lastMatch_eq_iff : LastMatch Eq ps qs ↔ ∀ slot, lastIn? slot ps = lastIn? slot qs := by
  refine forall_congr' fun slot => ?_
  cases lastIn? slot ps with
  | none => cases lastIn? slot qs <;> simp
  | some p => cases lastIn? slot qs <;> simp [Prod.ext_iff]

theorem same_entriesOf_iff : (hash (entriesOf ps)).same (hash (entriesOf qs)) = true ↔
    LastMatch (fun v w => v.same w = true) ps qs := by
  have hrel (slot : HashKey) : Option.Rel Entry.Same (entryAt? (entriesOf ps) slot)
      (entryAt? (entriesOf qs) slot) ↔
      Option.Rel (fun p q => p.1.same q.1 = true ∧ p.2.same q.2 = true) (lastIn? slot ps)
        (lastIn? slot qs) := by
    rw [entryAt?_entriesOf, entryAt?_entriesOf]
    cases lastIn? slot ps with
    | none => cases lastIn? slot qs <;> simp
    | some p => cases lastIn? slot qs <;> simp [Entry.Same]
  rw [same, sameEntries_iff]
  constructor
  · intro h slot
    exact (hrel slot).mp (rel_entryAt? And.left h slot)
  · intro h
    exact (filed_entriesOf ps).forall₂ (filed_entriesOf qs) fun slot => (hrel slot).mpr (h slot)

theorem same_index_of_lastMatch (h : LastMatch (fun v w => v.same w = true) ps qs) (key : Value) :
    ((hash (entriesOf ps)).index key).same ((hash (entriesOf qs)).index key) = true := by
  cases hkey : key.hashKey? with
  | none =>
      rw [index, index, filedUnder, filedUnder, hkey]
      exact same_refl _
  | some slot =>
      rw [index_entriesOf hkey, index_entriesOf hkey]
      have hslot := h slot
      generalize lastIn? slot ps = p, lastIn? slot qs = q at hslot ⊢
      cases hslot with
      | none => exact same_refl _
      | some hpair => exact hpair.2

theorem mem_of_mem_entriesOf (pairs : List (Value × Value)) :
    ∀ entry ∈ entriesOf pairs, (entry.key, entry.value) ∈ pairs := by
  induction pairs using List.reverseRecOn with
  | nil => simp [entriesOf]
  | append_singleton pairs pair ih =>
      have hbefore (entry) (hentry : entry ∈ entriesOf pairs) :=
        List.mem_append_left [pair] (ih entry hentry)
      cases hslot : pair.1.hashKey? with
      | none => rwa [entriesOf_concat_of_none hslot]
      | some slot =>
          rw [entriesOf_concat hslot]
          exact forall_mem_insertEntry hbefore (by simp)

theorem functions_entriesOf_subset (pairs : List (Value × Value)) :
    functionsEntries (entriesOf pairs) ⊆
    pairs.flatMap fun pair => pair.1.functions ++ pair.2.functions := by
  intro closure hclosure
  rw [functionsEntries_eq_flatMap, List.mem_flatMap] at hclosure
  obtain ⟨entry, hentry, hclosure⟩ := hclosure
  exact List.mem_flatMap.mpr ⟨_, mem_of_mem_entriesOf pairs entry hentry, hclosure⟩

theorem entriesOf_eq_of_lastIn? (h : ∀ slot, lastIn? slot ps = lastIn? slot qs) :
    entriesOf ps = entriesOf qs := by
  rw [← List.forall₂_eq_eq_eq]
  apply (filed_entriesOf ps).forall₂ (filed_entriesOf qs)
  intro slot
  rw [entryAt?_entriesOf, entryAt?_entriesOf, h]
  cases lastIn? slot qs with
  | none => exact .none
  | some pair => exact .some rfl

/-- With one pair for each slot, the last one is the only one. -/
theorem lastIn?_eq_some_iff {slot : HashKey} {pair : Value × Value}
    (hnodup : (pairs.map fun pair => pair.1.hashKey?).Nodup) :
    lastIn? slot pairs = some pair ↔ pair ∈ pairs ∧ pair.1.hashKey? = some slot := by
  have hfound {found : Value × Value} (h : lastIn? slot pairs = some found) :
      found ∈ pairs ∧ found.1.hashKey? = some slot := by
    exact ⟨List.mem_reverse.mp (List.mem_of_find?_eq_some h), by simpa using List.find?_some h⟩
  refine ⟨hfound, ?_⟩
  rintro ⟨hpair, hslot⟩
  obtain ⟨found, hlast⟩ := Option.isSome_iff_exists.mp (isSome_lastIn?.mpr ⟨pair, hpair, hslot⟩)
  obtain ⟨hmem, hown⟩ := hfound hlast
  rw [hlast, List.inj_on_of_nodup_map hnodup hmem hpair (hown.trans hslot.symm)]

theorem entriesOf_eq_of_perm (hperm : ps.Perm qs)
    (hnodup : (ps.map fun pair => pair.1.hashKey?).Nodup) : entriesOf ps = entriesOf qs := by
  apply entriesOf_eq_of_lastIn?
  intro slot
  apply Option.ext
  intro pair
  rw [lastIn?_eq_some_iff hnodup,
    lastIn?_eq_some_iff ((hperm.map _).nodup_iff.mp hnodup), hperm.mem_iff]

/-- The order of filing cannot be observed.  Hashes are the same exactly if for each slot the last
pairs are, and then indexing them gives the same values.  They are indistinguishable if the last
pairs are equal, or if they are the same and the functions in them are told apart.  So any order
of pairs that belong in different slots gives the same hash. -/
theorem insertion_order_is_unobservable (ps qs : List (Value × Value)) :
    ((hash (entriesOf ps)).same (hash (entriesOf qs)) = true ↔
      LastMatch (fun v w => v.same w = true) ps qs) ∧
    (LastMatch (fun v w => v.same w = true) ps qs →
      (∀ key, ((hash (entriesOf ps)).index key).same ((hash (entriesOf qs)).index key) = true) ∧
      (Closure.ToldApart ((ps ++ qs).flatMap fun pair => pair.1.functions ++ pair.2.functions) →
        (hash (entriesOf ps)).Indistinguishable (hash (entriesOf qs)))) ∧
    (LastMatch Eq ps qs → (hash (entriesOf ps)).Indistinguishable (hash (entriesOf qs))) ∧
    (ps.Perm qs → (ps.map fun pair => pair.1.hashKey?).Nodup →
      (hash (entriesOf ps)).Indistinguishable (hash (entriesOf qs))) := by
  refine ⟨same_entriesOf_iff, fun h => ⟨same_index_of_lastMatch h, fun hapart => ?_⟩, fun h => ?_,
    fun hperm hnodup => ?_⟩
  · apply Indistinguishable.of_eq
    apply eq_of_same hapart _ _ (same_entriesOf_iff.mpr h)
    · rw [List.flatMap_append]
      exact List.subset_append_of_subset_left _ (functions_entriesOf_subset ps)
    · rw [List.flatMap_append]
      exact List.subset_append_of_subset_right _ (functions_entriesOf_subset qs)
  · apply Indistinguishable.of_eq
    rw [entriesOf_eq_of_lastIn? (lastMatch_eq_iff.mp h)]
  · apply Indistinguishable.of_eq
    rw [entriesOf_eq_of_perm hperm hnodup]

/-- The first value for `2` is overwritten by a function, after `1` was filed.  Filing `1` and
then the function for `2` at once gives the same hash, and so does the reverse order of these
two. -/
theorem overwriting_is_unobservable :
    let f : Value := .function ⟨⟨0, ["x"], []⟩, 0⟩
    let ps := [(.integer 2, .null), (.integer 1, .string "a"), (.integer 2, f)]
    let qs := [(.integer 1, .string "a"), (.integer 2, f)]
    LastMatch Eq ps qs ∧ (hash (entriesOf ps)).Indistinguishable (hash (entriesOf qs)) ∧
      LastMatch (fun v w => v.same w = true) ps qs ∧
      Closure.ToldApart ((ps ++ qs).flatMap fun pair => pair.1.functions ++ pair.2.functions) ∧
      (qs.map fun pair => pair.1.hashKey?).Nodup ∧
      (hash (entriesOf qs)).Indistinguishable (hash (entriesOf qs.reverse)) := by
  intro f ps qs
  have hlast : LastMatch Eq ps qs := by
    refine lastMatch_eq_iff.mpr fun slot => ?_
    simp only [ps, qs, lastIn?, List.reverse_cons, List.reverse_nil,
      List.nil_append, List.cons_append,
      List.find?_cons, List.find?_nil]
    split <;> rfl
  have hnodup : (qs.map fun pair => pair.1.hashKey?).Nodup := by
    change [some (⟨.integer, 1⟩ : HashKey), some ⟨.integer, 2⟩].Nodup
    decide
  have hapart : Closure.ToldApart ((ps ++ qs).flatMap fun pair =>
      pair.1.functions ++ pair.2.functions) := by
    simp [ps, qs, f, functions, Closure.ToldApart]
  obtain ⟨hsame, hindex, hequal, -⟩ := insertion_order_is_unobservable ps qs
  have hmatch := hsame.mp (hequal hlast).same
  obtain ⟨-, -, -, hperm⟩ := insertion_order_is_unobservable qs qs.reverse
  exact ⟨hlast, (hindex hmatch).2 hapart, hmatch, hapart, hnodup,
    hperm qs.reverse_perm.symm hnodup⟩

end ScriptLang.Value
