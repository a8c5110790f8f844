import Mathlib.Data.List.Dedup
import Mathlib.Data.List.Forall2
import Mathlib.Data.List.Induction
import ScriptLang.Proofs.Value.Filing

namespace ScriptLang.Value

/-- The last of the pairs whose key belongs in the slot. -/
def lastIn? (slot : HashKey) (pairs : List (Value × Value)) : Option (Value × Value) :=
  pairs.reverse.find? fun pair => pair.1.hashKey? == some slot

/-- At place `j` stands the last of the pairs whose key belongs in the slot. -/
structure LastAt (pairs : List (Value × Value)) (slot : HashKey) (j : Nat) (key value : Value) :
    Prop where
  here : pairs[j]? = some (key, value)
  own : key.hashKey? = some slot
  last : ∀ i pair, j < i → pairs[i]? = some pair → pair.1.hashKey? ≠ some slot

section Keys

variable {k q : Value}

/-- Integers and booleans are told apart by their slots, and from strings too. -/
theorem hashKey?_eq_iff (hq : q.kind = .integer ∨ q.kind = .boolean) :
    k.hashKey? = q.hashKey? ↔ k = q := by
  constructor
  · intro h
    cases q with
    | integer n =>
        cases k with
        | integer m =>
            have hbits : m.toBitVec = n.toBitVec := by
              simpa [hashKey?] using congrArg (Option.map fun slot => slot.bits.toBitVec) h
            rw [Int64.toBitVec_inj.mp hbits]
        | _ => simp [hashKey?] at h
    | boolean b =>
        cases k with
        | boolean c => cases b <;> cases c <;> first | rfl | simp [hashKey?] at h
        | _ => simp [hashKey?] at h
    | _ => rcases hq with hq | hq <;> cases hq
  · rintro rfl
    rfl

end Keys

variable {entries as bs : List (Entry Value)} {pairs : List (Value × Value)} {slot : HashKey}

section Lookup

theorem entryAt?_cons_self (entry : Entry Value) (entries : List (Entry Value)) :
    entryAt? (entry :: entries) entry.slot = some entry :=
  List.find?_cons_of_pos (beq_self_eq_true _)

theorem entryAt?_cons_of_ne {entry : Entry Value} (h : entry.slot ≠ slot)
    (entries : List (Entry Value)) :
    entryAt? (entry :: entries) slot = entryAt? entries slot :=
  List.find?_cons_of_neg (by simpa using h)

/-- A filed entry takes its slot, and the other slots are as before. -/
theorem entryAt?_insertEntry (new : Entry Value) (entries : List (Entry Value)) (slot : HashKey) :
    entryAt? (insertEntry new entries) slot =
      if new.slot = slot then some new else entryAt? entries slot := by
  have hfront (entries : List (Entry Value)) : entryAt? (new :: entries) slot =
      if new.slot = slot then some new else entryAt? entries slot := by
    split
    · rename_i h
      exact h ▸ entryAt?_cons_self new entries
    · rename_i h
      exact entryAt?_cons_of_ne h entries
  induction entries with
  | nil => exact hfront []
  | cons entry entries ih =>
      rw [insertEntry]
      split
      · exact hfront _
      · split
        · rename_i hsame
          rw [hfront]
          split
          · rfl
          · rename_i h
            rw [entryAt?_cons_of_ne (hsame ▸ h)]
        · rename_i hother
          by_cases h : entry.slot = slot
          · subst h
            rw [entryAt?_cons_self, entryAt?_cons_self, if_neg hother]
          · rw [entryAt?_cons_of_ne h, entryAt?_cons_of_ne h, ih]

theorem isSome_entryAt? : (entryAt? entries slot).isSome ↔ slot ∈ entries.map Entry.slot := by
  simp [entryAt?, List.find?_isSome]

theorem entryAt?_eq_none (h : slot ∉ entries.map Entry.slot) : entryAt? entries slot = none := by
  rwa [← isSome_entryAt?, Option.not_isSome_iff_eq_none] at h

end Lookup

section Pairs

theorem lastIn?_concat (pairs : List (Value × Value)) (key value : Value) (slot : HashKey) :
    lastIn? slot (pairs ++ [(key, value)]) =
      if key.hashKey? = some slot then some (key, value) else lastIn? slot pairs := by
  rw [lastIn?, List.reverse_append, List.reverse_singleton,
    List.singleton_append, List.find?_cons]
  split
  · rename_i h
    rw [if_pos (by simpa using h)]
  · rename_i h
    rw [if_neg (by simpa using h), lastIn?]

theorem LastAt.lastIn?_eq {j : Nat} {key value : Value} (h : LastAt pairs slot j key value) :
    lastIn? slot pairs = some (key, value) := by
  obtain ⟨hj, hhere⟩ := List.getElem?_eq_some_iff.mp h.here
  have hsplit : pairs = pairs.take j ++ (key, value) :: pairs.drop (j + 1) := by
    rw [← hhere, List.getElem_cons_drop, List.take_append_drop]
  rw [lastIn?, List.find?_eq_some_iff_append]
  refine ⟨by simp [h.own], (pairs.drop (j + 1)).reverse, (pairs.take j).reverse, ?_, ?_⟩
  · conv_lhs => rw [hsplit]
    simp
  · intro pair hpair
    obtain ⟨i, hi⟩ := List.mem_iff_getElem?.mp (List.mem_reverse.mp hpair)
    rw [List.getElem?_drop] at hi
    simpa using h.last _ pair (by omega) hi

theorem lastIn?_eq_none (h : ∀ pair ∈ pairs, pair.1.hashKey? ≠ some slot) :
    lastIn? slot pairs = none := by
  rw [lastIn?, List.find?_eq_none]
  intro pair hpair
  simpa using h pair (List.mem_reverse.mp hpair)

theorem entriesOf_concat {key : Value} (hslot : key.hashKey? = some slot)
    (pairs : List (Value × Value))
    (value : Value) :
    entriesOf (pairs ++ [(key, value)]) = insertEntry ⟨slot, key, value⟩ (entriesOf pairs) := by
  simp only [entriesOf, List.foldl_append, List.foldl_cons, List.foldl_nil, hslot]

theorem entriesOf_concat_of_none {key : Value} (hslot : key.hashKey? = none)
    (pairs : List (Value × Value)) (value : Value) :
    entriesOf (pairs ++ [(key, value)]) = entriesOf pairs := by
  simp only [entriesOf, List.foldl_append, List.foldl_cons, List.foldl_nil, hslot]

theorem filed_entriesOf (pairs : List (Value × Value)) : Filed (entriesOf pairs) := by
  induction pairs using List.reverseRecOn with
  | nil => exact .nil
  | append_singleton pairs pair ih =>
      cases hslot : pair.1.hashKey? with
      | none => rwa [entriesOf_concat_of_none hslot]
      | some slot =>
          rw [entriesOf_concat hslot]
          exact ih.insertEntry hslot

/-- Of the pairs for a slot the last one stays. -/
theorem entryAt?_entriesOf (pairs : List (Value × Value)) (slot : HashKey) :
    entryAt? (entriesOf pairs) slot = (lastIn? slot pairs).map fun pair =>
      ⟨slot, pair.1, pair.2⟩ := by
  induction pairs using List.reverseRecOn with
  | nil => rfl
  | append_singleton pairs pair ih =>
      obtain ⟨key, value⟩ := pair
      rw [lastIn?_concat]
      cases hown : key.hashKey? with
      | none => rw [entriesOf_concat_of_none hown, if_neg nofun, ih]
      | some own =>
          rw [entriesOf_concat hown, entryAt?_insertEntry]
          by_cases h : own = slot
          · subst h
            rw [if_pos rfl, if_pos rfl, Option.map_some]
          · rw [if_neg h, if_neg (by simpa using h), ih]

theorem index_entriesOf {q : Value} (hq : q.hashKey? = some slot) (pairs : List (Value × Value)) :
    (hash (entriesOf pairs)).index q = ((lastIn? slot pairs).map Prod.snd).getD .null := by
  rw [index, filedUnder, hq]
  dsimp only
  rw [entryAt?_entriesOf, Option.map_map]
  rfl

theorem isSome_lastIn? :
    (lastIn? slot pairs).isSome ↔ ∃ pair ∈ pairs, pair.1.hashKey? = some slot := by
  simp [lastIn?, List.find?_isSome]

theorem length_entriesOf (h : ∀ pair ∈ pairs, pair.1.hashKey?.isSome) :
    (entriesOf pairs).length = (pairs.map fun pair => pair.1.hashKey?).dedup.length := by
  have hperm : ((entriesOf pairs).map fun entry => some entry.slot).Perm
      (pairs.map fun pair => pair.1.hashKey?).dedup := by
    rw [List.perm_ext_iff_of_nodup ?_ (List.nodup_dedup _)]
    · rintro (_ | slot)
      · simpa using fun key value hpair => Option.isSome_iff_ne_none.mp (h (key, value) hpair)
      · have hmem : (entryAt? (entriesOf pairs) slot).isSome ↔
            slot ∈ (entriesOf pairs).map Entry.slot := isSome_entryAt?
        rw [entryAt?_entriesOf, Option.isSome_map, isSome_lastIn?] at hmem
        simpa using hmem.symm
    · have hnodup := (filed_entriesOf pairs).nodup.map fun _ _ => Option.some.inj
      rwa [List.map_map] at hnodup
  simpa using hperm.length_eq

end Pairs

section Matching

variable {R : Entry Value → Entry Value → Prop}

theorem forall₂_of_entryAt? (hslots : as.map Entry.slot = bs.map Entry.slot)
    (hnodup : (as.map Entry.slot).Nodup)
    (h : ∀ slot, Option.Rel R (entryAt? as slot) (entryAt? bs slot)) : List.Forall₂ R as bs := by
  induction as generalizing bs with
  | nil =>
      rw [List.map_nil, eq_comm, List.map_eq_nil_iff] at hslots
      subst hslots
      exact .nil
  | cons a as ih =>
      cases bs with
      | nil => cases hslots
      | cons b bs =>
          obtain ⟨hslot, hslots⟩ := List.cons_eq_cons.mp hslots
          obtain ⟨hnot, hnodup⟩ := List.nodup_cons.mp hnodup
          refine .cons ?_ (ih hslots hnodup fun slot => ?_)
          · have hfirst := h a.slot
            rw [entryAt?_cons_self, hslot, entryAt?_cons_self] at hfirst
            cases hfirst with
            | some hR => exact hR
          · by_cases hs : a.slot = slot
            · subst hs
              rw [entryAt?_eq_none hnot, entryAt?_eq_none (hslots ▸ hnot)]
              exact .none
            · have hother := h slot
              rwa [entryAt?_cons_of_ne hs, entryAt?_cons_of_ne (hslot ▸ hs)] at hother

/-- Hashes with matching entries in every slot have matching entries at every place. -/
theorem Filed.forall₂ (has : Filed as) (hbs : Filed bs)
    (h : ∀ slot, Option.Rel R (entryAt? as slot) (entryAt? bs slot)) : List.Forall₂ R as bs := by
  have hmem (slot : HashKey) : slot ∈ as.map Entry.slot ↔ slot ∈ bs.map Entry.slot := by
    rw [← isSome_entryAt?, ← isSome_entryAt?]
    have hslot := h slot
    generalize entryAt? as slot = a, entryAt? bs slot = b at hslot ⊢
    cases hslot <;> rfl
  have hperm := (List.perm_ext_iff_of_nodup has.nodup hbs.nodup).mpr hmem
  have hslots : as.map Entry.slot = bs.map Entry.slot := by
    have hordered {entries : List (Entry Value)} (h : Filed entries) :
        (entries.map Entry.slot).Pairwise fun a b => a.before b = true :=
      List.pairwise_map.mpr h.ordered
    refine hperm.eq_of_pairwise ?_ (hordered has) (hordered hbs)
    intro a b _ _ hab hba
    exact absurd rfl (HashKey.ne_of_before (HashKey.before_trans hab hba))
  exact forall₂_of_entryAt? hslots has.nodup h

theorem rel_entryAt? (hR : ∀ {a b}, R a b → a.slot = b.slot)
    (h : List.Forall₂ R as bs) (slot : HashKey) :
    Option.Rel R (entryAt? as slot) (entryAt? bs slot) := by
  induction h with
  | nil => exact .none
  | @cons a b as bs hab _ ih =>
      by_cases hs : a.slot = slot
      · subst hs
        rw [entryAt?_cons_self, hR hab, entryAt?_cons_self]
        exact .some hab
      · rwa [entryAt?_cons_of_ne hs, entryAt?_cons_of_ne (hR hab ▸ hs)]

end Matching

end ScriptLang.Value
