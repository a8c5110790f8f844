import Mathlib.Data.List.Perm.Subperm
import ScriptLang.Proofs.Value.Sameness
import ScriptLang.Proofs.Value.Slots

namespace ScriptLang

def Closure.outline (closure : Closure) : Closure :=
  { closure with params := [], body := [] }

mutual

/-- All that sameness looks at in a value. -/
def Value.outline : Value → Value
  | .integer n => .integer n
  | .boolean b => .boolean b
  | .string text => .string text
  | .null => .null
  | .array elements => .array (Value.outlineEach elements)
  | .hash entries => .hash (Value.outlineEntries entries)
  | .function closure => .function closure.outline
  | .builtin f => .builtin f
  | .returned value => .returned value.outline
  | .error message => .error message

def Value.outlineEach : List Value → List Value
  | [] => []
  | v :: vs => v.outline :: Value.outlineEach vs

def Value.outlineEntries : List (Entry Value) → List (Entry Value)
  | [] => []
  | ⟨slot, key, value⟩ :: entries =>
      ⟨slot, key.outline, value.outline⟩ :: Value.outlineEntries entries

end

theorem Closure.same_iff_outline (f g : Closure) : f.same g = true ↔ f.outline = g.outline := by
  simp [Closure.same, Closure.outline]

mutual

theorem Value.same_iff_outline : ∀ v w : Value, v.same w = true ↔ v.outline = w.outline
  | .array vs, w => by
      cases w with
      | array ws =>
          rw [Value.same, Value.outline, Value.outline, Value.array.injEq]
          exact Value.sameList_iff_outline vs ws
      | _ => simp [Value.same, Value.outline]
  | .hash as, w => by
      cases w with
      | hash bs =>
          rw [Value.same, Value.outline, Value.outline, Value.hash.injEq]
          exact Value.sameEntries_iff_outline as bs
      | _ => simp [Value.same, Value.outline]
  | .function f, w => by
      cases w with
      | function g =>
          rw [Value.same, Value.outline, Value.outline, Value.function.injEq]
          exact f.same_iff_outline g
      | _ => simp [Value.same, Value.outline]
  | .returned v, w => by
      cases w with
      | returned w =>
          rw [Value.same, Value.outline, Value.outline, Value.returned.injEq]
          exact Value.same_iff_outline v w
      | _ => simp [Value.same, Value.outline]
  | .integer _, w | .boolean _, w | .string _, w | .null, w | .builtin _, w | .error _, w => by
      cases w <;> simp [Value.same, Value.outline]

theorem Value.sameList_iff_outline : ∀ vs ws : List Value,
    Value.sameList vs ws = true ↔ Value.outlineEach vs = Value.outlineEach ws
  | [], [] => by simp [Value.sameList]
  | [], _ :: _ | _ :: _, [] => by simp [Value.sameList, Value.outlineEach]
  | v :: vs, w :: ws => by
      rw [Value.sameList, Bool.and_eq_true, Value.outlineEach,
        Value.outlineEach, List.cons_eq_cons,
        Value.same_iff_outline v w, Value.sameList_iff_outline vs ws]

theorem Value.sameEntries_iff_outline : ∀ as bs : List (Entry Value),
    Value.sameEntries as bs = true ↔ Value.outlineEntries as = Value.outlineEntries bs
  | [], [] => by simp [Value.sameEntries]
  | [], _ :: _ | _ :: _, [] => by simp [Value.sameEntries, Value.outlineEntries]
  | ⟨slot, key, value⟩ :: as, ⟨slot', key', value'⟩ :: bs => by
      rw [Value.outlineEntries, Value.outlineEntries, List.cons_eq_cons, Entry.mk.injEq,
        ← Value.same_iff_outline key key', ← Value.same_iff_outline value value',
        ← Value.sameEntries_iff_outline as bs]
      simp [Value.sameEntries, and_assoc]

end

theorem Value.same_equivalence : Equivalence fun v w : Value => v.same w = true where
  refl := Value.same_refl
  symm {v w} h := by
    rw [Value.same_iff_outline] at *
    exact h.symm
  trans {v w x} hvw hwx := by
    rw [Value.same_iff_outline] at *
    exact hvw.trans hwx

namespace Value.Filed

variable {as bs : List (Entry Value)}

theorem entryAt?_slot (h : Filed as) {a : Entry Value} (ha : a ∈ as) :
    entryAt? as a.slot = some a := by
  have hfound := isSome_entryAt?.mpr (List.mem_map_of_mem (f := Entry.slot) ha)
  obtain ⟨found, hfound⟩ := Option.isSome_iff_exists.mp hfound
  have hslot : found.slot = a.slot := by simpa using List.find?_some hfound
  have hmem := List.mem_of_find?_eq_some hfound
  rw [hfound, List.inj_on_of_nodup_map h.nodup hmem ha hslot]

/-- The entries of one hash are found in the other.  If there are as many of them, then there is
nothing else in the other. -/
theorem same_iff (has : Filed as) (hbs : Filed bs) : (hash as).same (hash bs) = true ↔
    as.length = bs.length ∧ ∀ a ∈ as, ∃ b, entryAt? bs a.slot = some b ∧
      a.key.same b.key = true ∧ a.value.same b.value = true := by
  rw [same, sameEntries_iff]
  constructor
  · intro h
    refine ⟨h.length_eq, fun a ha => ?_⟩
    have hrel := rel_entryAt? (fun hab => hab.1) h a.slot
    rw [has.entryAt?_slot ha] at hrel
    generalize entryAt? bs a.slot = found at hrel ⊢
    cases hrel with
    | some hab => exact ⟨_, rfl, hab.2⟩
  · rintro ⟨hlength, hfound⟩
    have hsubset : as.map Entry.slot ⊆ bs.map Entry.slot := by
      intro slot hslot
      obtain ⟨a, ha, rfl⟩ := List.mem_map.mp hslot
      obtain ⟨b, hb, -⟩ := hfound a ha
      rw [← isSome_entryAt?, hb]
      rfl
    have hperm : (as.map Entry.slot).Perm (bs.map Entry.slot) := by
      apply (has.nodup.subperm hsubset).perm_of_length_le
      simp [hlength]
    apply has.forall₂ hbs
    intro slot
    by_cases hslot : slot ∈ as.map Entry.slot
    · obtain ⟨a, ha, rfl⟩ := List.mem_map.mp hslot
      obtain ⟨b, hb, hkey, hvalue⟩ := hfound a ha
      have hown : b.slot = a.slot := by simpa using List.find?_some hb
      rw [has.entryAt?_slot ha, hb]
      exact .some ⟨hown.symm, hkey, hvalue⟩
    · rw [entryAt?_eq_none hslot, entryAt?_eq_none (mt hperm.mem_iff.mpr hslot)]
      exact .none

end Value.Filed

end ScriptLang
