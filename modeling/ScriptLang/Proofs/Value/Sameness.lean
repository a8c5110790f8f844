import Mathlib.Data.List.Forall2
import ScriptLang.Proofs.Value.Names
import ScriptLang.Value.Equality

namespace ScriptLang

/-- Functions that are the same are equal in every respect: no label stands for two literals. -/
def Closure.ToldApart (functions : List Closure) : Prop :=
  ∀ f ∈ functions, ∀ g ∈ functions, f.same g = true → f = g

/-- Entries of the same slot with the same key and the same value. -/
def Entry.Same (a b : Entry Value) : Prop :=
  a.slot = b.slot ∧ a.key.same b.key = true ∧ a.value.same b.value = true

section Reflexivity

theorem Closure.same_refl (f : Closure) : f.same f = true := by
  simp [Closure.same]

mutual

theorem Value.same_refl : ∀ v : Value, v.same v = true
  | .array vs => by rw [Value.same, Value.sameList_refl]
  | .hash entries => by rw [Value.same, Value.sameEntries_refl]
  | .function f => by rw [Value.same, f.same_refl]
  | .returned v => by rw [Value.same, v.same_refl]
  | .integer _ | .boolean _ | .string _ | .builtin _ | .error _ => by
      rw [Value.same, beq_self_eq_true]
  | .null => by rw [Value.same]

theorem Value.sameList_refl : ∀ vs : List Value, Value.sameList vs vs = true
  | [] => by rw [Value.sameList]
  | v :: vs => by rw [Value.sameList, v.same_refl, Value.sameList_refl, Bool.and_true]

theorem Value.sameEntries_refl :
    ∀ entries : List (Entry Value), Value.sameEntries entries entries = true
  | [] => by rw [Value.sameEntries]
  | ⟨slot, key, value⟩ :: entries => by
      rw [Value.sameEntries, key.same_refl, value.same_refl,
        Value.sameEntries_refl, beq_self_eq_true]
      rfl

end

end Reflexivity

namespace Value

theorem sameEntries_iff {as bs : List (Entry Value)} :
    sameEntries as bs = true ↔ List.Forall₂ Entry.Same as bs := by
  induction as generalizing bs with
  | nil => cases bs <;> simp [sameEntries]
  | cons a as ih =>
      cases bs with
      | nil => simp [sameEntries]
      | cons b bs => simp [sameEntries, Entry.Same, ih, and_assoc]

end Value

section ToldApart

variable {functions : List Closure}

mutual

/-- Values that are the same are equal if their functions can be told apart. -/
theorem Value.eq_of_same (h : Closure.ToldApart functions) : ∀ v w : Value, v.same w = true →
    v.functions ⊆ functions → w.functions ⊆ functions → v = w
  | .array vs, w, hsame, hv, hw => by
      cases w with
      | array ws =>
          rw [Value.same] at hsame
          rw [Value.eqList_of_same h vs ws hsame hv hw]
      | _ => simp [Value.same] at hsame
  | .hash as, w, hsame, hv, hw => by
      cases w with
      | hash bs =>
          rw [Value.same] at hsame
          rw [Value.eqEntries_of_same h as bs hsame hv hw]
      | _ => simp [Value.same] at hsame
  | .function f, w, hsame, hv, hw => by
      cases w with
      | function g =>
          rw [Value.same] at hsame
          rw [h f (hv List.mem_cons_self) g (hw List.mem_cons_self) hsame]
      | _ => simp [Value.same] at hsame
  | .returned v, w, hsame, hv, hw => by
      cases w with
      | returned w =>
          rw [Value.same] at hsame
          rw [Value.eq_of_same h v w hsame hv hw]
      | _ => simp [Value.same] at hsame
  | .integer _, w, hsame, _, _ | .boolean _, w, hsame, _, _ | .string _, w, hsame, _, _
  | .null, w, hsame, _, _ | .builtin _, w, hsame, _, _ | .error _, w, hsame, _, _ => by
      cases w <;> simp_all [Value.same]

theorem Value.eqList_of_same (h : Closure.ToldApart functions) : ∀ vs ws : List Value,
    Value.sameList vs ws = true → Value.functionsEach vs ⊆ functions →
      Value.functionsEach ws ⊆ functions → vs = ws
  | [], [], _, _, _ => rfl
  | [], _ :: _, hsame, _, _ | _ :: _, [], hsame, _, _ => by simp [Value.sameList] at hsame
  | v :: vs, w :: ws, hsame, hv, hw => by
      rw [Value.sameList, Bool.and_eq_true] at hsame
      rw [Value.functionsEach, List.append_subset] at hv hw
      rw [Value.eq_of_same h v w hsame.1 hv.1 hw.1,
        Value.eqList_of_same h vs ws hsame.2 hv.2 hw.2]

theorem Value.eqEntries_of_same (h : Closure.ToldApart functions) : ∀ as bs : List (Entry Value),
    Value.sameEntries as bs = true → Value.functionsEntries as ⊆ functions →
      Value.functionsEntries bs ⊆ functions → as = bs
  | [], [], _, _, _ => rfl
  | [], _ :: _, hsame, _, _ | _ :: _, [], hsame, _, _ => by simp [Value.sameEntries] at hsame
  | ⟨slot, key, value⟩ :: as, ⟨slot', key', value'⟩ :: bs, hsame, ha, hb => by
      simp only [Value.sameEntries, Bool.and_eq_true, beq_iff_eq] at hsame
      obtain ⟨⟨⟨rfl, hkey⟩, hvalue⟩, hrest⟩ := hsame
      simp only [Value.functionsEntries, List.append_subset] at ha hb
      rw [Value.eq_of_same h key key' hkey ha.1.1 hb.1.1,
        Value.eq_of_same h value value' hvalue ha.1.2 hb.1.2,
        Value.eqEntries_of_same h as bs hrest ha.2 hb.2]

end

end ToldApart

end ScriptLang
