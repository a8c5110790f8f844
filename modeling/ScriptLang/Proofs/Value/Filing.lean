import ScriptLang.Proofs.Evaluation.Invariants

namespace ScriptLang

namespace HashKey

variable {a b c : HashKey}

theorem rank_injective {k l : Value.Kind} (h : k.rank = l.rank) : k = l := by
  cases k <;> cases l <;> first | rfl | cases h

theorem before_iff : a.before b = true ↔ a.kind.rank < b.kind.rank ∨
    a.kind.rank = b.kind.rank ∧ a.bits.toNat < b.bits.toNat := by
  simp only [before, Bool.or_eq_true, Bool.and_eq_true, decide_eq_true_eq, beq_iff_eq,
    UInt64.lt_iff_toNat_lt]
  constructor
  · rintro (h | ⟨hkind, hbits⟩)
    · exact .inl h
    · exact .inr ⟨congrArg _ hkind, hbits⟩
  · rintro (h | ⟨hrank, hbits⟩)
    · exact .inl h
    · exact .inr ⟨rank_injective hrank, hbits⟩

theorem before_trans (hab : a.before b = true) (hbc : b.before c = true) : a.before c = true := by
  rw [before_iff] at *
  omega

theorem ne_of_before (h : a.before b = true) : a ≠ b := by
  rintro rfl
  rw [before_iff] at h
  omega

theorem before_of_not (h : ¬ a.before b = true) (hne : a ≠ b) : b.before a = true := by
  have hdiffer : ¬ (a.kind.rank = b.kind.rank ∧ a.bits.toNat = b.bits.toNat) := by
    rintro ⟨hrank, hbits⟩
    apply hne
    rw [HashKey.mk.injEq]
    exact ⟨rank_injective hrank, UInt64.toNat_inj.mp hbits⟩
  rw [before_iff] at *
  omega

end HashKey

namespace Value

/-- Only integers, booleans and strings have a slot, and the slot shows which of them it is
for. -/
theorem kind_of_hashKey? {key : Value} {slot : HashKey} (h : key.hashKey? = some slot) :
    slot.kind = key.kind ∧ key.kind ∈ [Kind.integer, Kind.boolean, Kind.string] := by
  cases key <;> cases h <;> simp [kind]

/-- Every entry stands in the slot of its key, and the slots are in increasing order. -/
structure Filed (entries : List (Entry Value)) : Prop where
  own : ∀ entry ∈ entries, entry.key.hashKey? = some entry.slot
  ordered : entries.Pairwise fun a b => a.slot.before b.slot = true

variable {entries : List (Entry Value)} {new : Entry Value}

theorem ordered_insertEntry (h : entries.Pairwise fun a b => a.slot.before b.slot = true) :
    (insertEntry new entries).Pairwise fun a b => a.slot.before b.slot = true := by
  induction entries with
  | nil => exact List.pairwise_singleton _ _
  | cons first others ih =>
      obtain ⟨hfirst, hothers⟩ := List.pairwise_cons.mp h
      rw [insertEntry]
      split
      · rename_i hnew
        refine List.pairwise_cons.mpr ⟨?_, h⟩
        rintro entry (_ | ⟨_, hentry⟩)
        · exact hnew
        · exact HashKey.before_trans hnew (hfirst entry hentry)
      · split
        · rename_i hslot
          exact List.pairwise_cons.mpr ⟨fun entry hentry => hslot ▸ hfirst entry hentry, hothers⟩
        · rename_i hnew hslot
          have hbehind := forall_mem_insertEntry hfirst (HashKey.before_of_not hnew hslot)
          exact List.pairwise_cons.mpr ⟨hbehind, ih hothers⟩

namespace Filed

theorem nil : Filed [] := ⟨by simp, .nil⟩

theorem insertEntry {key value : Value} {slot : HashKey} (h : Filed entries)
    (hslot : key.hashKey? = some slot) :
    Filed (Value.insertEntry ⟨slot, key, value⟩ entries) where
  own := forall_mem_insertEntry h.own hslot
  ordered := ordered_insertEntry h.ordered

theorem nodup (h : Filed entries) : (entries.map Entry.slot).Nodup := by
  rw [List.Nodup, List.pairwise_map]
  exact h.ordered.imp HashKey.ne_of_before

end Filed

/-- A value within another one, however deep, or that one itself. -/
inductive Part (part : Value) : Value → Prop where
  | self : Part part part
  | element {elements : List Value} {v : Value} (hv : v ∈ elements) (h : Part part v) :
      Part part (.array elements)
  | key {entries : List (Entry Value)} {entry : Entry Value} (hentry : entry ∈ entries)
      (h : Part part entry.key) : Part part (.hash entries)
  | value {entries : List (Entry Value)} {entry : Entry Value} (hentry : entry ∈ entries)
      (h : Part part entry.value) : Part part (.hash entries)
  | returned {v : Value} (h : Part part v) : Part part (.returned v)

theorem Part.trans {u v w : Value} (huv : u.Part v) (hvw : v.Part w) : u.Part w := by
  induction hvw with
  | self => exact huv
  | element hv _ ih => exact .element hv ih
  | key hentry _ ih => exact .key hentry ih
  | value hentry _ ih => exact .value hentry ih
  | returned _ ih => exact .returned ih

/-- Every hash within the value, however deep, is filed. -/
def WellFiled (v : Value) : Prop :=
  ∀ entries, (hash entries).Part v → Filed entries

namespace WellFiled

theorem of_part {v w : Value} (h : w.WellFiled) (hpart : v.Part w) : v.WellFiled :=
  fun entries hentries => h entries (hentries.trans hpart)

theorem array_iff {elements : List Value} :
    (array elements).WellFiled ↔ ∀ v ∈ elements, v.WellFiled := by
  constructor
  · intro h v hv entries hpart
    exact h entries (.element hv hpart)
  · intro h entries hpart
    cases hpart with
    | element hv hpart => exact h _ hv entries hpart

theorem hash_iff : (hash entries).WellFiled ↔
    Filed entries ∧ ∀ entry ∈ entries, entry.key.WellFiled ∧ entry.value.WellFiled := by
  constructor
  · intro h
    refine ⟨h entries .self, fun entry hentry => ⟨?_, ?_⟩⟩
    · exact fun inner hpart => h inner (.key hentry hpart)
    · exact fun inner hpart => h inner (.value hentry hpart)
  · rintro ⟨hfiled, hentries⟩ inner hpart
    cases hpart with
    | self => exact hfiled
    | key hentry hpart => exact (hentries _ hentry).1 inner hpart
    | value hentry hpart => exact (hentries _ hentry).2 inner hpart

theorem returned_iff {v : Value} : (returned v).WellFiled ↔ v.WellFiled := by
  constructor
  · exact fun h entries hpart => h entries (.returned hpart)
  · intro h entries hpart
    cases hpart with
    | returned hpart => exact h entries hpart

end WellFiled

end Value

end ScriptLang
