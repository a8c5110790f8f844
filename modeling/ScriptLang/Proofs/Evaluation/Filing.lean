import ScriptLang.Proofs.Evaluation.Lasting
import ScriptLang.Proofs.Value.Filing

namespace ScriptLang

theorem Value.WellFiled.of_outgoing {value : Value} (h : value.Outgoing Value.WellFiled) :
    value.WellFiled := by
  rcases h with (h | ⟨message, rfl⟩) | ⟨inner, rfl, hinner⟩
  · exact h
  · rintro entries ⟨⟩
  · exact returned_iff.mpr hinner

theorem Evaluation.wellFiled_lasting : Lasting (fun _ => True) Value.WellFiled where
  integer _ := by rintro entries ⟨⟩
  boolean _ := by rintro entries ⟨⟩
  string _ := by rintro entries ⟨⟩
  null := by rintro entries ⟨⟩
  function _ _ := by rintro entries ⟨⟩
  body _ _ _ := trivial
  builtin _ := by rintro entries ⟨⟩
  array := Value.WellFiled.array_iff
  emptyHash := Value.WellFiled.hash_iff.mpr ⟨.nil, by simp⟩
  insert hhash hkey hvalue hslot := by
    obtain ⟨hfiled, hentries⟩ := Value.WellFiled.hash_iff.mp hhash
    refine Value.WellFiled.hash_iff.mpr ⟨hfiled.insertEntry hslot, ?_⟩
    exact Value.forall_mem_insertEntry hentries ⟨hkey, hvalue⟩
  filed hhash hentry := ((Value.WellFiled.hash_iff.mp hhash).2 _ hentry).2
  returned _ := Value.WellFiled.returned_iff.mp

/-- Hashes stay filed by their keys.  If all hashes in a store are, then so are those in the store
and the result that an evaluation, a call or the inputs of a session leave behind, and those in
what a builtin makes of such values.  In a hash that is filed every entry stands in the slot of
its key, which is an integer, a boolean or a string, and no two entries share a slot. -/
theorem hashes_stay_filed (depth : Nat) (store : Store) (hstore : store.Bound Value.WellFiled) :
    (∀ frame (node : Node), (node.eval depth frame store).Ends fun value t =>
      t.Bound Value.WellFiled ∧ value.WellFiled) ∧
    (∀ closure args, (∀ v ∈ args, v.WellFiled) →
      (Value.call depth (.function closure) args store).Ends fun value t =>
        t.Bound Value.WellFiled ∧ value.WellFiled) ∧
    (∀ (builtin : Builtin) args, (∀ v ∈ args, v.WellFiled) → (builtin.apply args).WellFiled) ∧
    (∀ frame fresh inputs outcomes after,
      Session.steps? depth ⟨store, frame, fresh⟩ inputs = some (outcomes, after) →
        after.store.Bound Value.WellFiled ∧ ∀ value, .ok value ∈ outcomes → value.WellFiled) ∧
    ∀ value : Value, value.WellFiled → ∀ entries, (Value.hash entries).Part value →
      (entries.map Entry.slot).Nodup ∧ ∀ entry ∈ entries,
        entry.key.hashKey? = some entry.slot ∧
          entry.key.kind ∈ [.integer, .boolean, .string] := by
  have lasting := Evaluation.wellFiled_lasting
  refine ⟨?_, ?_, ?_, ?_, ?_⟩
  · intro frame node
    apply (lasting.node depth frame node (fun _ _ => trivial) hstore).mono
    rintro value t ⟨ht, hvalue⟩
    exact ⟨ht, .of_outgoing hvalue⟩
  · intro closure args hargs
    have hclosure : (Value.function closure).WellFiled := by rintro entries ⟨⟩
    apply (lasting.call_delivers depth _ args store hstore hclosure hargs).mono
    rintro value t ⟨ht, -, hvalue⟩
    exact ⟨ht, .of_outgoing (.inl hvalue)⟩
  · intro builtin args hargs
    exact .of_outgoing (.inl ((lasting.invariant 0).apply (s := store) builtin hargs))
  · intro frame fresh inputs outcomes after h
    obtain ⟨hafter, hall⟩ := lasting.steps? hstore h
    exact ⟨hafter, fun value hvalue => hall _ hvalue value rfl⟩
  · intro value hvalue entries hpart
    have hfiled := hvalue entries hpart
    refine ⟨hfiled.nodup, fun entry hentry => ⟨hfiled.own entry hentry, ?_⟩⟩
    exact (Value.kind_of_hashKey? (hfiled.own entry hentry)).2

/-- A hash whose second key stands before the first, and whose first entry gives way to a hash. -/
theorem hashes_stay_filed_when_overwritten : Session.start.store.Bound Value.WellFiled ∧
    ∃ t, Node.eval 0 Session.start.frame (.expression (.hash
        [(.int 2, .int 7), (.int 1, .array []), (.int 2, .hash [(.bool true, .int 5)])]))
        Session.start.store =
      .done (.hash [⟨⟨.integer, 1⟩, .integer 1, .array []⟩,
        ⟨⟨.integer, 2⟩, .integer 2, .hash [⟨⟨.boolean, 1⟩, .boolean true, .integer 5⟩]⟩]) t ∧
      t.Bound Value.WellFiled ∧ Value.WellFiled (.hash [⟨⟨.integer, 1⟩, .integer 1, .array []⟩,
        ⟨⟨.integer, 2⟩, .integer 2, .hash [⟨⟨.boolean, 1⟩, .boolean true, .integer 5⟩]⟩]) := by
  refine ⟨Session.start_bound, _, rfl, ?_⟩
  exact (hashes_stay_filed 0 _ Session.start_bound).1 Session.start.frame (.expression (.hash
    [(.int 2, .int 7), (.int 1, .array []), (.int 2, .hash [(.bool true, .int 5)])]))

end ScriptLang
