import ScriptLang.Value.Basic

namespace ScriptLang.Value

/-- The entry in a slot, if there is one. -/
def entryAt? (entries : List (Entry Value)) (slot : HashKey) : Option (Entry Value) :=
  entries.find? fun entry => entry.slot == slot

/-- Files an entry in its place.  An entry that has the slot already gives way. -/
def insertEntry (new : Entry Value) : List (Entry Value) → List (Entry Value)
  | [] => [new]
  | entry :: entries =>
      if new.slot.before entry.slot then new :: entry :: entries
      else if new.slot = entry.slot then new :: entries
      else entry :: insertEntry new entries

/-- The entries that are left after filing pairs of a key and a value one after the other.  A key
that cannot be filed is passed over. -/
def entriesOf (pairs : List (Value × Value)) : List (Entry Value) :=
  pairs.foldl
    (fun entries (key, value) =>
      match key.hashKey? with
      | some slot => insertEntry ⟨slot, key, value⟩ entries
      | none => entries)
    []

end ScriptLang.Value
