import ScriptLang.Proofs.Evaluation.Invariants

namespace ScriptLang

section Trees

mutual

/-- The names that an expression mentions. -/
def Expr.names : Expr Label → List String
  | .ident name => [name]
  | .int _ => []
  | .string _ => []
  | .bool _ => []
  | .unary _ operand => operand.names
  | .binary left _ right => left.names ++ right.names
  | .cond condition yes no => condition.names ++ Stmt.namesEach yes ++ Stmt.namesElse no
  | .fn _ params body => params ++ Stmt.namesEach body
  | .call callee args => callee.names ++ Expr.namesEach args
  | .array elements => Expr.namesEach elements
  | .index collection position => collection.names ++ position.names
  | .hash pairs => Expr.namesPairs pairs

def Expr.namesEach : List (Expr Label) → List String
  | [] => []
  | e :: es => e.names ++ Expr.namesEach es

def Expr.namesPairs : List (Expr Label × Expr Label) → List String
  | [] => []
  | (key, value) :: pairs => key.names ++ value.names ++ Expr.namesPairs pairs

/-- The names that a statement mentions, with the one that it binds. -/
def Stmt.names : Stmt Label → List String
  | .bind name value => name :: value.names
  | .ret none => []
  | .ret (some value) => value.names
  | .expr value => value.names

def Stmt.namesEach : List (Stmt Label) → List String
  | [] => []
  | s :: ss => s.names ++ Stmt.namesEach ss

def Stmt.namesElse : Option (List (Stmt Label)) → List String
  | none => []
  | some ss => Stmt.namesEach ss

end

/-- The names that a function mentions, with its parameters. -/
def Closure.names (closure : Closure) : List String :=
  closure.params ++ Stmt.namesEach closure.body

end Trees

section Values

mutual

/-- The functions in a value, however deep. -/
def Value.functions : Value → List Closure
  | .integer _ => []
  | .boolean _ => []
  | .string _ => []
  | .null => []
  | .array elements => Value.functionsEach elements
  | .hash entries => Value.functionsEntries entries
  | .function closure => [closure]
  | .builtin _ => []
  | .returned value => value.functions
  | .error _ => []

def Value.functionsEach : List Value → List Closure
  | [] => []
  | v :: vs => v.functions ++ Value.functionsEach vs

def Value.functionsEntries : List (Entry Value) → List Closure
  | [] => []
  | ⟨_, key, value⟩ :: entries =>
      key.functions ++ value.functions ++ Value.functionsEntries entries

end

theorem Value.functionsEach_eq_flatMap (vs : List Value) :
    Value.functionsEach vs = vs.flatMap Value.functions := by
  induction vs with
  | nil => rfl
  | cons v vs ih => rw [Value.functionsEach, ih, List.flatMap_cons]

theorem Value.functionsEntries_eq_flatMap (entries : List (Entry Value)) :
    Value.functionsEntries entries =
      entries.flatMap fun entry => entry.key.functions ++ entry.value.functions := by
  induction entries with
  | nil => rfl
  | cons entry entries ih => rw [Value.functionsEntries, ih, List.flatMap_cons]

namespace Value

variable {P : Closure → Prop}

theorem forall_functions_array {vs : List Value} : (∀ closure ∈ (array vs).functions, P closure) ↔
    ∀ v ∈ vs, ∀ closure ∈ v.functions, P closure := by
  simp only [functions, functionsEach_eq_flatMap, List.mem_flatMap]
  constructor
  · intro h v hv closure hclosure
    exact h closure ⟨v, hv, hclosure⟩
  · rintro h closure ⟨v, hv, hclosure⟩
    exact h v hv closure hclosure

theorem forall_functions_hash {entries : List (Entry Value)} :
    (∀ closure ∈ (hash entries).functions, P closure) ↔ ∀ entry ∈ entries,
      (∀ closure ∈ entry.key.functions, P closure) ∧
        ∀ closure ∈ entry.value.functions, P closure := by
  simp only [functions, functionsEntries_eq_flatMap, List.mem_flatMap, List.mem_append]
  constructor
  · intro h entry hentry
    exact ⟨fun closure hclosure => h closure ⟨entry, hentry, .inl hclosure⟩,
      fun closure hclosure => h closure ⟨entry, hentry, .inr hclosure⟩⟩
  · rintro h closure ⟨entry, hentry, hclosure⟩
    exact hclosure.elim ((h entry hentry).1 closure) ((h entry hentry).2 closure)

end Value

/-- No function in the value mentions the name. -/
def Value.Avoids (x : String) (value : Value) : Prop :=
  ∀ closure ∈ value.functions, x ∉ closure.names

/-- No value that a name has in the frame mentions `x`. -/
def Frame.Avoids (x : String) (frame : Frame) : Prop :=
  ∀ name value, frame.get? name = some value → value.Avoids x

/-- No value bound anywhere in the store mentions `x`. -/
def Store.Avoids (x : String) (store : Store) : Prop :=
  ∀ (i : FrameId) (found : Frame), store.frames[i]? = some found → found.Avoids x

variable {x : String}

namespace Value

@[simp] theorem avoids_array {vs : List Value} : (array vs).Avoids x ↔ ∀ v ∈ vs, v.Avoids x :=
  forall_functions_array

@[simp] theorem avoids_hash {entries : List (Entry Value)} : (hash entries).Avoids x ↔
    ∀ entry ∈ entries, entry.key.Avoids x ∧ entry.value.Avoids x :=
  forall_functions_hash

@[simp] theorem avoids_function {closure : Closure} :
    (function closure).Avoids x ↔ x ∉ closure.names := by
  simp [Avoids, functions]

@[simp] theorem avoids_returned {value : Value} : (returned value).Avoids x ↔ value.Avoids x := by
  simp [Avoids, functions]

theorem avoids_of_functions_eq_nil {value : Value}
    (h : value.functions = []) : value.Avoids x := by
  simp [Avoids, h]

theorem avoids_signal (fault : Fault) : fault.signal.Avoids x := avoids_of_functions_eq_nil rfl

end Value

/-- The operators and the builtins make no functions.  The invariant is about them only: an
evaluation does make functions, so it asks for a store that there is none of. -/
theorem Evaluation.functions_invariant (P : Closure → Prop) (frame : FrameId) :
    Invariant frame (fun _ => False) (fun _ => False) (fun _ _ => True)
      fun _ v => ∀ f ∈ v.functions, P f where
  refl _ := trivial
  trans _ _ := trivial
  mono _ hv := hv
  lookup hs _ := hs.elim
  set _ _ _ hs _ := hs.elim
  function hs _ := hs.elim
  integer _ _ := nofun
  boolean _ _ := nofun
  string _ _ := nofun
  null _ := nofun
  builtin _ _ := nofun
  array := Value.forall_functions_array
  emptyHash _ := nofun
  insert hentries hkey hvalue _ := by
    rw [Value.forall_functions_hash] at hentries ⊢
    exact Value.forall_mem_insertEntry hentries ⟨hkey, hvalue⟩
  filed hentries hentry := (Value.forall_functions_hash.mp hentries _ hentry).2

theorem Evaluation.avoids_invariant (x : String) (frame : FrameId) :
    Invariant frame (fun _ => False) (fun _ => False) (fun _ _ => True) fun _ => Value.Avoids x :=
  functions_invariant (fun closure => x ∉ closure.names) frame

end Values

end ScriptLang
