import ScriptLang.Proofs.Evaluation.Lasting

namespace ScriptLang

/-- A value that is no signal and holds none, however deep. -/
inductive Value.SignalFree : Value → Prop where
  | integer (n : Int64) : SignalFree (.integer n)
  | boolean (b : Bool) : SignalFree (.boolean b)
  | string (text : String) : SignalFree (.string text)
  | null : SignalFree .null
  | array {elements : List Value} (h : ∀ v ∈ elements, SignalFree v) :
      SignalFree (.array elements)
  | hash {entries : List (Entry Value)} (hkeys : ∀ entry ∈ entries, SignalFree entry.key)
      (hvalues : ∀ entry ∈ entries, SignalFree entry.value) : SignalFree (.hash entries)
  | function (closure : Closure) : SignalFree (.function closure)
  | builtin (builtin : Builtin) : SignalFree (.builtin builtin)

/-- No binding of a frame holds a signal. -/
def Frame.Clean (frame : Frame) : Prop :=
  ∀ binding ∈ frame.bindings, binding.2.SignalFree

/-- No binding of any frame holds a signal. -/
def Store.Clean (store : Store) : Prop :=
  ∀ frame ∈ store.frames, frame.Clean

namespace Value.SignalFree

theorem array_iff {elements : List Value} :
    (Value.array elements).SignalFree ↔ ∀ v ∈ elements, v.SignalFree := by
  constructor
  · rintro ⟨⟩
    assumption
  · exact .array

theorem kind_ne_returned {value : Value} (h : value.SignalFree) : value.kind ≠ .returned := by
  cases h <;> exact Value.Kind.noConfusion

theorem insertEntry {new : Entry Value} {entries : List (Entry Value)}
    (h : (Value.hash entries).SignalFree) (hkey : new.key.SignalFree)
    (hvalue : new.value.SignalFree) :
    (Value.hash (Value.insertEntry new entries)).SignalFree := by
  cases h with
  | hash hkeys hvalues =>
      exact .hash (Value.forall_mem_insertEntry hkeys hkey)
        (Value.forall_mem_insertEntry hvalues hvalue)

end Value.SignalFree

namespace Evaluation

theorem signalFree_lasting : Lasting (fun _ => True) Value.SignalFree where
  integer := .integer
  boolean := .boolean
  string := .string
  null := .null
  function _ _ := .function _
  body _ _ _ := trivial
  builtin := .builtin
  array := Value.SignalFree.array_iff
  emptyHash := .hash (by simp) (by simp)
  insert hentries hkey hvalue _ := hentries.insertEntry hkey hvalue
  filed hentries hentry := by
    cases hentries with
    | hash _ hvalues => exact hvalues _ hentry
  returned _ h := (h.kind_ne_returned rfl).elim

theorem signalFree_invariant (frame : FrameId) :
    Invariant frame (fun _ => True) Store.Clean (fun _ _ => True) fun _ => Value.SignalFree :=
  signalFree_lasting.invariant frame

theorem call_delivers (depth : Nat) :
    Delivers Store.Clean (fun _ _ => True) (fun _ => Value.SignalFree) (Value.call depth) :=
  signalFree_lasting.call_delivers depth

theorem program_delivers (depth : Nat) (frame : FrameId) (program : Program Label) {store : Store}
    (hstore : store.Clean) :
    (Program.eval depth frame program store).Ends fun value t =>
      t.Clean ∧ value.Delivered Value.SignalFree :=
  signalFree_lasting.program_delivers depth frame _ (fun _ _ => trivial) hstore

end Evaluation

theorem Value.Delivered.kind_ne_returned {value : Value} (h : value.Delivered Value.SignalFree) :
    value.kind ≠ .returned := by
  rcases h with h | ⟨message, rfl⟩
  · exact h.kind_ne_returned
  · exact Value.Kind.noConfusion

def Outcome.Clean (outcome : Outcome) : Prop :=
  ∀ value, outcome = .ok value → value.SignalFree

namespace Session

theorem start_clean : start.store.Clean := start_bound

theorem steps?_clean {depth : Nat} {session after : Session} {inputs : List Input}
    {outcomes : List Outcome} (hsession : session.store.Clean)
    (h : session.steps? depth inputs = some (outcomes, after)) :
    after.store.Clean ∧ ∀ outcome ∈ outcomes, outcome.Clean :=
  Evaluation.signalFree_lasting.steps? hsession h

end Session

/-- Signals never leak into data.  Whatever is evaluated in a clean store leaves a clean store,
and gives a value without signals, or an error, or a returned value without signals.  Programs and
calls return nothing that is still on its way, and over any inputs of a session the results are
free of signals. -/
theorem signals_never_leak (depth : Nat) (store : Store) (hstore : store.Clean) :
    (∀ frame e, (Expr.eval depth frame e store).Ends fun value t =>
      t.Clean ∧ value.Outgoing Value.SignalFree) ∧
    (∀ frame st, (Stmt.eval depth frame st store).Ends fun value t =>
      t.Clean ∧ value.Outgoing Value.SignalFree) ∧
    (∀ frame block, (Block.eval depth frame block store).Ends fun value t =>
      t.Clean ∧ value.Outgoing Value.SignalFree) ∧
    (∀ frame program, (Program.eval depth frame program store).Ends fun value t =>
      t.Clean ∧ value.Delivered Value.SignalFree ∧ value.kind ≠ .returned) ∧
    (∀ closure args, (∀ v ∈ args, v.SignalFree) →
      (Value.call depth (.function closure) args store).Ends fun value t =>
        t.Clean ∧ value.Delivered Value.SignalFree ∧ value.kind ≠ .returned) ∧
    (∀ frame fresh inputs outcomes after,
      Session.steps? depth ⟨store, frame, fresh⟩ inputs = some (outcomes, after) →
        after.store.Clean ∧ ∀ value, .ok value ∈ outcomes → value.SignalFree) := by
  have hcall := Evaluation.call_delivers depth
  have hkept {run : Run Value}
      (h : run.Ends (Evaluation.Kept Store.Clean (fun _ _ => True) (fun _ => Value.SignalFree)
        store)) : run.Ends fun value t => t.Clean ∧ value.Outgoing Value.SignalFree :=
    h.mono fun _ _ hend => ⟨hend.1, hend.2.2⟩
  refine ⟨?_, ?_, ?_, ?_, ?_, ?_⟩
  · intro frame e
    exact hkept ((Evaluation.signalFree_invariant frame).expr hcall e (fun _ _ => trivial) hstore)
  · intro frame st
    exact hkept ((Evaluation.signalFree_invariant frame).stmt hcall st
      (fun _ _ => trivial) hstore)
  · intro frame block
    have hnull : Value.null.Outgoing Value.SignalFree := .inl (.inl .null)
    exact hkept ((Evaluation.signalFree_invariant frame).block hcall block (fun _ _ => trivial)
      hnull hstore)
  · intro frame program
    apply (Evaluation.program_delivers depth frame program hstore).mono
    rintro value t ⟨ht, hvalue⟩
    exact ⟨ht, hvalue, hvalue.kind_ne_returned⟩
  · intro closure args hargs
    apply (hcall (.function closure) args store hstore (.function closure) hargs).mono
    rintro value t ⟨ht, -, hvalue⟩
    exact ⟨ht, hvalue, hvalue.kind_ne_returned⟩
  · intro frame fresh inputs outcomes after h
    obtain ⟨hafter, hall⟩ := Session.steps?_clean hstore h
    exact ⟨hafter, fun value hvalue => hall _ hvalue value rfl⟩

/-- A function that returns from within an array, in a new session. -/
theorem signals_never_leak_in_array : Session.start.store.Clean ∧
    ∃ t, Program.eval 1 Session.start.frame
      [.bind "xs" (.array [.call
        (.fn 0 [] [.expr (.array [.cond (.bool true) [.ret none] none])]) []]),
        .ret (some (.ident "xs"))] Session.start.store = .done (.array [.null]) t ∧ t.Clean ∧
      (Value.array [.null]).Delivered Value.SignalFree ∧
        (Value.array [.null]).kind ≠ .returned := by
  refine ⟨Session.start_clean, _, rfl, ?_⟩
  exact (signals_never_leak 1 _ Session.start_clean).2.2.2.1 Session.start.frame
    [.bind "xs" (.array [.call
      (.fn 0 [] [.expr (.array [.cond (.bool true) [.ret none] none])]) []]),
      .ret (some (.ident "xs"))]

end ScriptLang
