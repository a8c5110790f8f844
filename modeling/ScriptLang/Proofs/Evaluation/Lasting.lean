import ScriptLang.Proofs.Evaluation.Writes
import ScriptLang.Session

namespace ScriptLang

/-- Every value that comes out has the property. -/
def Outcome.Gives (P : Value → Prop) (outcome : Outcome) : Prop :=
  ∀ value, outcome = .ok value → P value

theorem Outcome.gives_error {P : Value → Prop} (failure : Failure) :
    Outcome.Gives P (.error failure) := by
  rintro value ⟨⟩

theorem Outcome.gives_ofValue {P : Value → Prop} {value : Value} (h : value.Delivered P) :
    (Outcome.ofValue value).Gives P := by
  rcases h with h | ⟨message, rfl⟩
  · cases value with
    | error message => exact gives_error _
    | _ =>
        rintro found ⟨⟩
        exact h
  · exact gives_error _

/-- An input is read and evaluated, or it cannot be read and nothing happens. -/
theorem Session.step?_cases {depth : Nat} {session after : Session} {input : Input}
    {outcome : Outcome} (h : session.step? depth input = some (outcome, after)) :
    (∃ failure, input.read = .error failure ∧ outcome = .error failure ∧ after = session) ∨
    ∃ program value store, input.read = .ok program ∧
      (program.labelled session.fresh).eval depth session.frame session.store =
        .done value store ∧
      outcome = .ofValue value ∧ after = session.next program store := by
  rw [step?] at h
  split at h
  · rename_i failure hread
    cases h
    exact .inl ⟨failure, hread, rfl, rfl⟩
  · rename_i program hread
    split at h
    · rename_i value store heval
      cases h
      exact .inr ⟨program, value, store, hread, heval, rfl, rfl⟩
    · cases h

theorem Session.steps?_cases {depth : Nat} {session after : Session} {input : Input}
    {inputs : List Input} {outcomes : List Outcome}
    (h : session.steps? depth (input :: inputs) = some (outcomes, after)) :
    ∃ outcome next others, session.step? depth input = some (outcome, next) ∧
      next.steps? depth inputs = some (others, after) ∧ outcomes = outcome :: others := by
  rw [steps?] at h
  split at h
  · cases h
  · rename_i outcome next hstep
    obtain ⟨⟨others, last⟩, hothers, heq⟩ := Option.map_eq_some_iff.mp h
    cases heq
    exact ⟨outcome, next, others, hstep, hothers, rfl⟩

namespace Evaluation

/-- A property of values that holds of what evaluations make if it holds of what they make it
from, as long as functions are made from certain literals only. -/
structure Lasting (Known : Lambda Label → Prop) (P : Value → Prop) : Prop where
  integer : ∀ n, P (.integer n)
  boolean : ∀ b, P (.boolean b)
  string : ∀ text, P (.string text)
  null : P .null
  function : ∀ {lambda} frame, Known lambda → P (.function ⟨lambda, frame⟩)
  body : ∀ {closure}, P (.function closure) → ∀ l ∈ Stmt.lambdasEach closure.body, Known l
  builtin : ∀ builtin, P (.builtin builtin)
  array : ∀ {vs}, P (.array vs) ↔ ∀ v ∈ vs, P v
  emptyHash : P (.hash [])
  insert : ∀ {entries key value slot}, P (.hash entries) → P key → P value →
    key.hashKey? = some slot → P (.hash (Value.insertEntry ⟨slot, key, value⟩ entries))
  filed : ∀ {entries entry}, P (.hash entries) → entry ∈ entries → P entry.value
  returned : ∀ v, P (.returned v) → P v

namespace Lasting

variable {Known : Lambda Label → Prop} {P : Value → Prop} {store : Store}

theorem invariant (lasting : Lasting Known P) (frame : FrameId) :
    Invariant frame Known (Store.Bound P) (fun _ _ => True) fun _ => P where
  refl _ := trivial
  trans _ _ := trivial
  mono _ hv := hv
  lookup hs hfound := hs.lookup hfound
  set name _ _ hs hv := ⟨hs.set hv frame name, trivial⟩
  function _ hknown := lasting.function frame hknown
  integer _ := lasting.integer
  boolean _ := lasting.boolean
  string _ := lasting.string
  null _ := lasting.null
  builtin _ := lasting.builtin
  array := lasting.array
  emptyHash _ := lasting.emptyHash
  insert := lasting.insert
  filed := lasting.filed

theorem enter_delivers (lasting : Lasting Known P) (depth : Nat) {closure : Closure}
    {args : List Value} (hstore : store.Bound P) (hclosure : P (.function closure))
    (hargs : ∀ v ∈ args, P v) : (enter depth closure args store).Ends fun value t =>
      t.Bound P ∧ True ∧ value.Delivered P := by
  induction depth generalizing closure args store with
  | zero => trivial
  | succ depth ih =>
      have inv := lasting.invariant store.frames.size
      have hcall : Delivers (Store.Bound P) (fun _ _ => True) (fun _ => P)
          (callWith (enter depth)) :=
        inv.delivers fun _ _ _ hs hclosure hargs _ => ih hs hclosure hargs
      have hbody := inv.block hcall closure.body (lasting.body hclosure)
        (.inl (.inl lasting.null))
        (hstore.alloc (.scope (some closure.frame) closure.params hargs))
      apply hbody.map
      rintro value t ⟨ht, -, hvalue⟩
      exact ⟨ht, trivial, hvalue.arrived lasting.returned⟩

theorem call_delivers (lasting : Lasting Known P) (depth : Nat) :
    Delivers (Store.Bound P) (fun _ _ => True) (fun _ => P) (Value.call depth) :=
  (lasting.invariant 0).delivers fun _ _ _ hs hclosure hargs _ =>
    lasting.enter_delivers depth hs hclosure hargs

theorem program_delivers (lasting : Lasting Known P) (depth : Nat) (frame : FrameId)
    (program : Program Label) (hknown : ∀ l ∈ program.lambdas, Known l) (hstore : store.Bound P) :
    (Program.eval depth frame program store).Ends fun value t =>
      t.Bound P ∧ value.Delivered P := by
  have inv := lasting.invariant frame
  apply (inv.block (lasting.call_delivers depth) program hknown (.inl (.inl lasting.null))
    hstore).map
  rintro value t ⟨ht, -, hvalue⟩
  exact ⟨ht, hvalue.arrived lasting.returned⟩

theorem node (lasting : Lasting Known P) (depth : Nat) (frame : FrameId) (node : Node)
    (hknown : ∀ l ∈ node.lambdas, Known l) (hstore : store.Bound P) :
    (node.eval depth frame store).Ends fun value t => t.Bound P ∧ value.Outgoing P := by
  have hcall := lasting.call_delivers depth
  apply ((lasting.invariant frame).node (fun _ => lasting.returned) hcall node hknown hstore).mono
  rintro value t ⟨ht, -, hvalue⟩
  exact ⟨ht, hvalue⟩

section Sessions

variable {depth : Nat} {session after : Session} {input : Input} {outcome : Outcome}

theorem step? (lasting : Lasting (fun _ => True) P) (hsession : session.store.Bound P)
    (h : session.step? depth input = some (outcome, after)) :
    after.store.Bound P ∧ outcome.Gives P := by
  obtain ⟨failure, -, rfl, rfl⟩ | ⟨program, value, store, -, heval, rfl, rfl⟩ :=
    Session.step?_cases h
  · exact ⟨hsession, Outcome.gives_error _⟩
  · have hends := lasting.program_delivers depth session.frame
      (program.labelled session.fresh) (fun _ _ => trivial) hsession
    rw [heval] at hends
    exact ⟨hends.1, Outcome.gives_ofValue hends.2⟩

theorem steps? (lasting : Lasting (fun _ => True) P) {inputs : List Input}
    {outcomes : List Outcome}
    (hsession : session.store.Bound P)
    (h : session.steps? depth inputs = some (outcomes, after)) :
    after.store.Bound P ∧ ∀ outcome ∈ outcomes, outcome.Gives P := by
  induction inputs generalizing session outcomes with
  | nil =>
      cases h
      exact ⟨hsession, by simp⟩
  | cons input inputs ih =>
      obtain ⟨outcome, next, others, hstep, hothers, rfl⟩ := Session.steps?_cases h
      obtain ⟨hnext, houtcome⟩ := lasting.step? hsession hstep
      obtain ⟨hafter, hall⟩ := ih hnext hothers
      exact ⟨hafter, List.forall_mem_cons.mpr ⟨houtcome, hall⟩⟩

end Sessions

end Lasting

end Evaluation

theorem Session.start_bound {P : Value → Prop} : Session.start.store.Bound P :=
  Store.Bound.empty.alloc (.within none)

end ScriptLang
