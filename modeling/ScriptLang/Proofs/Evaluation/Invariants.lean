import ScriptLang.Evaluation.Basic

/-!
What every evaluation preserves.

An invariant is made of a condition on stores, a relation between the store before and the store
after, a condition on plain values, and a condition on the function literals of what is evaluated.
Its fields say what the single steps of an evaluation preserve.  The induction on the tree is done
here once.  What a call does stays a parameter, as in the evaluation itself.
-/

namespace ScriptLang

variable {α β : Type}

/-- What holds at the end of an evaluation.  Nothing is said of calls that nest too deep. -/
def Run.Ends (run : Run α) (P : α → Store → Prop) : Prop :=
  match run with
  | .done result store => P result store
  | .tooDeep => True

@[simp] theorem Run.done_ends {P : α → Store → Prop} {result : α} {store : Store} :
    (Run.done result store).Ends P ↔ P result store := Iff.rfl

@[simp] theorem Run.tooDeep_ends {P : α → Store → Prop} : (Run.tooDeep : Run α).Ends P := trivial

theorem Run.Ends.mono {run : Run α} {P Q : α → Store → Prop} (h : run.Ends P)
    (hPQ : ∀ result store, P result store → Q result store) : run.Ends Q := by
  cases run with
  | done result store => exact hPQ result store h
  | tooDeep => trivial

theorem Run.Ends.map {run : Run α} {P : α → Store → Prop} {Q : β → Store → Prop} {f : α → β}
    (h : run.Ends P) (hPQ : ∀ result store, P result store → Q (f result) store) :
    (run.map f).Ends Q := by
  cases run with
  | done result store => exact hPQ result store h
  | tooDeep => trivial

/-- A value that comes out of a call or a program: a plain one, or an error. -/
def Value.Delivered (good : Value → Prop) (value : Value) : Prop :=
  good value ∨ ∃ message, value = .error message

/-- A value that comes out of an expression or a statement: one that a call can deliver, or one on
its way out of the function. -/
def Value.Outgoing (good : Value → Prop) (value : Value) : Prop :=
  value.Delivered good ∨ ∃ inner, value = .returned inner ∧ good inner

theorem Fault.delivered (fault : Fault) (good : Value → Prop) : fault.signal.Delivered good :=
  .inr ⟨fault.message, rfl⟩

theorem Value.Outgoing.of_plain {good : Value → Prop} {value : Value} (h : value.Outgoing good)
    (hplain : value.isSignal = false) : good value := by
  rcases h with (h | ⟨message, rfl⟩) | ⟨inner, rfl, -⟩
  · exact h
  · cases hplain
  · cases hplain

/-- What comes out where a function or a program ends is no longer on its way. -/
theorem Value.Outgoing.arrived {good : Value → Prop} {value : Value} (h : value.Outgoing good)
    (hgood : ∀ v, good (.returned v) → good v) : value.arrived.Delivered good := by
  rcases h with (h | ⟨message, rfl⟩) | ⟨inner, rfl, hinner⟩
  · cases value with
    | returned inner => exact .inl (hgood inner h)
    | _ => exact .inl h
  · exact .inr ⟨message, rfl⟩
  · exact .inl hinner

/-- What holds of an entry and of all entries filed before still holds of all when it is filed. -/
theorem Value.forall_mem_insertEntry {P : Entry Value → Prop} {new : Entry Value}
    {entries : List (Entry Value)} (h : ∀ entry ∈ entries, P entry) (hnew : P new) :
    ∀ entry ∈ Value.insertEntry new entries, P entry := by
  induction entries with
  | nil => simpa [Value.insertEntry] using hnew
  | cons first others ih =>
      rw [List.forall_mem_cons] at h
      rw [Value.insertEntry]
      split
      · exact List.forall_mem_cons.mpr ⟨hnew, List.forall_mem_cons.mpr h⟩
      · split
        · exact List.forall_mem_cons.mpr ⟨hnew, h.2⟩
        · exact List.forall_mem_cons.mpr ⟨h.1, ih h.2⟩

namespace Evaluation

/-- What the steps of an evaluation in a frame preserve. -/
structure Invariant (frame : FrameId) (Known : Lambda Label → Prop) (Ready : Store → Prop)
    (R : Store → Store → Prop) (Good : Store → Value → Prop) : Prop where
  refl : ∀ s, R s s
  trans : ∀ {s t u}, R s t → R t u → R s u
  mono : ∀ {s t v}, R s t → Good s v → Good t v
  lookup : ∀ {s name v}, Ready s → s.lookup? frame name = some v → Good s v
  set : ∀ name {s v}, Ready s → Good s v → Ready (s.set frame name v) ∧ R s (s.set frame name v)
  function : ∀ {s lambda}, Ready s → Known lambda → Good s (.function ⟨lambda, frame⟩)
  integer : ∀ s n, Good s (.integer n)
  boolean : ∀ s b, Good s (.boolean b)
  string : ∀ s text, Good s (.string text)
  null : ∀ s, Good s .null
  builtin : ∀ s builtin, Good s (.builtin builtin)
  array : ∀ {s vs}, Good s (.array vs) ↔ ∀ v ∈ vs, Good s v
  emptyHash : ∀ s, Good s (.hash [])
  insert : ∀ {s entries key value slot}, Good s (.hash entries) → Good s key → Good s value →
    key.hashKey? = some slot → Good s (.hash (Value.insertEntry ⟨slot, key, value⟩ entries))
  filed : ∀ {s entries entry}, Good s (.hash entries) → entry ∈ entries → Good s entry.value

variable {frame : FrameId} {Known : Lambda Label → Prop} {Ready : Store → Prop}
  {R : Store → Store → Prop} {Good : Store → Value → Prop} {call : Caller} {s t : Store}

namespace Invariant

section Operators

theorem unary (inv : Invariant frame Known Ready R Good) (op : UnaryOp) (operand : Value) :
    (op.apply operand).Delivered (Good s) := by
  rcases op with _ | _
  · exact .inl (inv.boolean _ _)
  · cases operand with
    | integer n => exact .inl (inv.integer _ _)
    | _ => exact Fault.delivered _ _

theorem onIntegers (inv : Invariant frame Known Ready R Good)
    (op : BinaryOp) (left right : Int64) :
    (op.onIntegers left right).Delivered (Good s) := by
  cases op with
  | add | sub | mul => exact .inl (inv.integer _ _)
  | div =>
      rw [BinaryOp.onIntegers]
      split
      · exact Fault.delivered _ _
      · exact .inl (inv.integer _ _)
  | lt | gt | eq | notEq => exact .inl (inv.boolean _ _)

theorem refuse_delivered (good : Value → Prop) (op : BinaryOp) (left right : Value) :
    (op.refuse left right).Delivered good := by
  rw [BinaryOp.refuse]
  split
  · exact Fault.delivered _ _
  · exact Fault.delivered _ _

theorem binary (inv : Invariant frame Known Ready R Good) (op : BinaryOp) (left right : Value) :
    (op.apply left right).Delivered (Good s) := by
  rw [BinaryOp.apply.eq_def]
  split
  · exact inv.onIntegers _ _ _
  · exact .inl (inv.boolean _ _)
  · exact .inl (inv.boolean _ _)
  · exact .inl (inv.string _ _)
  · exact refuse_delivered _ _ _ _

theorem elementAt (inv : Invariant frame Known Ready R Good)
    {elements : List Value} {position : Int64}
    (h : Good s (.array elements)) : Good s (Value.elementAt elements position) := by
  rw [Value.elementAt]
  split
  · cases hfound : elements[position.toInt.toNat]? with
    | none => exact inv.null s
    | some found => exact inv.array.mp h found (List.mem_of_getElem? hfound)
  · exact inv.null s

theorem filedUnder (inv : Invariant frame Known Ready R Good)
    {entries : List (Entry Value)} {key : Value}
    (h : Good s (.hash entries)) : (Value.filedUnder entries key).Delivered (Good s) := by
  rw [Value.filedUnder]
  split
  · exact Fault.delivered _ _
  · rename_i slot _
    left
    cases hfound : Value.entryAt? entries slot with
    | none => exact inv.null s
    | some found => exact inv.filed h (List.mem_of_find?_eq_some hfound)

theorem index (inv : Invariant frame Known Ready R Good) {collection key : Value}
    (h : Good s collection) : (collection.index key).Delivered (Good s) := by
  rw [Value.index.eq_def]
  split
  · exact .inl (inv.elementAt h)
  · exact inv.filedUnder h
  · exact Fault.delivered _ _

end Operators

section Builtins

theorem onArray (inv : Invariant frame Known Ready R Good) {builtin : Builtin} {argument : Value}
    {make : List Value → Value} (h : Good s argument)
    (hmake : ∀ elements, (∀ v ∈ elements, Good s v) → Good s (make elements)) :
    (Builtin.onArray builtin argument make).Delivered (Good s) := by
  rw [Builtin.onArray.eq_def]
  split
  · exact .inl (hmake _ (inv.array.mp h))
  · exact Fault.delivered _ _

theorem getD_null (inv : Invariant frame Known Ready R Good) {found : Option Value}
    (h : ∀ v, found = some v → Good s v) : Good s (found.getD .null) := by
  cases found with
  | none => exact inv.null s
  | some v => exact h v rfl

theorem apply (inv : Invariant frame Known Ready R Good) (builtin : Builtin) {args : List Value}
    (hargs : ∀ v ∈ args, Good s v) : (builtin.apply args).Delivered (Good s) := by
  rw [Builtin.apply.eq_def]
  split
  · rw [Builtin.lengthOf.eq_def]
    split
    · exact .inl (inv.integer _ _)
    · exact .inl (inv.integer _ _)
    · exact Fault.delivered _ _
  · apply inv.onArray (hargs _ (by simp))
    intro elements helements
    exact inv.getD_null fun v hv => helements v (List.mem_of_head? hv)
  · apply inv.onArray (hargs _ (by simp))
    intro elements helements
    exact inv.getD_null fun v hv => helements v (List.mem_of_getLast? hv)
  · apply inv.onArray (hargs _ (by simp))
    intro elements helements
    cases elements with
    | nil => exact inv.null s
    | cons first others =>
        exact inv.array.mpr fun v hv => helements v (List.mem_cons_of_mem _ hv)
  · apply inv.onArray (hargs _ (by simp))
    intro elements helements
    apply inv.array.mpr
    intro v hv
    rw [List.mem_append, List.mem_singleton] at hv
    rcases hv with hv | rfl
    · exact helements v hv
    · exact hargs v (by simp)
  · exact Fault.delivered _ _

end Builtins

end Invariant

section Runs

variable (Ready R Good)

/-- What an evaluation begun in `s` leaves behind. -/
def Kept (s : Store) (value : Value) (t : Store) : Prop :=
  Ready t ∧ R s t ∧ value.Outgoing (Good t)

def KeptAll (s : Store) (result : Except Value (List Value)) (t : Store) : Prop :=
  Ready t ∧ R s t ∧
    match result with
    | .ok values => ∀ v ∈ values, Good t v
    | .error signal => signal.Outgoing (Good t)

/-- Calls on good values keep the invariant and end no function but their own. -/
def Delivers (call : Caller) : Prop :=
  ∀ callee args s, Ready s → Good s callee → (∀ v ∈ args, Good s v) →
    (call callee args s).Ends fun value t => Ready t ∧ R s t ∧ value.Delivered (Good t)

end Runs

namespace Invariant

theorem kept (inv : Invariant frame Known Ready R Good) {value : Value} (hs : Ready s)
    (h : value.Delivered (Good s)) : Kept Ready R Good s value s :=
  ⟨hs, inv.refl s, .inl h⟩

theorem kept_trans (inv : Invariant frame Known Ready R Good) {run : Run Value} (hst : R s t)
    (h : run.Ends (Kept Ready R Good t)) : run.Ends (Kept Ready R Good s) := by
  apply h.mono
  rintro value u ⟨hu, htu, hvalue⟩
  exact ⟨hu, inv.trans hst htu, hvalue⟩

theorem andThen (inv : Invariant frame Known Ready R Good) {run : Run Value}
    {next : Value → Store → Run Value} (hrun : run.Ends (Kept Ready R Good s))
    (hnext : ∀ v t, Ready t → R s t → Good t v → (next v t).Ends (Kept Ready R Good t)) :
    (run.andThen next).Ends (Kept Ready R Good s) := by
  cases run with
  | tooDeep => trivial
  | done v t =>
      obtain ⟨ht, hst, hv⟩ := hrun
      rw [Run.andThen]
      split
      · exact ⟨ht, hst, hv⟩
      · rename_i hplain
        have hgood := hv.of_plain (by simpa using hplain)
        exact inv.kept_trans hst (hnext v t ht hst hgood)

theorem andThenAll (inv : Invariant frame Known Ready R Good)
    {run : Run (Except Value (List Value))} {next : List Value → Store → Run Value}
    (hrun : run.Ends (KeptAll Ready R Good s))
    (hnext : ∀ vs t, Ready t → R s t → (∀ v ∈ vs, Good t v) →
      (next vs t).Ends (Kept Ready R Good t)) :
    (run.andThenAll next).Ends (Kept Ready R Good s) := by
  cases run with
  | tooDeep => trivial
  | done result t =>
      obtain ⟨ht, hst, hresult⟩ := hrun
      cases result with
      | error signal => exact ⟨ht, hst, hresult⟩
      | ok vs => exact inv.kept_trans hst (hnext vs t ht hst hresult)

theorem resolve (inv : Invariant frame Known Ready R Good) (hs : Ready s) (name : String) :
    (s.resolve frame name).Delivered (Good s) := by
  rw [Store.resolve]
  split
  · rename_i value hvalue
    exact .inl (inv.lookup hs hvalue)
  · split
    · exact .inl (inv.builtin s _)
    · exact Fault.delivered _ _

end Invariant

mutual

theorem Invariant.expr (inv : Invariant frame Known Ready R Good)
    (hcall : Delivers Ready R Good call) : ∀ (e : Expr Label) {s : Store},
      (∀ l ∈ e.lambdas, Known l) → Ready s →
      (e.evalWith call frame s).Ends (Kept Ready R Good s)
  | .ident name, s, _, hs => by
      rw [Expr.evalWith]
      exact inv.kept hs (inv.resolve hs name)
  | .int value, s, _, hs => by
      rw [Expr.evalWith]
      exact inv.kept hs (.inl (inv.integer s value))
  | .string text, s, _, hs => by
      rw [Expr.evalWith]
      exact inv.kept hs (.inl (inv.string s text))
  | .bool value, s, _, hs => by
      rw [Expr.evalWith]
      exact inv.kept hs (.inl (inv.boolean s value))
  | .unary op operand, s, hknown, hs => by
      rw [Expr.evalWith]
      apply inv.andThen (inv.expr hcall operand hknown hs)
      intro v t ht _ _
      exact inv.kept ht (inv.unary op v)
  | .binary left op right, s, hknown, hs => by
      rw [Expr.lambdas, List.forall_mem_append] at hknown
      rw [Expr.evalWith]
      apply inv.andThen (inv.expr hcall left hknown.1 hs)
      intro v t ht _ _
      apply inv.andThen (inv.expr hcall right hknown.2 ht)
      intro w u hu _ _
      exact inv.kept hu (inv.binary op v w)
  | .cond condition yes no, s, hknown, hs => by
      rw [Expr.lambdas, List.forall_mem_append, List.forall_mem_append] at hknown
      rw [Expr.evalWith]
      apply inv.andThen (inv.expr hcall condition hknown.1 hs)
      intro v t ht _ _
      split
      · exact inv.block hcall yes hknown.2.1 (.inl (.inl (inv.null t))) ht
      · exact inv.otherwise hcall no hknown.2.2 ht
  | .fn label params body, s, hknown, hs => by
      rw [Expr.lambdas, List.forall_mem_cons] at hknown
      rw [Expr.evalWith]
      exact inv.kept hs (.inl (inv.function hs hknown.1))
  | .call callee args, s, hknown, hs => by
      rw [Expr.lambdas, List.forall_mem_append] at hknown
      rw [Expr.evalWith]
      apply inv.andThen (inv.expr hcall callee hknown.1 hs)
      intro v t ht _ hv
      apply inv.andThenAll (inv.each hcall args hknown.2 ht)
      intro vs u hu htu hvs
      apply (hcall v vs u hu (inv.mono htu hv) hvs).mono
      rintro w after ⟨hafter, hrel, hw⟩
      exact ⟨hafter, hrel, .inl hw⟩
  | .array elements, s, hknown, hs => by
      rw [Expr.evalWith]
      apply inv.andThenAll (inv.each hcall elements hknown hs)
      intro vs t ht _ hvs
      exact inv.kept ht (.inl (inv.array.mpr hvs))
  | .index collection position, s, hknown, hs => by
      rw [Expr.lambdas, List.forall_mem_append] at hknown
      rw [Expr.evalWith]
      apply inv.andThen (inv.expr hcall collection hknown.1 hs)
      intro v t ht _ hv
      apply inv.andThen (inv.expr hcall position hknown.2 ht)
      intro w u hu htu _
      exact inv.kept hu (inv.index (inv.mono htu hv))
  | .hash pairs, s, hknown, hs => by
      rw [Expr.evalWith]
      exact inv.pairs hcall pairs hknown (inv.emptyHash s) hs

theorem Invariant.each (inv : Invariant frame Known Ready R Good)
    (hcall : Delivers Ready R Good call) : ∀ (es : List (Expr Label)) {s : Store},
      (∀ l ∈ Expr.lambdasEach es, Known l) → Ready s →
      (Expr.evalEach call frame es s).Ends (KeptAll Ready R Good s)
  | [], s, _, hs => by
      rw [Expr.evalEach]
      exact ⟨hs, inv.refl s, by simp⟩
  | e :: es, s, hknown, hs => by
      rw [Expr.lambdasEach, List.forall_mem_append] at hknown
      rw [Expr.evalEach]
      have hfirst := inv.expr hcall e hknown.1 hs
      cases hrun : e.evalWith call frame s with
      | tooDeep => trivial
      | done v t =>
          rw [hrun] at hfirst
          obtain ⟨ht, hst, hv⟩ := hfirst
          dsimp only
          split
          · exact ⟨ht, hst, hv⟩
          · rename_i hplain
            apply (inv.each hcall es hknown.2 ht).map
            rintro result u ⟨hu, htu, hresult⟩
            refine ⟨hu, inv.trans hst htu, ?_⟩
            cases result with
            | error signal => exact hresult
            | ok vs =>
                have hgood := hv.of_plain (by simpa using hplain)
                change ∀ w ∈ v :: vs, Good u w
                rw [List.forall_mem_cons]
                exact ⟨inv.mono htu hgood, hresult⟩

theorem Invariant.pairs (inv : Invariant frame Known Ready R Good)
    (hcall : Delivers Ready R Good call) :
    ∀ (ps : List (Expr Label × Expr Label)) {entries : List (Entry Value)} {s : Store},
      (∀ l ∈ Expr.lambdasPairs ps, Known l) → Good s (.hash entries) → Ready s →
      (Expr.evalPairs call frame ps entries s).Ends (Kept Ready R Good s)
  | [], entries, s, _, hentries, hs => by
      rw [Expr.evalPairs]
      exact inv.kept hs (.inl hentries)
  | (keyExpr, valueExpr) :: ps, entries, s, hknown, hentries, hs => by
      rw [Expr.lambdasPairs, List.forall_mem_append, List.forall_mem_append] at hknown
      rw [Expr.evalPairs]
      apply inv.andThen (inv.expr hcall keyExpr hknown.1 hs)
      intro key t ht hst hkey
      split
      · exact inv.kept ht (Fault.delivered _ _)
      · rename_i slot hslot
        apply inv.andThen (inv.expr hcall valueExpr hknown.2.1 ht)
        intro value u hu htu hvalue
        have hentries' := inv.mono (inv.trans hst htu) hentries
        refine inv.pairs hcall ps hknown.2.2 ?_ hu
        exact inv.insert hentries' (inv.mono htu hkey) hvalue hslot

theorem Invariant.stmt (inv : Invariant frame Known Ready R Good)
    (hcall : Delivers Ready R Good call) : ∀ (st : Stmt Label) {s : Store},
      (∀ l ∈ st.lambdas, Known l) → Ready s →
      (st.evalWith call frame s).Ends (Kept Ready R Good s)
  | .bind name value, s, hknown, hs => by
      rw [Stmt.evalWith]
      apply inv.andThen (inv.expr hcall value hknown hs)
      intro v t ht _ hv
      obtain ⟨hset, hrel⟩ := inv.set name ht hv
      exact ⟨hset, hrel, .inl (.inl (inv.mono hrel hv))⟩
  | .ret none, s, _, hs => by
      rw [Stmt.evalWith]
      exact ⟨hs, inv.refl s, .inr ⟨_, rfl, inv.null s⟩⟩
  | .ret (some value), s, hknown, hs => by
      rw [Stmt.evalWith]
      apply inv.andThen (inv.expr hcall value hknown hs)
      intro v t ht _ hv
      exact ⟨ht, inv.refl t, .inr ⟨v, rfl, hv⟩⟩
  | .expr value, s, hknown, hs => by
      rw [Stmt.evalWith]
      exact inv.expr hcall value hknown hs

theorem Invariant.block (inv : Invariant frame Known Ready R Good)
    (hcall : Delivers Ready R Good call) :
    ∀ (ss : List (Stmt Label)) {value : Value} {s : Store},
      (∀ l ∈ Stmt.lambdasEach ss, Known l) → value.Outgoing (Good s) → Ready s →
      (Stmt.evalBlock call frame ss value s).Ends (Kept Ready R Good s)
  | [], value, s, _, hvalue, hs => by
      rw [Stmt.evalBlock]
      exact ⟨hs, inv.refl s, hvalue⟩
  | st :: ss, value, s, hknown, _, hs => by
      rw [Stmt.lambdasEach, List.forall_mem_append] at hknown
      rw [Stmt.evalBlock]
      apply inv.andThen (inv.stmt hcall st hknown.1 hs)
      intro v t ht _ hv
      exact inv.block hcall ss hknown.2 (.inl (.inl hv)) ht

theorem Invariant.otherwise (inv : Invariant frame Known Ready R Good)
    (hcall : Delivers Ready R Good call) :
    ∀ (no : Option (List (Stmt Label))) {s : Store},
      (∀ l ∈ Stmt.lambdasElse no, Known l) → Ready s →
      (Stmt.evalElse call frame no s).Ends (Kept Ready R Good s)
  | none, s, _, hs => by
      rw [Stmt.evalElse]
      exact inv.kept hs (.inl (inv.null s))
  | some ss, s, hknown, hs => by
      rw [Stmt.evalElse]
      exact inv.block hcall ss hknown (.inl (.inl (inv.null s))) hs

end

theorem Invariant.delivers (inv : Invariant frame Known Ready R Good)
    {enter : Closure → List Value → Store → Run Value}
    (henter : ∀ closure args s, Ready s → Good s (.function closure) → (∀ v ∈ args, Good s v) →
      args.length = closure.params.length →
      (enter closure args s).Ends fun value t => Ready t ∧ R s t ∧ value.Delivered (Good t)) :
    Delivers Ready R Good (callWith enter) := by
  intro callee args s hs hcallee hargs
  cases callee with
  | function closure =>
      rw [callWith]
      split
      · rename_i hcount
        exact henter closure args s hs hcallee hargs hcount
      · exact ⟨hs, inv.refl s, Fault.delivered _ _⟩
  | builtin builtin => exact ⟨hs, inv.refl s, inv.apply builtin hargs⟩
  | _ => exact ⟨hs, inv.refl s, Fault.delivered _ _⟩

end Evaluation

end ScriptLang
