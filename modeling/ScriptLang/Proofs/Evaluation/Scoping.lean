import ScriptLang.Proofs.Evaluation.Writes
import ScriptLang.Proofs.Store.Agreement

/-!
Lexical scoping.

An evaluation depends only on what it can reach from its frame.  Two stores that agree on a closed
set of frames give the same result, and agree again afterwards on the set and on the frames made
meanwhile.

Frames are numbered in the order in which they are made, so new frames get the same numbers in
both stores.  The set is taken together with all frames to come, and then it need not grow.
-/

namespace ScriptLang

/-- A closed set of frames in which all frames to come are. -/
def Store.Enclosed (R : FrameId → Prop) (store : Store) : Prop :=
  store.Closed R ∧ ∀ i, store.frames.size ≤ i → R i

def Store.NoSmaller (s t : Store) : Prop :=
  s.frames.size ≤ t.frames.size

variable {numbered : Bool} {R : FrameId → Prop} {frame : FrameId}

theorem Value.Within.of_outgoing {value : Value} (h : value.Outgoing (Value.Within R)) :
    value.Within R := by
  rcases h with (h | ⟨message, rfl⟩) | ⟨inner, rfl, hinner⟩
  · exact h
  · exact .error message
  · exact .returned hinner

/-- The scope of a call, in front of the body. -/
def Closure.scope (closure : Closure) (args : List Value) : Frame :=
  (Frame.within (some closure.frame)).setAll (closure.params.zip args)

namespace Store.Enclosed

variable {s : Store}

theorem set {value : Value} (h : s.Enclosed R) (hvalue : value.Within R) (frame : FrameId)
    (name : String) :
    (s.set frame name value).Enclosed R ∧ s.NoSmaller (s.set frame name value) := by
  have hsize : (s.set frame name value).frames.size = s.frames.size := by simp
  refine ⟨⟨h.1.set hvalue frame name, ?_⟩, Nat.le_of_eq hsize.symm⟩
  rw [hsize]
  exact h.2

theorem alloc_scope {closure : Closure} {args : List Value} (h : s.Enclosed R)
    (hclosure : (Value.function closure).Within R) (hargs : ∀ v ∈ args, v.Within R) :
    (s.alloc (closure.scope args)).2.Enclosed R := by
  constructor
  · apply h.1.alloc
    apply Frame.StaysIn.setAll
    · cases hclosure with
      | function hframe => simpa [Frame.StaysIn, Frame.within, Frame.get?] using hframe
    · intro binding hbinding
      exact hargs _ (List.of_mem_zip hbinding).2
  · intro i hi
    rw [Store.alloc_frames, Array.size_push] at hi
    exact h.2 i (by omega)

end Store.Enclosed

/-- A closed set stays closed when the frames to come are put into it. -/
theorem Store.Closed.enclosed {s : Store} (h : s.Closed R) :
    s.Enclosed fun i => R i ∨ s.frames.size ≤ i := by
  refine ⟨?_, fun i hi => .inr hi⟩
  intro i found hi hfound
  obtain ⟨hlt, -⟩ := Array.getElem?_eq_some_iff.mp hfound
  obtain ⟨houter, hbound⟩ := h i found (hi.resolve_right (Nat.not_le_of_lt hlt)) hfound
  refine ⟨fun outer hlink => .inl (houter outer hlink), ?_⟩
  intro name value hvalue
  exact (hbound name value hvalue).mono fun _ hi => .inl hi

theorem Store.AgreeOn.enclosed {s t : Store} (h : s.AgreeOn numbered R t) :
    s.AgreeOn numbered (fun i => R i ∨ s.frames.size ≤ i) t := by
  refine ⟨h.1, ?_⟩
  intro i a b hi ha hb
  obtain ⟨hlt, -⟩ := Array.getElem?_eq_some_iff.mp ha
  exact h.2 i a b (hi.resolve_right (Nat.not_le_of_lt hlt)) ha hb

namespace Evaluation

section Single

theorem scoped_invariant (hframe : R frame) :
    Invariant frame (fun _ => True) (Store.Enclosed R) Store.NoSmaller fun _ =>
      Value.Within R where
  refl _ := Nat.le_refl _
  trans := Nat.le_trans
  mono _ hv := hv
  lookup hs hfound := hs.1.lookupWithin hframe hfound
  set name _ _ hs hv := hs.set hv frame name
  function _ _ := .function hframe
  integer _ := .integer
  boolean _ := .boolean
  string _ := .string
  null _ := .null
  builtin _ := .builtin
  array := Value.Within.array_iff
  emptyHash _ := .hash (by simp) (by simp)
  insert hentries hkey hvalue _ := hentries.insertEntry hkey hvalue
  filed hentries hentry := by
    cases hentries with
    | hash _ hvalues => exact hvalues _ hentry

abbrev DeliversWithin (R : FrameId → Prop) (call : Caller) : Prop :=
  Delivers (Store.Enclosed R) Store.NoSmaller (fun _ => Value.Within R) call

section Parts

variable {call : Caller} {s : Store}

theorem expr_within (hframe : R frame) (hcall : DeliversWithin R call) (e : Expr Label)
    (hs : s.Enclosed R) : (e.evalWith call frame s).Ends
      (Kept (Store.Enclosed R) Store.NoSmaller (fun _ => Value.Within R) s) :=
  (scoped_invariant hframe).expr hcall e (fun _ _ => trivial) hs

theorem each_within (hframe : R frame) (hcall : DeliversWithin R call) (es : List (Expr Label))
    (hs : s.Enclosed R) : (Expr.evalEach call frame es s).Ends
      (KeptAll (Store.Enclosed R) Store.NoSmaller (fun _ => Value.Within R) s) :=
  (scoped_invariant hframe).each hcall es (fun _ _ => trivial) hs

theorem stmt_within (hframe : R frame) (hcall : DeliversWithin R call) (st : Stmt Label)
    (hs : s.Enclosed R) : (st.evalWith call frame s).Ends
      (Kept (Store.Enclosed R) Store.NoSmaller (fun _ => Value.Within R) s) :=
  (scoped_invariant hframe).stmt hcall st (fun _ _ => trivial) hs

end Parts

theorem enter_within (depth : Nat) {closure : Closure} {args : List Value} {s : Store}
    (hs : s.Enclosed R) (hclosure : (Value.function closure).Within R)
    (hargs : ∀ v ∈ args, v.Within R) :
    (enter depth closure args s).Ends fun value t =>
      t.Enclosed R ∧ s.NoSmaller t ∧ value.Delivered (Value.Within R) := by
  induction depth generalizing closure args s with
  | zero => trivial
  | succ depth ih =>
      have inv := scoped_invariant (hs.2 s.frames.size (Nat.le_refl _))
      have hcall : DeliversWithin R (callWith (enter depth)) :=
        inv.delivers fun _ _ _ hs hclosure hargs _ => ih hs hclosure hargs
      have hbody := inv.block hcall closure.body (fun _ _ => trivial) (.inl (.inl (.null)))
        (hs.alloc_scope hclosure hargs)
      apply hbody.map
      rintro value t ⟨ht, hsize, hvalue⟩
      rw [Store.NoSmaller, Store.alloc_frames, Array.size_push] at hsize
      refine ⟨ht, Nat.le_of_succ_le hsize, .inl ?_⟩
      exact (Value.Within.of_outgoing hvalue).arrived

theorem delivers_enter (hframe : R frame) (depth : Nat) :
    DeliversWithin R (callWith (enter depth)) :=
  (scoped_invariant hframe).delivers fun _ _ _ hs hclosure hargs _ =>
    enter_within depth hs hclosure hargs

end Single

section Twins

/-- Two evaluations that end alike: both with results that are alike and stores that agree, or
both because calls nest too deep. -/
def Twins {α : Type} (like : α → α → Prop) (numbered : Bool) (R : FrameId → Prop) :
    Run α → Run α → Prop
  | .done v s, .done w t => like v w ∧ s.AgreeOn numbered R t
  | .tooDeep, .tooDeep => True
  | _, _ => False

/-- Two values that look the same. -/
def Like (numbered : Bool) (v w : Value) : Prop :=
  v.seen numbered = w.seen numbered

theorem Like.isSignal_eq {v w : Value} (h : Like numbered v w) : v.isSignal = w.isSignal := by
  rw [← Value.isSignal_seen numbered v, h, Value.isSignal_seen]

theorem Like.kind_eq {v w : Value} (h : Like numbered v w) : v.kind = w.kind := by
  rw [← Value.kind_seen numbered v, h, Value.kind_seen]

theorem Like.arrived {v w : Value} (h : Like numbered v w) :
    Like numbered v.arrived w.arrived := by
  rw [Like, Value.seen_arrived, Value.seen_arrived, h]

theorem Like.eq_of_numbered {v w : Value} (h : Like numbered v w) (hnumbered : numbered = true) :
    v = w := by
  subst hnumbered
  rwa [Like, Value.seen_true, Value.seen_true] at h

def LikeAll (numbered : Bool) : Except Value (List Value) → Except Value (List Value) → Prop
  | .ok vs, .ok ws => vs.map (Value.seen numbered) = ws.map (Value.seen numbered)
  | .error v, .error w => Like numbered v w
  | _, _ => False

/-- Calls of functions and arguments that look the same end alike. -/
def TwinCalls (numbered : Bool) (R : FrameId → Prop) (call : Caller) : Prop :=
  ∀ callee callee' args args' s t, Like numbered callee callee' →
    args.map (Value.seen numbered) = args'.map (Value.seen numbered) →
    s.Enclosed R → s.AgreeOn numbered R t → callee.Within R → (∀ v ∈ args, v.Within R) →
    Twins (Like numbered) numbered R (call callee args s) (call callee' args' t)

variable {s t : Store} {call : Caller}

theorem Twins.cases {α : Type} {like : α → α → Prop} {run run' : Run α}
    (h : Twins like numbered R run run') :
    (run = .tooDeep ∧ run' = .tooDeep) ∨ ∃ v w u u', run = .done v u ∧ run' = .done w u' ∧
      like v w ∧ u.AgreeOn numbered R u' := by
  rcases run with ⟨v, u⟩ | _
  · rcases run' with ⟨w, u'⟩ | _
    · exact .inr ⟨v, w, u, u', rfl, rfl, h⟩
    · exact h.elim
  · rcases run' with ⟨w, u'⟩ | _
    · exact h.elim
    · exact .inl ⟨rfl, rfl⟩

theorem Twins.andThen {run run' : Run Value} {next next' : Value → Store → Run Value}
    (h : Twins (Like numbered) numbered R run run')
    (hrun : run.Ends (Kept (Store.Enclosed R) Store.NoSmaller (fun _ => Value.Within R) s))
    (hnext : ∀ v w u u', Like numbered v w → u.AgreeOn numbered R u' → u.Enclosed R →
      v.Within R → Twins (Like numbered) numbered R (next v u) (next' w u')) :
    Twins (Like numbered) numbered R (run.andThen next) (run'.andThen next') := by
  obtain ⟨rfl, rfl⟩ | ⟨v, w, u, u', rfl, rfl, hlike, hagree⟩ := h.cases
  · trivial
  · obtain ⟨hu, -, hv⟩ := hrun
    rw [Run.andThen, Run.andThen, hlike.isSignal_eq]
    split
    · exact ⟨hlike, hagree⟩
    · exact hnext v w u u' hlike hagree hu (.of_outgoing hv)

theorem Twins.andThenAll {run run' : Run (Except Value (List Value))}
    {next next' : List Value → Store → Run Value}
    (h : Twins (LikeAll numbered) numbered R run run')
    (hrun : run.Ends (KeptAll (Store.Enclosed R) Store.NoSmaller (fun _ => Value.Within R) s))
    (hnext : ∀ vs ws u u', vs.map (Value.seen numbered) = ws.map (Value.seen numbered) →
      u.AgreeOn numbered R u' → u.Enclosed R → (∀ v ∈ vs, v.Within R) →
      Twins (Like numbered) numbered R (next vs u) (next' ws u')) :
    Twins (Like numbered) numbered R (run.andThenAll next) (run'.andThenAll next') := by
  obtain ⟨rfl, rfl⟩ | ⟨result, result', u, u', rfl, rfl, hlike, hagree⟩ := h.cases
  · trivial
  · obtain ⟨hu, -, hresult⟩ := hrun
    rcases result with v | vs
    · rcases result' with w | ws
      · exact ⟨hlike, hagree⟩
      · exact hlike.elim
    · rcases result' with w | ws
      · exact hlike.elim
      · exact hnext vs ws u u' hlike hagree hu hresult

theorem Twins.map {α β : Type} {like : α → α → Prop} {like' : β → β → Prop} {f g : α → β}
    {run run' : Run α} (h : Twins like numbered R run run')
    (hfg : ∀ v w, like v w → like' (f v) (g w)) :
    Twins like' numbered R (run.map f) (run'.map g) := by
  obtain ⟨rfl, rfl⟩ | ⟨v, w, u, u', rfl, rfl, hlike, hagree⟩ := h.cases
  · trivial
  · exact ⟨hfg v w hlike, hagree⟩

theorem Twins.mono {α : Type} {like like' : α → α → Prop} {run run' : Run α}
    (h : Twins like numbered R run run') (hlike : ∀ v w, like v w → like' v w) :
    Twins like' numbered R run run' := by
  obtain ⟨rfl, rfl⟩ | ⟨v, w, u, u', rfl, rfl, hvw, hagree⟩ := h.cases
  · trivial
  · exact ⟨hlike v w hvw, hagree⟩

theorem Twins.finishes_iff {α : Type} {like : α → α → Prop} {run run' : Run α}
    (h : Twins like numbered R run run') :
    (∃ v u, run = .done v u) ↔ ∃ v u, run' = .done v u := by
  obtain ⟨rfl, rfl⟩ | ⟨v, w, u, u', rfl, rfl, -, -⟩ := h.cases
  · simp
  · simp

mutual

theorem twins_expr (hframe : R frame) (hcall : DeliversWithin R call)
    (htwin : TwinCalls numbered R call) :
    ∀ (e : Expr Label) {s t : Store}, s.Enclosed R → s.AgreeOn numbered R t →
      Twins (Like numbered) numbered R (e.evalWith call frame s) (e.evalWith call frame t)
  | .ident name, s, t, hs, hst => by
      rw [Expr.evalWith, Expr.evalWith]
      exact ⟨hst.resolve hs.1 hframe name, hst⟩
  | .int value, s, t, hs, hst => by
      rw [Expr.evalWith, Expr.evalWith]
      exact ⟨rfl, hst⟩
  | .string text, s, t, hs, hst => by
      rw [Expr.evalWith, Expr.evalWith]
      exact ⟨rfl, hst⟩
  | .bool value, s, t, hs, hst => by
      rw [Expr.evalWith, Expr.evalWith]
      exact ⟨rfl, hst⟩
  | .unary op operand, s, t, hs, hst => by
      rw [Expr.evalWith, Expr.evalWith]
      apply (twins_expr hframe hcall htwin operand hs hst).andThen
        (expr_within hframe hcall operand hs)
      intro v w u u' hvw hagree _ _
      refine ⟨?_, hagree⟩
      rw [Like, UnaryOp.seen_apply, UnaryOp.seen_apply, hvw]
  | .binary left op right, s, t, hs, hst => by
      rw [Expr.evalWith, Expr.evalWith]
      apply (twins_expr hframe hcall htwin left hs hst).andThen (expr_within hframe hcall left hs)
      intro v w u u' hvw hagree hu _
      apply (twins_expr hframe hcall htwin right hu hagree).andThen
        (expr_within hframe hcall right hu)
      intro v' w' x x' hvw' hagree' _ _
      refine ⟨?_, hagree'⟩
      rw [Like, BinaryOp.seen_apply, BinaryOp.seen_apply, hvw, hvw']
  | .cond condition yes no, s, t, hs, hst => by
      rw [Expr.evalWith, Expr.evalWith]
      apply (twins_expr hframe hcall htwin condition hs hst).andThen
        (expr_within hframe hcall condition hs)
      intro v w u u' hvw hagree hu _
      have htruthy : v.isTruthy = w.isTruthy := by
        rw [← Value.isTruthy_seen numbered v, hvw, Value.isTruthy_seen]
      rw [htruthy]
      split
      · exact twins_block hframe hcall htwin yes rfl hu hagree
      · exact twins_otherwise hframe hcall htwin no hu hagree
  | .fn label params body, s, t, hs, hst => by
      rw [Expr.evalWith, Expr.evalWith]
      exact ⟨rfl, hst⟩
  | .call callee args, s, t, hs, hst => by
      rw [Expr.evalWith, Expr.evalWith]
      apply (twins_expr hframe hcall htwin callee hs hst).andThen
        (expr_within hframe hcall callee hs)
      intro v w u u' hvw hagree hu hv
      apply (twins_each hframe hcall htwin args hu hagree).andThenAll
        (each_within hframe hcall args hu)
      intro vs ws x x' hvws hagree' hx hvs
      exact htwin v w vs ws x x' hvw hvws hx hagree' hv hvs
  | .array elements, s, t, hs, hst => by
      rw [Expr.evalWith, Expr.evalWith]
      apply (twins_each hframe hcall htwin elements hs hst).andThenAll
        (each_within hframe hcall elements hs)
      intro vs ws u u' hvws hagree _ _
      refine ⟨?_, hagree⟩
      rw [Like, Value.seen, Value.seen, Value.seenEach_eq_map, Value.seenEach_eq_map, hvws]
  | .index collection position, s, t, hs, hst => by
      rw [Expr.evalWith, Expr.evalWith]
      apply (twins_expr hframe hcall htwin collection hs hst).andThen
        (expr_within hframe hcall collection hs)
      intro v w u u' hvw hagree hu _
      apply (twins_expr hframe hcall htwin position hu hagree).andThen
        (expr_within hframe hcall position hu)
      intro v' w' x x' hvw' hagree' _ _
      refine ⟨?_, hagree'⟩
      rw [Like, Value.seen_index, Value.seen_index, hvw, hvw']
  | .hash pairs, s, t, hs, hst => by
      rw [Expr.evalWith, Expr.evalWith]
      exact twins_pairs hframe hcall htwin pairs rfl hs hst

theorem twins_each (hframe : R frame) (hcall : DeliversWithin R call)
    (htwin : TwinCalls numbered R call) :
    ∀ (es : List (Expr Label)) {s t : Store}, s.Enclosed R → s.AgreeOn numbered R t →
      Twins (LikeAll numbered) numbered R (Expr.evalEach call frame es s)
        (Expr.evalEach call frame es t)
  | [], s, t, hs, hst => by
      rw [Expr.evalEach, Expr.evalEach]
      exact ⟨rfl, hst⟩
  | e :: es, s, t, hs, hst => by
      have hkept := expr_within hframe hcall e hs
      rw [Expr.evalEach, Expr.evalEach]
      obtain ⟨hrun, hrun'⟩ | ⟨v, w, u, u', hrun, hrun', hlike, hagree⟩ :=
        (twins_expr hframe hcall htwin e hs hst).cases
      · rw [hrun, hrun']
        trivial
      · rw [hrun] at hkept
        rw [hrun, hrun']
        dsimp only
        rw [hlike.isSignal_eq]
        split
        · exact ⟨hlike, hagree⟩
        · apply (twins_each hframe hcall htwin es hkept.1 hagree).map
          rintro (signal | vs) (signal' | ws) hrest
          · exact hrest
          · exact hrest.elim
          · exact hrest.elim
          · change (v :: vs).map _ = (w :: ws).map _
            rw [List.map_cons, List.map_cons, hlike, hrest]

theorem twins_pairs (hframe : R frame) (hcall : DeliversWithin R call)
    (htwin : TwinCalls numbered R call) :
    ∀ (ps : List (Expr Label × Expr Label)) {entries entries' : List (Entry Value)} {s t : Store},
      entries.map (Entry.seen numbered) = entries'.map (Entry.seen numbered) →
      s.Enclosed R → s.AgreeOn numbered R t →
      Twins (Like numbered) numbered R (Expr.evalPairs call frame ps entries s)
        (Expr.evalPairs call frame ps entries' t)
  | [], entries, entries', s, t, hentries, hs, hst => by
      rw [Expr.evalPairs, Expr.evalPairs]
      refine ⟨?_, hst⟩
      rw [Like, Value.seen, Value.seen, Value.seenEntries_eq_map,
        Value.seenEntries_eq_map, hentries]
  | (keyExpr, valueExpr) :: ps, entries, entries', s, t, hentries, hs, hst => by
      rw [Expr.evalPairs, Expr.evalPairs]
      apply (twins_expr hframe hcall htwin keyExpr hs hst).andThen
        (expr_within hframe hcall keyExpr hs)
      intro key key' u u' hkey hagree hu _
      have hslot : key.hashKey? = key'.hashKey? := by
        rw [← Value.hashKey?_seen numbered key, hkey, Value.hashKey?_seen]
      rw [hslot, hkey.kind_eq]
      split
      · exact ⟨rfl, hagree⟩
      · rename_i slot _
        apply (twins_expr hframe hcall htwin valueExpr hu hagree).andThen
          (expr_within hframe hcall valueExpr hu)
        intro value value' x x' hvalue hagree' hx _
        refine twins_pairs hframe hcall htwin ps ?_ hx hagree'
        rw [Value.map_seen_insertEntry, Value.map_seen_insertEntry, hentries]
        congr 1
        simp only [Entry.seen, Entry.mk.injEq, true_and]
        exact ⟨hkey, hvalue⟩

theorem twins_stmt (hframe : R frame) (hcall : DeliversWithin R call)
    (htwin : TwinCalls numbered R call) :
    ∀ (st : Stmt Label) {s t : Store}, s.Enclosed R → s.AgreeOn numbered R t →
      Twins (Like numbered) numbered R (st.evalWith call frame s) (st.evalWith call frame t)
  | .bind name value, s, t, hs, hst => by
      rw [Stmt.evalWith, Stmt.evalWith]
      apply (twins_expr hframe hcall htwin value hs hst).andThen
        (expr_within hframe hcall value hs)
      intro v w u u' hvw hagree _ _
      exact ⟨hvw, hagree.set hvw frame name⟩
  | .ret none, s, t, hs, hst => by
      rw [Stmt.evalWith, Stmt.evalWith]
      exact ⟨rfl, hst⟩
  | .ret (some value), s, t, hs, hst => by
      rw [Stmt.evalWith, Stmt.evalWith]
      apply (twins_expr hframe hcall htwin value hs hst).andThen
        (expr_within hframe hcall value hs)
      intro v w u u' hvw hagree _ _
      refine ⟨?_, hagree⟩
      rw [Like, Value.seen, Value.seen, hvw]
  | .expr value, s, t, hs, hst => by
      rw [Stmt.evalWith, Stmt.evalWith]
      exact twins_expr hframe hcall htwin value hs hst

theorem twins_block (hframe : R frame) (hcall : DeliversWithin R call)
    (htwin : TwinCalls numbered R call) :
    ∀ (ss : List (Stmt Label)) {value value' : Value} {s t : Store}, Like numbered value value' →
      s.Enclosed R → s.AgreeOn numbered R t →
      Twins (Like numbered) numbered R (Stmt.evalBlock call frame ss value s)
        (Stmt.evalBlock call frame ss value' t)
  | [], value, value', s, t, hvalue, hs, hst => by
      rw [Stmt.evalBlock, Stmt.evalBlock]
      exact ⟨hvalue, hst⟩
  | st :: ss, value, value', s, t, _, hs, hst => by
      rw [Stmt.evalBlock, Stmt.evalBlock]
      apply (twins_stmt hframe hcall htwin st hs hst).andThen (stmt_within hframe hcall st hs)
      intro v w u u' hvw hagree hu _
      exact twins_block hframe hcall htwin ss hvw hu hagree

theorem twins_otherwise (hframe : R frame) (hcall : DeliversWithin R call)
    (htwin : TwinCalls numbered R call) :
    ∀ (no : Option (List (Stmt Label))) {s t : Store}, s.Enclosed R → s.AgreeOn numbered R t →
      Twins (Like numbered) numbered R (Stmt.evalElse call frame no s)
        (Stmt.evalElse call frame no t)
  | none, s, t, hs, hst => by
      rw [Stmt.evalElse, Stmt.evalElse]
      exact ⟨rfl, hst⟩
  | some ss, s, t, hs, hst => by
      rw [Stmt.evalElse, Stmt.evalElse]
      exact twins_block hframe hcall htwin ss rfl hs hst

end

section Calls

theorem callWith_of_kind {enter : Closure → List Value → Store → Run Value} {callee : Value}
    (hfunction : callee.kind ≠ .function) (hbuiltin : callee.kind ≠ .builtin) (args : List Value)
    (s : Store) : callWith enter callee args s =
      .done (Fault.notFunction callee.kind).signal s := by
  cases callee <;> first | rfl | contradiction

theorem twinCalls_callWith {enter : Closure → List Value → Store → Run Value}
    (henter : ∀ closure closure' args args' s t,
      closure.seen numbered = closure'.seen numbered →
      args.map (Value.seen numbered) = args'.map (Value.seen numbered) →
      s.Enclosed R → s.AgreeOn numbered R t → (Value.function closure).Within R →
      (∀ v ∈ args, v.Within R) →
      Twins (Like numbered) numbered R (enter closure args s) (enter closure' args' t)) :
    TwinCalls numbered R (callWith enter) := by
  intro callee callee' args args' s t hcallee hargs hs hst hwithin hargs'
  have hkind := hcallee.kind_eq
  by_cases hfunction : callee.kind = .function
  · obtain ⟨closure, rfl⟩ : ∃ closure, callee = .function closure := by
      cases callee <;> first | exact ⟨_, rfl⟩ | cases hfunction
    obtain ⟨closure', rfl⟩ : ∃ closure, callee' = .function closure := by
      cases callee' <;> first | exact ⟨_, rfl⟩ | cases hkind
    have hclosure : closure.seen numbered = closure'.seen numbered := Value.function.inj hcallee
    obtain ⟨hparams, -, -⟩ := Closure.eq_of_seen hclosure
    have hcount : args.length = args'.length := by simpa using congrArg List.length hargs
    rw [callWith, callWith, hcount, hparams]
    split
    · exact henter closure closure' args args' s t hclosure hargs hs hst hwithin hargs'
    · exact ⟨rfl, hst⟩
  · by_cases hbuiltin : callee.kind = .builtin
    · obtain ⟨f, rfl⟩ : ∃ f, callee = .builtin f := by
        cases callee <;> first | exact ⟨_, rfl⟩ | cases hbuiltin
      obtain ⟨g, rfl⟩ : ∃ g, callee' = .builtin g := by
        cases callee' <;> first | exact ⟨_, rfl⟩ | cases hkind
      cases hcallee
      refine ⟨?_, hst⟩
      rw [Like, Builtin.seen_apply, Builtin.seen_apply, hargs]
    · rw [callWith_of_kind hfunction hbuiltin,
        callWith_of_kind (hkind ▸ hfunction) (hkind ▸ hbuiltin), hkind]
      exact ⟨rfl, hst⟩

theorem alike_scope {closure closure' : Closure} {args args' : List Value}
    (hclosure : closure.seen numbered = closure'.seen numbered)
    (hargs : args.map (Value.seen numbered) = args'.map (Value.seen numbered)) :
    (closure.scope args).Alike numbered (closure'.scope args') := by
  obtain ⟨hparams, -, hframe⟩ := Closure.eq_of_seen hclosure
  rw [Closure.scope, Closure.scope, hparams, hframe]
  exact Frame.Alike.setAll ⟨rfl, fun _ => rfl⟩ hargs

/-- Entering the same function with the same arguments ends alike.  The induction is on how deep
calls may nest. -/
theorem twins_enter (depth : Nat) {closure closure' : Closure} {args args' : List Value}
    {s t : Store} (hclosure : closure.seen numbered = closure'.seen numbered)
    (hargs : args.map (Value.seen numbered) = args'.map (Value.seen numbered))
    (hs : s.Enclosed R) (hst : s.AgreeOn numbered R t)
    (hwithin : (Value.function closure).Within R) (hargs' : ∀ v ∈ args, v.Within R) :
    Twins (Like numbered) numbered R (enter depth closure args s)
      (enter depth closure' args' t) := by
  induction depth generalizing closure closure' args args' s t with
  | zero => trivial
  | succ depth ih =>
      have hnext : R s.frames.size := hs.2 _ (Nat.le_refl _)
      obtain ⟨-, hbody, -⟩ := Closure.eq_of_seen hclosure
      have htwin : TwinCalls numbered R (callWith (enter depth)) :=
        twinCalls_callWith fun _ _ _ _ _ _ hc ha hs hst hw ha' => ih hc ha hs hst hw ha'
      have hnull : Like numbered .null .null := rfl
      have hblock := twins_block hnext (delivers_enter hnext depth) htwin closure.body hnull
        (hs.alloc_scope hwithin hargs') (hst.alloc (alike_scope hclosure hargs))
      rw [enter, enter, ← hbody]
      change Twins _ numbered R
        ((Stmt.evalBlock _ s.frames.size closure.body .null _).map Value.arrived)
        ((Stmt.evalBlock _ t.frames.size closure.body .null _).map Value.arrived)
      rw [← hst.1]
      exact hblock.map fun _ _ hvw => hvw.arrived

theorem twinCalls_call (depth : Nat) : TwinCalls numbered R (Value.call depth) :=
  twinCalls_callWith fun _ _ _ _ _ _ hc ha hs hst hw ha' => twins_enter depth hc ha hs hst hw ha'

end Calls

theorem twins_node (hframe : R frame) (depth : Nat) (node : Node) (hs : s.Enclosed R)
    (hst : s.AgreeOn numbered R t) :
    Twins (Like numbered) numbered R (node.eval depth frame s) (node.eval depth frame t) := by
  have hcall := delivers_enter hframe depth
  have htwin : TwinCalls numbered R (callWith (enter depth)) := twinCalls_call depth
  cases node with
  | program statements =>
      exact (twins_block hframe hcall htwin statements rfl hs hst).map fun _ _ hvw => hvw.arrived
  | block statements => exact twins_block hframe hcall htwin statements rfl hs hst
  | statement statement => exact twins_stmt hframe hcall htwin statement hs hst
  | expression expression => exact twins_expr hframe hcall htwin expression hs hst

end Twins

end Evaluation

/-- An evaluation that ends, if calls may nest deep enough. -/
def Node.Finishes (node : Node) (frame : FrameId) (store : Store) : Prop :=
  ∃ depth value after, node.eval depth frame store = .done value after

open Evaluation in
/-- Lexical scoping.  Let two stores have as many frames and agree on a closed set of them.  A
tree evaluated in a frame of the set finishes in one store exactly if it does in the other, with
the same result, and the stores agree afterwards on the set and on all new frames.  The same holds
of a call, whatever frame it is made from, if the function and its arguments lead only into the
set.  Agreement is about bindings and outer links.  Where it covers the labels by which functions
are told apart, `numbered`, the results are equal outright, and otherwise up to those labels. -/
theorem evaluation_depends_only_on_reachable_frames (numbered : Bool) (R : FrameId → Prop)
    (s t : Store) (hclosed : s.Closed R) (hagree : s.AgreeOn numbered R t) :
    (∀ (frame : FrameId) (node : Node), R frame →
      (node.Finishes frame s ↔ node.Finishes frame t) ∧
      ∀ depth, Twins (fun v w => v.seen numbered = w.seen numbered ∧ (numbered = true → v = w))
        numbered (fun i => R i ∨ s.frames.size ≤ i)
        (node.eval depth frame s) (node.eval depth frame t)) ∧
    ∀ (callee : Value) (args : List Value), callee.Within R → (∀ v ∈ args, v.Within R) →
      ∀ depth, Twins (fun v w => v.seen numbered = w.seen numbered ∧ (numbered = true → v = w))
        numbered (fun i => R i ∨ s.frames.size ≤ i)
        (Value.call depth callee args s) (Value.call depth callee args t) := by
  have hs := hclosed.enclosed
  have hst := hagree.enclosed
  constructor
  · intro frame node hframe
    have htwins (depth : Nat) := twins_node (.inl hframe) depth node hs hst
    refine ⟨?_, fun depth => (htwins depth).mono fun v w h => ⟨h, h.eq_of_numbered⟩⟩
    exact exists_congr fun depth => (htwins depth).finishes_iff
  · intro callee args hcallee hargs depth
    have hcall := twinCalls_call depth callee callee args args s t rfl rfl hs hst
      (hcallee.mono fun _ hi => .inl hi) fun v hv => (hargs v hv).mono fun _ hi => .inl hi
    exact hcall.mono fun v w h => ⟨h, h.eq_of_numbered⟩

/-- A function made in the first frame and called from the second does not see the second. -/
theorem call_does_not_see_its_caller :
    let f : Closure := ⟨⟨0, [], [.expr (.ident "x")]⟩, 0⟩
    let s : Store := ⟨#[⟨none, [("x", .integer 1)]⟩, ⟨some 0, [("x", .integer 2)]⟩]⟩
    let t : Store := ⟨#[⟨none, [("x", .integer 1)]⟩, ⟨none, [("y", .null)]⟩]⟩
    s.Closed (· = 0) ∧ s.AgreeOn true (· = 0) t ∧ (Value.function f).Within (· = 0) ∧
      ∃ s' t', Value.call 1 (.function f) [] s = .done (.integer 1) s' ∧
        Value.call 1 (.function f) [] t = .done (.integer 1) t' ∧
        s'.AgreeOn true (fun i => i = 0 ∨ 2 ≤ i) t' := by
  intro f s t
  have hclosed : s.Closed (· = 0) := by
    rintro i found rfl hfound
    change some ⟨none, [("x", .integer 1)]⟩ = some found at hfound
    cases hfound
    refine ⟨by simp, ?_⟩
    intro name value hvalue
    have hbinding := Frame.mem_bindings_of_get? hvalue
    simp only [List.mem_singleton, Prod.mk.injEq] at hbinding
    rw [hbinding.2]
    exact .integer 1
  have hagree : s.AgreeOn true (· = 0) t := by
    refine ⟨rfl, ?_⟩
    rintro i a b rfl ha hb
    cases ha
    cases hb
    exact ⟨rfl, fun _ => rfl⟩
  have hf : (Value.function f).Within (· = 0) := .function rfl
  have htwins := (evaluation_depends_only_on_reachable_frames true (· = 0) s t hclosed hagree).2
    (.function f) [] hf (by simp) 1
  exact ⟨hclosed, hagree, hf, _, _, rfl, rfl, htwins.2⟩

end ScriptLang
