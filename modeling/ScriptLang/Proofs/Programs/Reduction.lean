import Mathlib.Algebra.Ring.Int.Defs
import Mathlib.Algebra.Ring.Nat
import ScriptLang.Proofs.Evaluation.Rules

namespace ScriptLang.Reduction

section Text

/-- Two definitions: a fold of an array, and the sum of an array as a fold. -/
def source : String :=
  "let reduce = fn(arr, initial, f) \x7b
            let iter = fn(arr, result) \x7b
                if (len(arr) == 0) \x7b result \x7d else " ++
    "\x7b iter(rest(arr), f(result, first(arr))) \x7d
            \x7d;
            iter(arr, initial);
        \x7d;
        let sum = fn(arr) \x7b reduce(arr, 0, fn(initial, el) \x7b initial + el \x7d) \x7d;"

variable {ι : Type}

def isEmpty : Expr ι := .binary (.call (.ident "len") [.ident "arr"]) .eq (.int 0)

def combined : Expr ι :=
  .call (.ident "f") [.ident "result", .call (.ident "first") [.ident "arr"]]

def nextTurn : Expr ι := .call (.ident "iter") [.call (.ident "rest") [.ident "arr"], combined]

def iterBody : Block ι :=
  [.expr (.cond isEmpty [.expr (.ident "result")] (some [.expr nextTurn]))]

/-- The body of the fold, which makes the loop from a literal with this label. -/
def reduceBody (loop : ι) : Block ι :=
  [.bind "iter" (.fn loop ["arr", "result"] iterBody),
    .expr (.call (.ident "iter") [.ident "arr", .ident "initial"])]

def addBody : Block ι := [.expr (.binary (.ident "initial") .add (.ident "el"))]

/-- The body of the sum, which makes the function that adds from a literal with this label. -/
def sumBody (add : ι) : Block ι :=
  [.expr (.call (.ident "reduce") [.ident "arr", .int 0, .fn add ["initial", "el"] addBody])]

def program : Program :=
  [.bind "reduce" (.fn () ["arr", "initial", "f"] (reduceBody ())),
    .bind "sum" (.fn () ["arr"] (sumBody ()))]

set_option maxRecDepth 2000 in
theorem parse_source : Program.parse source = .ok program := by
  have hchars : source.toList = _ ++ _ :=
    String.toList_append.trans (congrArg₂ _ String.toList_ofList String.toList_ofList)
  have hreading : Reading.ofSource source = ⟨program, []⟩ := by
    rw [Reading.ofSource, hchars]
    decide +kernel
  rw [Program.parse, hreading]
  rfl

end Text

section Fold

variable {α β : Type} {acc : α → Value} {elem : β → Value} {op : α → β → α} {least depth : Nat}
  {s t base : Store} {frame : FrameId} {scopes : List Frame} {f : Value}

/-- In every store that still has the frames of `base`, calling `f` with an accumulator and an
element gives the next accumulator, if calls may nest as deep as given. -/
structure Combines (least : Nat) (base : Store) (f : Value) (acc : α → Value) (elem : β → Value)
    (op : α → β → α) : Prop where
  pos : 0 < least
  plain : f.isSignal = false
  acc_plain : ∀ a, (acc a).isSignal = false
  elem_plain : ∀ b, (elem b).isSignal = false
  call : ∀ depth ≥ least, ∀ s, base.Unchanged s → ∀ a b,
    ∃ t, Value.call depth f [acc a, elem b] s = .done (acc (op a b)) t

theorem Combines.mono (h : Combines least base f acc elem op) (hs : base.Unchanged s) :
    Combines least s f acc elem op :=
  { h with call := fun depth hdepth t ht => h.call depth hdepth t (hs.trans ht) }

theorem count_eq_zero_iff (n : Nat) : Builtin.count n = 0 ↔ n = 0 := by
  have hlt : min n Text.Decimal.largest < 2 ^ 63 :=
    Nat.lt_of_le_of_lt (Nat.min_le_right ..) (by decide)
  have hpos : 0 < Text.Decimal.largest := by decide
  rw [Builtin.count, ← Int64.toInt_inj, Int64.toInt_ofNat_of_lt hlt, Int64.toInt_zero]
  omega

theorem eval_isEmpty (depth : Nat) {vs : List Value} (hsees : s.Sees frame scopes)
    (harr : Store.seen? scopes "arr" = some (.array vs))
    (hlen : Store.seen? scopes "len" = none) :
    isEmpty.evalWith (Value.call depth) frame s = .done (.boolean vs.isEmpty) s := by
  have hargs : Expr.evalEach (Value.call depth) frame [.ident "arr"] s =
      .done (.ok [.array vs]) s :=
    Expr.evalEach_ident hsees harr rfl
  have hempty : (Builtin.count vs.length == 0) = vs.isEmpty := by
    rw [Bool.eq_iff_iff, beq_iff_eq, count_eq_zero_iff, List.length_eq_zero_iff, List.isEmpty_iff]
  have hcount := Expr.eval_call_builtin hsees rfl hlen hargs
  rw [← hempty]
  exact Expr.evalWith_binary_of_done .eq hcount rfl (Expr.evalWith_int 0) rfl

/-- The builtins that the fold uses are found under their names. -/
structure Unshadowed (scopes : List Frame) : Prop where
  len : Store.seen? scopes "len" = none
  first : Store.seen? scopes "first" = none
  rest : Store.seen? scopes "rest" = none

/-- A function that folds by calling itself, seen from the scope that it was made in. -/
structure Loops (base : Store) (scopes : List Frame) (iter : Closure) (f : Value) : Prop where
  params : iter.params = ["arr", "result"]
  body : iter.body = iterBody
  sees : base.Sees iter.frame scopes
  itself : Store.seen? scopes "iter" = some (.function iter)
  combiner : Store.seen? scopes "f" = some f
  builtins : Unshadowed scopes

namespace Loops

variable {iter : Closure}

theorem seen?_params (h : Loops base scopes iter f) (vs r : Value) :
    Store.seen? (iter.scope [vs, r] :: scopes) "arr" = some vs ∧
      Store.seen? (iter.scope [vs, r] :: scopes) "result" = some r := by
  rw [Store.seen?_cons, Store.seen?_cons, Closure.scope, h.params]
  exact ⟨rfl, rfl⟩

theorem seen?_eq (h : Loops base scopes iter f) (name : String) (hname : name ∉ ["arr", "result"])
    (values : List Value) :
    Store.seen? (iter.scope values :: scopes) name = Store.seen? scopes name :=
  Closure.seen?_scope (h.params ▸ hname) values scopes

theorem unshadowed (h : Loops base scopes iter f) (values : List Value) :
    Unshadowed (iter.scope values :: scopes) where
  len := (h.seen?_eq "len" (by simp) values).trans h.builtins.len
  first := (h.seen?_eq "first" (by simp) values).trans h.builtins.first
  rest := (h.seen?_eq "rest" (by simp) values).trans h.builtins.rest

/-- One turn of the loop: at the end of the array the accumulator is the result. -/
theorem call_succ (h : Loops base scopes iter f) (hs : base.Unchanged s)
    {vs : List Value} {r : Value}
    (hr : r.isSignal = false) :
    Value.call (depth + 1) (.function iter) [.array vs, r] s =
      if vs.isEmpty then .done r (s.alloc (iter.scope [.array vs, r])).2
      else (nextTurn.evalWith (Value.call depth) s.frames.size
        (s.alloc (iter.scope [.array vs, r])).2).map Value.arrived := by
  have hsees := (h.sees.of_unchanged hs).scope [.array vs, r]
  obtain ⟨harr, hresult⟩ := h.seen?_params (.array vs) r
  have htest := eval_isEmpty depth hsees harr (h.unshadowed _).len
  rw [Value.call_function (by simp [h.params]), h.body, iterBody, Stmt.evalBlock_single,
    Expr.evalWith_cond_of_done htest rfl, Value.isTruthy, Stmt.evalElse, Stmt.evalBlock_single,
    Stmt.evalBlock_single, Expr.evalWith_ident hsees hresult]
  cases vs.isEmpty with
  | true => exact congrArg (Run.done · _) (Value.arrived_of_plain hr)
  | false => rfl

theorem eval_combined (h : Loops base scopes iter f) (hf : Combines least base f acc elem op)
    {depth : Nat} (hdepth : least ≤ depth) (hs : base.Unchanged s) {a : α}
    {b : β} {vs : List Value}
    (hsees : s.Sees frame (iter.scope [.array (elem b :: vs), acc a] :: scopes)) :
    ∃ t, combined.evalWith (Value.call depth) frame s = .done (acc (op a b)) t ∧
      base.Unchanged t := by
  obtain ⟨harr, hresult⟩ := h.seen?_params (.array (elem b :: vs)) (acc a)
  have hfirst : (Expr.call (.ident "first") [.ident "arr"]).evalWith (Value.call depth) frame s =
      .done (elem b) s :=
    Expr.eval_call_builtin hsees rfl (h.unshadowed _).first
      (Expr.evalEach_ident hsees harr rfl)
  have hcallee : (Expr.ident "f").evalWith (Value.call depth) frame s = .done f s :=
    Expr.evalWith_ident hsees ((h.seen?_eq "f" (by simp) _).trans h.combiner)
  have hargs : Expr.evalEach (Value.call depth) frame
      [.ident "result", .call (.ident "first") [.ident "arr"]] s =
        .done (.ok [acc a, elem b]) s :=
    Expr.evalEach_cons_of_done (Expr.evalWith_ident hsees hresult) (hf.acc_plain a)
      (Expr.evalEach_cons_of_done hfirst (hf.elem_plain b) rfl)
  obtain ⟨t, ht⟩ := hf.call depth hdepth s hs a b
  have hunchanged := Evaluation.call_unchanged depth f [acc a, elem b] s
  rw [ht] at hunchanged
  refine ⟨t, ?_, hs.trans hunchanged.2⟩
  rw [combined, Expr.evalWith_call_of_done hcallee hf.plain hargs, ht]

theorem eval_nextTurn (h : Loops base scopes iter f) (hf : Combines least base f acc elem op)
    {depth : Nat} (hdepth : least ≤ depth) (hs : base.Unchanged s) {a : α}
    {b : β} {vs : List Value}
    (hsees : s.Sees frame (iter.scope [.array (elem b :: vs), acc a] :: scopes)) :
    ∃ t, nextTurn.evalWith (Value.call depth) frame s =
      Value.call depth (.function iter) [.array vs, acc (op a b)] t ∧ base.Unchanged t := by
  obtain ⟨harr, -⟩ := h.seen?_params (.array (elem b :: vs)) (acc a)
  obtain ⟨t, hcombined, hunchanged⟩ := h.eval_combined hf hdepth hs hsees
  have hrest : (Expr.call (.ident "rest") [.ident "arr"]).evalWith (Value.call depth) frame s =
      .done (.array vs) s :=
    Expr.eval_call_builtin hsees rfl (h.unshadowed _).rest
      (Expr.evalEach_ident hsees harr rfl)
  have hcallee : (Expr.ident "iter").evalWith (Value.call depth) frame s =
      .done (.function iter) s :=
    Expr.evalWith_ident hsees ((h.seen?_eq "iter" (by simp) _).trans h.itself)
  have hargs : Expr.evalEach (Value.call depth) frame
      [.call (.ident "rest") [.ident "arr"], combined] s =
        .done (.ok [.array vs, acc (op a b)]) t :=
    Expr.evalEach_cons_of_done hrest rfl
      (Expr.evalEach_cons_of_done hcombined (hf.acc_plain _) rfl)
  exact ⟨t, Expr.evalWith_call_of_done hcallee rfl hargs, hunchanged⟩

theorem call_eq_foldl (h : Loops base scopes iter f) (hf : Combines least base f acc elem op)
    (bs : List β) (a : α) (hdepth : bs.length + least ≤ depth) (hs : base.Unchanged s) :
    ∃ t, Value.call depth (.function iter) [.array (bs.map elem), acc a] s =
      .done (acc (bs.foldl op a)) t := by
  have hpos := hf.pos
  induction bs generalizing a depth s with
  | nil =>
      obtain ⟨depth, rfl⟩ : ∃ d, depth = d + 1 := Nat.exists_eq_succ_of_ne_zero (by omega)
      exact ⟨_, h.call_succ hs (hf.acc_plain a)⟩
  | cons b bs ih =>
      obtain ⟨depth, rfl⟩ : ∃ d, depth = d + 1 := Nat.exists_eq_succ_of_ne_zero (by omega)
      have hleft : bs.length + least ≤ depth := by
        rw [List.length_cons] at hdepth
        omega
      have hs' := hs.trans (.alloc s (iter.scope [.array (elem b :: bs.map elem), acc a]))
      have hsees := (h.sees.of_unchanged hs).scope [.array (elem b :: bs.map elem), acc a]
      obtain ⟨t, hnext, ht⟩ := h.eval_nextTurn hf (by omega : least ≤ depth) hs' hsees
      obtain ⟨u, hu⟩ := ih (op a b) hleft ht
      refine ⟨u, (h.call_succ hs (hf.acc_plain a)).trans ?_⟩
      rw [List.map_cons, List.isEmpty_cons, if_neg Bool.false_ne_true, hnext, hu]
      exact congrArg (Run.done · u) (Value.arrived_of_plain (hf.acc_plain _))

end Loops

/-- The function that is made of the loop in a scope.  Likewise for the other three. -/
def loop (frame : FrameId) (label : Label) : Closure :=
  ⟨⟨label, ["arr", "result"], iterBody⟩, frame⟩

def fold (frame : FrameId) (label : Label) : Closure :=
  ⟨⟨label, ["arr", "initial", "f"], reduceBody (label + 1)⟩, frame⟩

/-- A call of the fold makes the loop in the scope of the call, and then calls the loop. -/
theorem evalBlock_reduceBody (label : Label) (hsees : s.Sees frame scopes)
    (hbuiltins : Unshadowed scopes) {vs : List Value} {r f : Value} (hr : r.isSignal = false) :
    ∃ made chain iter, Loops made chain iter f ∧ s.Unchanged made ∧ ∀ depth,
      Stmt.evalBlock (Value.call depth) s.frames.size (fold frame label).body .null
        (s.alloc ((fold frame label).scope [.array vs, r, f])).2 =
      Value.call depth (.function iter) [.array vs, r] made := by
  have hscope : (s.alloc ((fold frame label).scope [.array vs, r, f])).2.Sees s.frames.size _ :=
    hsees.scope _
  have hmade := hscope.set "iter" (.function (loop s.frames.size (label + 1)))
  refine ⟨_, _, loop s.frames.size (label + 1),
    ⟨rfl, rfl, hmade, ?_, ?_, ?_⟩, ?_, fun depth => ?_⟩
  · rfl
  · rfl
  · exact ⟨hbuiltins.len, hbuiltins.first, hbuiltins.rest⟩
  · exact (Store.Unchanged.alloc s _).set (Nat.le_refl _) _ _
  · rw [fold, reduceBody, Stmt.evalBlock_bind_of_done (Expr.evalWith_fn ..) rfl,
      Stmt.evalBlock_single]
    exact Expr.evalWith_call_of_done (Expr.evalWith_ident hmade rfl) rfl
      (Expr.evalEach_cons_of_done (Expr.evalWith_ident hmade rfl) rfl
        (Expr.evalEach_ident hmade rfl hr))

theorem call_fold (label : Label) (hsees : s.Sees frame scopes)
    (hbuiltins : Unshadowed scopes) (hf : Combines least s f acc elem op) (bs : List β) (a : α)
    (hdepth : bs.length + least < depth) :
    ∃ t, Value.call depth (.function (fold frame label)) [.array (bs.map elem), acc a, f] s =
      .done (acc (bs.foldl op a)) t := by
  obtain ⟨depth, rfl⟩ : ∃ d, depth = d + 1 := Nat.exists_eq_succ_of_ne_zero (by omega)
  obtain ⟨made, chain, iter, hloops, hmade, hbody⟩ :=
    evalBlock_reduceBody label hsees hbuiltins (hf.acc_plain a)
  obtain ⟨t, ht⟩ := hloops.call_eq_foldl (hf.mono hmade) bs a (Nat.le_of_lt_succ hdepth)
    fun _ _ => rfl
  exact ⟨t, Value.call_function_of_done rfl ((hbody depth).trans ht) (hf.acc_plain _)⟩

end Fold

section Sum

variable {depth : Nat} {s base : Store} {frame : FrameId} {scopes : List Frame}

def add (frame : FrameId) (label : Label) : Closure :=
  ⟨⟨label, ["initial", "el"], addBody⟩, frame⟩

def sum (frame : FrameId) (label : Label) : Closure :=
  ⟨⟨label, ["arr"], sumBody (label + 1)⟩, frame⟩

theorem combines_add (hsees : base.Sees frame scopes) (label : Label) :
    Combines 1 base (.function (add frame label)) .integer .integer (· + ·) where
  pos := Nat.one_pos
  plain := rfl
  acc_plain _ := rfl
  elem_plain _ := rfl
  call depth hdepth s hs a b := by
    obtain ⟨depth, rfl⟩ := Nat.exists_eq_succ_of_ne_zero (Nat.ne_of_gt hdepth)
    have hscope : (s.alloc ((add frame label).scope [.integer a, .integer b])).2.Sees
        s.frames.size _ := (hsees.of_unchanged hs).scope _
    have hinitial : (Expr.ident "initial").evalWith (Value.call depth) s.frames.size _ =
        .done (.integer a) _ := Expr.evalWith_ident hscope rfl
    have hel : (Expr.ident "el").evalWith (Value.call depth) s.frames.size _ =
        .done (.integer b) _ := Expr.evalWith_ident hscope rfl
    have hbody := Expr.evalWith_binary_of_done .add hinitial rfl hel rfl
    exact ⟨_, Value.call_function_of_done rfl ((Stmt.evalBlock_single _ _ _).trans hbody) rfl⟩

theorem call_sum (hsees : s.Sees frame scopes) {label : Label}
    (hreduce : Store.seen? scopes "reduce" = some (.function (fold frame label)))
    (hbuiltins : Unshadowed scopes) (xs : List Int64) (hdepth : xs.length + 3 ≤ depth)
    (own : Label) : ∃ t,
    Value.call depth (.function (sum frame own)) [.array (xs.map .integer)] s =
      .done (.integer (xs.foldl (· + ·) 0)) t := by
  obtain ⟨depth, rfl⟩ : ∃ d, depth = d + 1 := Nat.exists_eq_succ_of_ne_zero (by omega)
  have hscope : (s.alloc ((sum frame own).scope [.array (xs.map .integer)])).2.Sees
      s.frames.size _ := hsees.scope _
  have hopened := Store.Unchanged.alloc s ((sum frame own).scope [.array (xs.map .integer)])
  obtain ⟨t, ht⟩ := call_fold label (hsees.of_unchanged hopened) hbuiltins
    (combines_add hscope (own + 1)) xs 0 (by omega : xs.length + 1 < depth)
  have hcallee : (Expr.ident "reduce").evalWith (Value.call depth) s.frames.size _ =
      .done (.function (fold frame label)) _ := Expr.evalWith_ident hscope hreduce
  have harr : (Expr.ident "arr").evalWith (Value.call depth) s.frames.size _ =
      .done (.array (xs.map .integer)) _ := Expr.evalWith_ident hscope rfl
  have hargs : Expr.evalEach (Value.call depth) s.frames.size
      [.ident "arr", .int 0, .fn (own + 1) ["initial", "el"] addBody] _ = .done (.ok _) _ :=
    Expr.evalEach_cons_of_done harr rfl (Expr.evalEach_cons_of_done (Expr.evalWith_int 0) rfl
      (Expr.evalEach_cons_of_done (Expr.evalWith_fn ..) rfl rfl))
  refine ⟨t, Value.call_function_of_done rfl ((Stmt.evalBlock_single _ _ _).trans ?_) rfl⟩
  exact (Expr.evalWith_call_of_done hcallee rfl hargs).trans ht

theorem toInt_foldl_add (xs : List Int64) (a : Int64) :
    (xs.foldl (· + ·) a).toInt = (a.toInt + (xs.map Int64.toInt).sum).bmod (2 ^ 64) := by
  induction xs generalizing a with
  | nil => simp
  | cons x xs ih =>
      rw [List.foldl_cons, ih, Int64.toInt_add, Int.bmod_add_bmod, List.map_cons, List.sum_cons,
        Int.add_assoc]

end Sum

section Session

def globals : Frame :=
  { outer := none
    bindings := [("sum", .function (sum 0 2)), ("reduce", .function (fold 0 0))] }

/-- The session in which the two functions have been defined. -/
def defined : Session := ⟨⟨#[globals]⟩, 0, 4⟩

theorem step?_source (depth : Nat) :
    Session.start.step? depth (.text source) = some (.ok (.function (sum 0 2)), defined) :=
  Session.step?_of_block parse_source rfl rfl

/-- The names that the definitions look up in the global scope. -/
def used : List String := ["reduce", "sum", "len", "first", "rest"]

/-- The session in which then an array of integers has been bound to a name. -/
def bound (name : String) (xs : List Int64) : Session :=
  { defined with store := defined.store.set defined.frame name (.array (xs.map .integer)) }

/-- Summing up an array that is bound to a name, in any spelling: if calls may nest deep enough,
the result is the sum of the elements modulo `2 ^ 64`, and nothing that was there has changed. -/
def SumsUp (name : String) (xs : List Int64) : Prop :=
  ∀ text, Program.parse text = .ok [.expr (.call (.ident "sum") [.ident name])] →
    ∃ enough, ∀ depth ≥ enough, ∃ n after,
      (bound name xs).step? depth (.text text) = some (.ok (.integer n), after) ∧
        n.toInt = (xs.map Int64.toInt).sum.bmod (2 ^ 64) ∧
        (bound name xs).store.Unchanged after.store

variable {name : String} {xs : List Int64}

theorem seen?_bound (hname : name ∉ used) {other : String} (hother : other ∈ used) (v : Value) :
    Store.seen? [globals.set name v] other = globals.get? other := by
  have hne : other ≠ name := by
    rintro rfl
    exact hname hother
  rw [Store.seen?_cons, Frame.get?_set, if_neg hne]
  exact Option.or_none

theorem sumsUp_of_not_mem (hname : name ∉ used) (xs : List Int64) : SumsUp name xs := by
  intro text hparse
  refine ⟨xs.length + 3, fun depth hdepth => ?_⟩
  have hsees : (bound name xs).store.Sees 0 [globals.set name (.array (xs.map .integer))] :=
    Store.Sees.set (.outermost rfl rfl) name _
  have hseen {other : String} (hother : other ∈ used) :=
    seen?_bound hname hother (.array (xs.map .integer))
  have hbuiltins : Unshadowed [globals.set name (.array (xs.map .integer))] :=
    ⟨hseen (by simp [used]), hseen (by simp [used]), hseen (by simp [used])⟩
  obtain ⟨t, ht⟩ := call_sum hsees (hseen (by simp [used])) hbuiltins xs hdepth 2
  have hcallee : (Expr.ident "sum").evalWith (Value.call depth) 0 (bound name xs).store =
      .done (.function (sum 0 2)) (bound name xs).store :=
    Expr.evalWith_ident hsees (hseen (by simp [used]))
  have harray : Store.seen? [globals.set name (.array (xs.map .integer))] name =
      some (.array (xs.map .integer)) := by
    rw [Store.seen?_cons, Frame.get?_set, if_pos rfl]
    rfl
  have hrun := Expr.evalWith_call_of_done hcallee rfl (Expr.evalEach_ident hsees harray rfl)
  have hunchanged := Evaluation.call_unchanged depth (.function (sum 0 2))
    [.array (xs.map .integer)] (bound name xs).store
  rw [ht] at hunchanged
  refine ⟨xs.foldl (· + ·) 0, ⟨t, 0, 4⟩, ?_, ?_, hunchanged.2⟩
  · exact Session.step?_of_block hparse ((Stmt.evalBlock_single _ _ _).trans (hrun.trans ht)) rfl
  · rw [toInt_foldl_add, Int64.toInt_zero, Int.zero_add]

theorem not_sumsUp_of_fault {message : String} (text : String)
    (hparse : Program.parse text = .ok [.expr (.call (.ident "sum") [.ident name])])
    (hfault : ∀ depth, ∃ t, Block.eval (depth + 3) (bound name xs).frame
      [.expr (.call (.ident "sum") [.ident name])] (bound name xs).store =
        .done (.error message) t) :
    ¬ SumsUp name xs := by
  intro h
  obtain ⟨enough, h⟩ := h text hparse
  obtain ⟨n, after, hstep, -⟩ := h (enough + 3) (Nat.le_add_right ..)
  obtain ⟨t, ht⟩ := hfault enough
  rw [Session.step?_of_fault hparse ht] at hstep
  cases hstep

theorem not_sumsUp_of_mem (hname : name ∈ used) : ¬ SumsUp name [1, 2] := by
  simp only [used, List.mem_cons, List.not_mem_nil, or_false] at hname
  rcases hname with rfl | rfl | rfl | rfl | rfl
  · exact not_sumsUp_of_fault "sum(reduce)" (by decide +kernel) fun _ => ⟨_, rfl⟩
  · exact not_sumsUp_of_fault "sum(sum)" (by decide +kernel) fun _ => ⟨_, rfl⟩
  · exact not_sumsUp_of_fault "sum(len)" (by decide +kernel) fun _ => ⟨_, rfl⟩
  · exact not_sumsUp_of_fault "sum(first)" (by decide +kernel) fun _ => ⟨_, rfl⟩
  · exact not_sumsUp_of_fault "sum(rest)" (by decide +kernel) fun _ => ⟨_, rfl⟩

/-- After the definitions, `sum` of a name sums up every array that the name is bound to, unless
the name is one that the definitions use. -/
theorem sums_up_arrays_of_unused_names :
    (∀ depth, Session.start.step? depth (.text source) =
      some (.ok (.function (sum 0 2)), defined)) ∧
      ∀ name, (∀ xs, SumsUp name xs) ↔ name ∉ used := by
  refine ⟨step?_source, fun name => ⟨?_, sumsUp_of_not_mem⟩⟩
  intro h hname
  exact not_sumsUp_of_mem hname (h [1, 2])

theorem sums_up_past_largest :
    ∃ enough, ∀ depth ≥ enough, ∃ after, (bound "xs" [9223372036854775807, 1]).step? depth
      (.text "sum(xs)") = some (.ok (.integer (-9223372036854775808)), after) ∧
        (bound "xs" [9223372036854775807, 1]).store.Unchanged after.store := by
  obtain ⟨enough, h⟩ := (sums_up_arrays_of_unused_names.2 "xs").mpr (by decide)
    [9223372036854775807, 1] "sum(xs)" (by decide +kernel)
  refine ⟨enough, fun depth hdepth => ?_⟩
  obtain ⟨n, after, hstep, hn, hafter⟩ := h depth hdepth
  obtain rfl : n = -9223372036854775808 := Int64.toInt_inj.mp (hn.trans (by decide))
  exact ⟨after, hstep, hafter⟩

/-- An array that is bound to `len` is not summed up. -/
theorem not_sums_up_array_named_len :
    (∀ depth, ∃ after, (bound "len" [1, 2]).step? (depth + 3) (.text "sum(len)") =
      some (.error (.fault "not a function: ARRAY"), after)) ∧ ¬ ∀ name xs, SumsUp name xs := by
  have hparse : Program.parse "sum(len)" = .ok [.expr (.call (.ident "sum") [.ident "len"])] := by
    decide +kernel
  constructor
  · intro depth
    exact ⟨_, Session.step?_of_fault hparse rfl⟩
  · intro h
    exact not_sumsUp_of_mem (by decide) (h "len" [1, 2])

end Session

end ScriptLang.Reduction
