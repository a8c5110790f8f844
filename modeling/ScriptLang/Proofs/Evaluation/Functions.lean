import ScriptLang.Proofs.Evaluation.Filing
import ScriptLang.Proofs.Program.Labels
import ScriptLang.Proofs.Value.Outlines
import ScriptLang.Value.Printer

/-!
The functions that evaluations make, and what can be seen of values that are the same.

A function is told by the label of its literal and by its scope.  All function literals that have
been read have labels of their own, and evaluations make functions from these literals only, so
two functions with one label have the same parameters and the same body.  Among values made from
such functions, nothing that looks at values can tell those apart that are the same.
-/

namespace ScriptLang

theorem Closure.eq_of_toLambda_eq {f g : Closure} (hliteral : f.toLambda = g.toLambda)
    (hframe : f.frame = g.frame) : f = g := by
  cases f
  cases g
  exact congrArg₂ Closure.mk hliteral hframe

namespace Value

variable {known more : List (Lambda Label)} {v w : Value}

/-- Every function in the value was made from a literal on the list. -/
def MadeFrom (known : List (Lambda Label)) (value : Value) : Prop :=
  ∀ closure ∈ value.functions, closure.toLambda ∈ known

theorem MadeFrom.mono (h : v.MadeFrom known) (hmore : known ⊆ more) : v.MadeFrom more :=
  fun closure hclosure => hmore (h closure hclosure)

theorem madeFrom_function {closure : Closure} :
    (function closure).MadeFrom known ↔ closure.toLambda ∈ known := by
  simp [MadeFrom, functions]

theorem MadeFrom.of_outgoing (h : v.Outgoing (MadeFrom known)) : v.MadeFrom known := by
  rcases h with (h | ⟨message, rfl⟩) | ⟨inner, rfl, hinner⟩
  · exact h
  · exact nofun
  · exact hinner

theorem Part.functions_subset (h : v.Part w) : v.functions ⊆ w.functions := by
  induction h with
  | self => exact List.Subset.refl _
  | @element elements u hu _ ih =>
      intro f hf
      exact forall_functions_array.mp (fun _ h => h) u hu f (ih hf)
  | @key entries entry hentry _ ih =>
      intro f hf
      exact (forall_functions_hash.mp (fun _ h => h) entry hentry).1 f (ih hf)
  | @value entries entry hentry _ ih =>
      intro f hf
      exact (forall_functions_hash.mp (fun _ h => h) entry hentry).2 f (ih hf)
  | returned _ ih => exact ih

end Value

/-- What is evaluated makes functions from its own literals and from those in the bodies of the
functions that it calls. -/
theorem Evaluation.madeFrom_lasting {known : List (Lambda Label)} (h : Lambda.Whole known) :
    Lasting (· ∈ known) (Value.MadeFrom known) where
  integer _ := nofun
  boolean _ := nofun
  string _ := nofun
  null := nofun
  function _ hknown := Value.madeFrom_function.mpr hknown
  body hclosure _ hl := h _ (Value.madeFrom_function.mp hclosure) hl
  builtin _ := nofun
  array := Value.forall_functions_array
  emptyHash := nofun
  insert hentries hkey hvalue _ := by
    refine Value.forall_functions_hash.mpr ?_
    exact Value.forall_mem_insertEntry (Value.forall_functions_hash.mp hentries) ⟨hkey, hvalue⟩
  filed hentries hentry := (Value.forall_functions_hash.mp hentries _ hentry).2
  returned _ hv := hv

/-- What has been produced from nothing, step by step: the function literals that were read, the
store that evaluations left, and the values that are at hand.  A program can be read at any time.
Any tree made of literals that were read can be evaluated in a scope that is there, as often as
one likes, and a value at hand can be called, bound or taken apart. -/
inductive Produced : List (Lambda Label) → Store → List Value → Prop
  | start : Produced [] .empty []
  | read {known : List (Lambda Label)} {s : Store} {vs : List Value} (h : Produced known s vs)
      (program : Program) : Produced (known ++ (program.labelled known.length).lambdas) s vs
  | scope {known : List (Lambda Label)} {s : Store} {vs : List Value} (h : Produced known s vs)
      (outer : Option FrameId) : Produced known (s.alloc (.within outer)).2 vs
  | tree {known : List (Lambda Label)} {s t : Store} {vs : List Value} {v : Value} {depth : Nat}
      {frame : FrameId} {node : Node} (h : Produced known s vs) (hframe : frame < s.frames.size)
      (hnode : node.lambdas ⊆ known) (heval : node.eval depth frame s = .done v t) :
      Produced known t (v :: vs)
  | call {known : List (Lambda Label)} {s t : Store} {vs args : List Value} {callee v : Value}
      {depth : Nat} (h : Produced known s vs) (hcallee : callee ∈ vs) (hargs : args ⊆ vs)
      (heval : Value.call depth callee args s = .done v t) : Produced known t (v :: vs)
  | bind {known : List (Lambda Label)} {s : Store} {vs : List Value} {v : Value}
      (h : Produced known s vs) (hv : v ∈ vs) (frame : FrameId) (name : String) :
      Produced known (s.set frame name v) vs
  | part {known : List (Lambda Label)} {s : Store} {vs : List Value} {v w : Value}
      (h : Produced known s vs) (hw : w ∈ vs) (hpart : v.Part w) : Produced known s (v :: vs)

namespace Produced

variable {known : List (Lambda Label)} {s : Store} {vs : List Value}

theorem numbered (h : Produced known s vs) : Lambda.Numbered known := by
  induction h with
  | start => exact .nil
  | read _ program ih => exact ih.read program
  | scope | tree | call | bind | part => assumption

/-- A property that lasts, whatever has been read so far, is one of all that is bound or at
hand. -/
theorem bound_and_forall {Known : List (Lambda Label) → Lambda Label → Prop}
    {P : List (Lambda Label) → Value → Prop}
    (hlasting : ∀ {known}, Lambda.Numbered known → Evaluation.Lasting (Known known) (P known))
    (hknown : ∀ {known l}, l ∈ known → Known known l)
    (hmore : ∀ {known more v}, P known v → P (known ++ more) v)
    (hout : ∀ {known v}, v.Outgoing (P known) → P known v)
    (hpart : ∀ {known v w}, P known w → v.Part w → P known v) (h : Produced known s vs) :
    s.Bound (P known) ∧ ∀ v ∈ vs, P known v := by
  induction h with
  | start => exact ⟨.empty, nofun⟩
  | read _ program ih => exact ⟨ih.1.mono fun _ => hmore, fun v hv => hmore (ih.2 v hv)⟩
  | scope _ outer ih => exact ⟨ih.1.alloc (.within outer), ih.2⟩
  | @tree known _ _ _ v depth frame node h _ hnode heval ih =>
      have hends := (hlasting h.numbered).node depth frame node
        (fun l hl => hknown (hnode hl)) ih.1
      rw [heval] at hends
      exact ⟨hends.1, List.forall_mem_cons.mpr ⟨hout hends.2, ih.2⟩⟩
  | @call known _ _ _ args callee v depth h hcallee hargs heval ih =>
      have hends := (hlasting h.numbered).call_delivers depth callee args _ ih.1
        (ih.2 callee hcallee) fun v hv => ih.2 v (hargs hv)
      rw [heval] at hends
      exact ⟨hends.1, List.forall_mem_cons.mpr ⟨hout (.inl hends.2.2), ih.2⟩⟩
  | bind _ hv frame name ih => exact ⟨ih.1.set (ih.2 _ hv) frame name, ih.2⟩
  | part _ hw hvw ih => exact ⟨ih.1, List.forall_mem_cons.mpr ⟨hpart (ih.2 _ hw) hvw, ih.2⟩⟩

theorem madeFrom (h : Produced known s vs) : ∀ v ∈ vs, v.MadeFrom known := by
  refine (h.bound_and_forall (fun hnumbered => Evaluation.madeFrom_lasting hnumbered.whole) id
    ?_ Value.MadeFrom.of_outgoing ?_).2
  · exact fun hv => hv.mono (List.subset_append_left _ _)
  · exact fun hw hpart closure hclosure => hw closure (hpart.functions_subset hclosure)

theorem wellFiled (h : Produced known s vs) : ∀ v ∈ vs, v.WellFiled :=
  (h.bound_and_forall (fun _ => Evaluation.wellFiled_lasting) (fun _ => trivial) id
    Value.WellFiled.of_outgoing Value.WellFiled.of_part).2

/-- Functions with one label come from one literal. -/
theorem toLambda_eq (h : Produced known s vs) {f g : Closure}
    (hf : f ∈ vs.flatMap Value.functions) (hg : g ∈ vs.flatMap Value.functions)
    (hlabel : f.label = g.label) :
    f.toLambda = g.toLambda := by
  obtain ⟨v, hv, hf⟩ := List.mem_flatMap.mp hf
  obtain ⟨w, hw, hg⟩ := List.mem_flatMap.mp hg
  exact h.numbered.eq_of_label_eq (h.madeFrom v hv f hf) (h.madeFrom w hw g hg) hlabel

theorem toldApart (h : Produced known s vs) : Closure.ToldApart (vs.flatMap Value.functions) := by
  intro f hf g hg hsame
  rw [Closure.same, Bool.and_eq_true, beq_iff_eq, beq_iff_eq] at hsame
  exact Closure.eq_of_toLambda_eq (h.toLambda_eq hf hg hsame.1) hsame.2

theorem eq_of_same (h : Produced known s vs) {a b : Value} (ha : a ∈ vs) (hb : b ∈ vs)
    (hsame : a.same b = true) : a = b := by
  have hfunctions {v : Value} (hv : v ∈ vs) : v.functions ⊆ vs.flatMap Value.functions :=
    fun f hf => List.mem_flatMap.mpr ⟨v, hv, hf⟩
  exact Value.eq_of_same h.toldApart a b hsame (hfunctions ha) (hfunctions hb)

section Sessions

variable {depth : Nat} {frame : FrameId} {outcome : Outcome} {after : Session}

theorem step? (h : Produced known s vs) (hframe : frame < s.frames.size) {input : Input}
    (hstep : Session.step? depth ⟨s, frame, known.length⟩ input = some (outcome, after)) :
    ∃ known' ws, Produced known' after.store ws ∧ vs ⊆ ws ∧ frame < after.store.frames.size ∧
      after = ⟨after.store, frame, known'.length⟩ ∧ ∀ v, outcome = .ok v → v ∈ ws := by
  obtain ⟨failure, -, rfl, rfl⟩ | ⟨program, value, t, -, heval, rfl, rfl⟩ :=
    Session.step?_cases hstep
  · exact ⟨known, vs, h, List.Subset.refl vs, hframe, rfl, nofun⟩
  · have hnode : (Node.program (program.labelled known.length)).eval depth frame s =
        .done value t := heval
    have hwritten := (writes_stay_in_frame depth s).1 frame
      (.program (program.labelled known.length))
    rw [hnode] at hwritten
    have hread := (h.read program).tree hframe (List.subset_append_right _ _) hnode
    refine ⟨_, value :: vs, hread, List.subset_cons_self value vs,
      Nat.lt_of_lt_of_le hframe hwritten.size_le, ?_, ?_⟩
    · rw [List.length_append, program.length_lambdas_labelled]
      rfl
    · intro v hv
      cases value <;> cases hv <;> exact List.mem_cons_self

/-- The values that come out of a session are produced, one after the other, with those from
before it. -/
theorem steps? (h : Produced known s vs) (hframe : frame < s.frames.size) {inputs : List Input}
    {outcomes : List Outcome}
    (hsteps : Session.steps? depth ⟨s, frame, known.length⟩ inputs = some (outcomes, after)) :
    ∃ known' ws, Produced known' after.store ws ∧ after.fresh = known'.length ∧ vs ⊆ ws ∧
      ∀ v, .ok v ∈ outcomes → v ∈ ws := by
  induction inputs generalizing known s vs outcomes with
  | nil =>
      cases hsteps
      exact ⟨known, vs, h, rfl, List.Subset.refl vs, nofun⟩
  | cons input inputs ih =>
      obtain ⟨outcome, next, others, hstep, hothers, rfl⟩ := Session.steps?_cases hsteps
      obtain ⟨known', ws, hws, hkept, hframe', hnext, hout⟩ := h.step? hframe hstep
      rw [hnext] at hothers
      obtain ⟨known'', us, hus, hfresh, hkept', hout'⟩ := ih hws hframe' hothers
      refine ⟨known'', us, hus, hfresh, List.Subset.trans hkept hkept', fun v hv => ?_⟩
      rcases List.mem_cons.mp hv with hv | hv
      · exact hkept' (hout v hv.symm)
      · exact hout' v hv

end Sessions

end Produced

/-- Values that are the same look the same.  Sameness is an equivalence.  Among values that
evaluations have produced, functions with the label of one literal have the same parameters and
the same body, and values that are the same have one kind, count as true together, belong in one
slot and have one text.  Two hashes among them are the same exactly if they have as many entries
and every entry of the first is found in the second.  The values that come out of a session are
produced in this sense. -/
theorem same_values_look_the_same {known : List (Lambda Label)} {s : Store} {vs : List Value}
    (h : Produced known s vs) :
    Equivalence (fun v w : Value => v.same w = true) ∧
    (∀ f ∈ vs.flatMap Value.functions, ∀ g ∈ vs.flatMap Value.functions, f.label = g.label →
      f.params = g.params ∧ f.body = g.body) ∧
    (∀ a ∈ vs, ∀ b ∈ vs, a.same b = true → a.kind = b.kind ∧ a.isTruthy = b.isTruthy ∧
      a.hashKey? = b.hashKey? ∧ a.render = b.render) ∧
    (∀ as bs, .hash as ∈ vs → .hash bs ∈ vs → ((Value.hash as).same (.hash bs) = true ↔
      as.length = bs.length ∧ ∀ a ∈ as, ∃ b, Value.entryAt? bs a.slot = some b ∧
        a.key.same b.key = true ∧ a.value.same b.value = true)) ∧
    ∀ depth frame inputs outcomes after, frame < s.frames.size →
      Session.steps? depth ⟨s, frame, known.length⟩ inputs = some (outcomes, after) →
      ∃ known' ws, Produced known' after.store ws ∧ after.fresh = known'.length ∧ vs ⊆ ws ∧
        ∀ v, .ok v ∈ outcomes → v ∈ ws := by
  refine ⟨Value.same_equivalence, ?_, ?_, ?_, ?_⟩
  · intro f hf g hg hlabel
    have hliteral := h.toLambda_eq hf hg hlabel
    exact ⟨congrArg Lambda.params hliteral, congrArg Lambda.body hliteral⟩
  · intro a ha b hb hsame
    obtain rfl := h.eq_of_same ha hb hsame
    exact ⟨rfl, rfl, rfl, rfl⟩
  · intro as bs has hbs
    exact (h.wellFiled _ has as .self).same_iff (h.wellFiled _ hbs bs .self)
  · intro depth frame inputs outcomes after hframe hsteps
    exact h.steps? hframe hsteps

/-- One literal that is evaluated twice in one scope, in an array and in a hash. -/
theorem same_values_look_the_same_twice : ∃ known s v w, Produced known s [w, v] ∧
    v.same w = true ∧ v.kind = w.kind ∧ v.isTruthy = w.isTruthy ∧ v.hashKey? = w.hashKey? ∧
    v.render = w.render := by
  let program : Program := [.expr (.array [.fn () ["x"] [.expr (.ident "x")],
    .hash [(.int 1, .fn () ["x"] [.expr (.ident "x")])]])]
  have hread : Produced _ _ [] := (Produced.start.scope none).read program
  have hfirst : Produced _ _ [_] := hread.tree Nat.zero_lt_one (List.Subset.refl _)
    (show Node.eval 0 0 (.program (program.labelled 0)) _ = .done _ _ from rfl)
  have hsecond : Produced _ _ [_, _] := hfirst.tree Nat.zero_lt_one (List.Subset.refl _)
    (show Node.eval 0 0 (.program (program.labelled 0)) _ = .done _ _ from rfl)
  have hsame := (same_values_look_the_same hsecond).2.2.1 _
    (List.mem_cons_of_mem _ List.mem_cons_self) _ List.mem_cons_self rfl
  exact ⟨_, _, _, _, hsecond, rfl, hsame⟩

end ScriptLang
