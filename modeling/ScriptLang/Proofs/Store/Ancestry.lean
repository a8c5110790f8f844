import Mathlib.Logic.Relation
import ScriptLang.Proofs.Evaluation.Rules
import ScriptLang.Proofs.Value.Names

namespace ScriptLang

/-- Every function in the value, however deep, was made in one of the first `size` frames. -/
def Value.MadeBelow (size : Nat) (value : Value) : Prop :=
  ∀ closure ∈ value.functions, closure.frame < size

namespace Store

/-- Every outer link leads to an older frame, and every function that is bound anywhere was made
in a frame of the store. -/
structure Grounded (store : Store) : Prop where
  outer_lt : ∀ (i : FrameId) (found : Frame) (outer : FrameId),
    store.frames[i]? = some found → found.outer = some outer → outer < i
  bound : store.Bound (Value.MadeBelow store.frames.size)

/-- All frames of `s` are in `t`, with the same outer links. -/
def KeepsLinks (s t : Store) : Prop :=
  ∀ (i : FrameId) (found : Frame), s.frames[i]? = some found →
    ∃ later : Frame, t.frames[i]? = some later ∧ later.outer = found.outer

/-- The walk outward from a frame in search of a name ends, with a value or without. -/
inductive Finds (store : Store) (name : String) : FrameId → Option Value → Prop where
  | here {frame found value} (h : store.frames[frame]? = some found)
      (hvalue : found.get? name = some value) : Finds store name frame (some value)
  | nowhere {frame found} (h : store.frames[frame]? = some found) (hnone : found.get? name = none)
      (houter : found.outer = none) : Finds store name frame none
  | outward {frame found outer result} (h : store.frames[frame]? = some found)
      (hnone : found.get? name = none) (houter : found.outer = some outer)
      (hresult : Finds store name outer result) : Finds store name frame result

/-- The function is part of a value that is bound somewhere. -/
def Holds (store : Store) (closure : Closure) : Prop :=
  ∃ found ∈ store.frames, ∃ binding ∈ found.bindings, closure ∈ binding.2.functions

/-- What can be done to a store from outside.  Values are made from frames that are there, and
evaluations and calls have to end. -/
inductive Step (s : Store) : Store → Prop where
  | root : Step s (s.alloc (.within none)).2
  | child {outer : FrameId} (houter : outer < s.frames.size) :
      Step s (s.alloc (.within (some outer))).2
  | set {frame : FrameId} {value : Value} (name : String) (hframe : frame < s.frames.size)
      (hvalue : value.MadeBelow s.frames.size) : Step s (s.set frame name value)
  | eval {depth : Nat} {frame : FrameId} {node : Node} {result : Value} {t : Store}
      (hframe : frame < s.frames.size)
      (heval : node.eval depth frame s = .done result t) : Step s t
  | call {depth : Nat} {closure : Closure} {args : List Value} {result : Value} {t : Store}
      (hclosure : s.Holds closure) (hargs : ∀ v ∈ args, v.MadeBelow s.frames.size)
      (hcall : Value.call depth (.function closure) args s = .done result t) : Step s t

def Reachable (store : Store) : Prop :=
  Relation.ReflTransGen Step Session.start.store store

end Store

section Values

variable {size : Nat}

theorem Value.MadeBelow.mono {larger : Nat} {value : Value} (h : value.MadeBelow size)
    (hsize : size ≤ larger) : value.MadeBelow larger := by
  intro closure hclosure
  exact Nat.lt_of_lt_of_le (h closure hclosure) hsize

theorem Value.madeBelow_function {closure : Closure} :
    (Value.function closure).MadeBelow size ↔ closure.frame < size := by
  simp [Value.MadeBelow, Value.functions]

theorem Value.madeBelow_of_functions_eq_nil {value : Value} (h : value.functions = []) :
    value.MadeBelow size := by
  simp [Value.MadeBelow, h]

theorem Value.MadeBelow.of_outgoing {value : Value} (h : value.Outgoing (Value.MadeBelow size)) :
    value.MadeBelow size := by
  rcases h with (h | ⟨message, rfl⟩) | ⟨inner, rfl, hinner⟩
  · exact h
  · exact madeBelow_of_functions_eq_nil rfl
  · exact hinner

end Values

namespace Store

variable {s t u : Store} {frame : FrameId}

namespace KeepsLinks

theorem refl (s : Store) : s.KeepsLinks s :=
  fun _ found hfound => ⟨found, hfound, rfl⟩

theorem trans (hst : s.KeepsLinks t) (htu : t.KeepsLinks u) : s.KeepsLinks u := by
  intro i found hfound
  obtain ⟨later, hlater, houter⟩ := hst i found hfound
  obtain ⟨last, hlast, houter'⟩ := htu i later hlater
  exact ⟨last, hlast, houter'.trans houter⟩

theorem size_le (h : s.KeepsLinks t) : s.frames.size ≤ t.frames.size := by
  apply Nat.le_of_not_lt
  intro hlt
  obtain ⟨later, hlater, -⟩ := h t.frames.size _ (Array.getElem?_eq_getElem hlt)
  simp at hlater

theorem set (s : Store) (frame : FrameId) (name : String) (value : Value) :
    s.KeepsLinks (s.set frame name value) := by
  intro i found hfound
  rw [set_frames, Array.getElem?_modify]
  split
  · exact ⟨found.set name value, by rw [hfound]; rfl, rfl⟩
  · exact ⟨found, hfound, rfl⟩

theorem alloc (s : Store) (scope : Frame) : s.KeepsLinks (s.alloc scope).2 := by
  intro i found hfound
  obtain ⟨hi, -⟩ := Array.getElem?_eq_some_iff.mp hfound
  exact ⟨found, (Unchanged.alloc s scope i hi).trans hfound, rfl⟩

end KeepsLinks

namespace Grounded

theorem empty : Store.empty.Grounded :=
  ⟨by simp [Store.empty], .empty⟩

theorem set {value : Value} (h : s.Grounded) (hvalue : value.MadeBelow s.frames.size)
    (frame : FrameId) (name : String) : (s.set frame name value).Grounded where
  outer_lt i found outer hfound houter := by
    rw [set_frames, Array.getElem?_modify] at hfound
    split at hfound
    · obtain ⟨old, hold, rfl⟩ := Option.map_eq_some_iff.mp hfound
      exact h.outer_lt i old outer hold houter
    · exact h.outer_lt i found outer hfound houter
  bound := by
    have hsize : (s.set frame name value).frames.size = s.frames.size := by simp
    rw [hsize]
    exact h.bound.set hvalue frame name

theorem alloc {scope : Frame} (h : s.Grounded)
    (houter : ∀ outer, scope.outer = some outer → outer < s.frames.size)
    (hbound : scope.Bound (Value.MadeBelow s.frames.size)) : (s.alloc scope).2.Grounded where
  outer_lt i found outer hfound hlink := by
    rw [Store.alloc_frames, Array.getElem?_push] at hfound
    split at hfound
    · rename_i hi
      cases hfound
      exact hi ▸ houter outer hlink
    · exact h.outer_lt i found outer hfound hlink
  bound := by
    refine (h.bound.alloc hbound).mono fun v hv => ?_
    exact hv.mono (by simp)

theorem start : Session.start.store.Grounded :=
  empty.alloc (by simp [Frame.within]) (.within none)

theorem exists_sees (h : s.Grounded) (hframe : frame < s.frames.size) :
    ∃ scopes, s.Sees frame scopes := by
  induction frame using Nat.strongRecOn with
  | ind frame ih =>
      have hfound := Array.getElem?_eq_getElem hframe
      cases houter : s.frames[frame].outer with
      | none => exact ⟨_, .outermost hfound houter⟩
      | some outer =>
          have hlt := h.outer_lt frame _ outer hfound houter
          obtain ⟨scopes, hscopes⟩ := ih outer hlt (Nat.lt_trans hlt hframe)
          exact ⟨_, .within hfound houter hlt hscopes⟩

end Grounded

theorem Sees.finds {scopes : List Frame} (h : s.Sees frame scopes) (name : String) :
    s.Finds name frame (seen? scopes name) := by
  induction h with
  | @outermost frame found h houter =>
      rw [seen?_cons]
      cases hvalue : found.get? name with
      | none => exact .nowhere h hvalue houter
      | some value => exact .here h hvalue
  | @within frame found outer scopes h houter _ _ ih =>
      rw [seen?_cons]
      cases hvalue : found.get? name with
      | none => exact .outward h hvalue houter ih
      | some value => exact .here h hvalue

theorem Grounded.finds (h : s.Grounded) (hframe : frame < s.frames.size) (name : String) :
    s.Finds name frame (s.lookup? frame name) := by
  obtain ⟨scopes, hscopes⟩ := h.exists_sees hframe
  rw [hscopes.lookup?_eq]
  exact hscopes.finds name

end Store

namespace Evaluation

theorem grounded_invariant (frame : FrameId) :
    Invariant frame (fun _ => True) (fun s => s.Grounded ∧ frame < s.frames.size)
      Store.KeepsLinks fun s => Value.MadeBelow s.frames.size where
  refl := .refl
  trans hst htu := hst.trans htu
  mono hst hv := hv.mono hst.size_le
  lookup hs hfound := hs.1.bound.lookup hfound
  set name s v hs hv := by
    exact ⟨⟨hs.1.set hv frame name, by simpa using hs.2⟩, .set s frame name v⟩
  function hs _ := Value.madeBelow_function.mpr hs.2
  integer _ _ := Value.madeBelow_of_functions_eq_nil rfl
  boolean _ _ := Value.madeBelow_of_functions_eq_nil rfl
  string _ _ := Value.madeBelow_of_functions_eq_nil rfl
  null _ := Value.madeBelow_of_functions_eq_nil rfl
  builtin _ _ := Value.madeBelow_of_functions_eq_nil rfl
  array := Value.forall_functions_array
  emptyHash _ := Value.madeBelow_of_functions_eq_nil rfl
  insert hentries hkey hvalue _ := by
    refine Value.forall_functions_hash.mpr ?_
    exact Value.forall_mem_insertEntry (Value.forall_functions_hash.mp hentries) ⟨hkey, hvalue⟩
  filed hentries hentry := (Value.forall_functions_hash.mp hentries _ hentry).2

/-- What an evaluation begun in a grounded store leaves behind. -/
def GroundedEnd (s : Store) (value : Value) (t : Store) : Prop :=
  t.Grounded ∧ s.KeepsLinks t ∧ value.MadeBelow t.frames.size

theorem delivers_grounded (frame : FrameId) {enter : Closure → List Value → Store → Run Value}
    (henter : ∀ {closure args} {s : Store}, s.Grounded → closure.frame < s.frames.size →
      (∀ v ∈ args, v.MadeBelow s.frames.size) → (enter closure args s).Ends (GroundedEnd s)) :
    Delivers (fun s => s.Grounded ∧ frame < s.frames.size) Store.KeepsLinks
      (fun s => Value.MadeBelow s.frames.size) (callWith enter) := by
  apply (grounded_invariant frame).delivers
  intro closure args s hs hclosure hargs _
  apply (henter hs.1 (Value.madeBelow_function.mp hclosure) hargs).mono
  rintro value t ⟨ht, hlinks, hvalue⟩
  exact ⟨⟨ht, Nat.lt_of_lt_of_le hs.2 hlinks.size_le⟩, hlinks, .inl hvalue⟩

theorem enter_grounded (depth : Nat) {closure : Closure} {args : List Value} {s : Store}
    (hs : s.Grounded) (hclosure : closure.frame < s.frames.size)
    (hargs : ∀ v ∈ args, v.MadeBelow s.frames.size) :
    (enter depth closure args s).Ends (GroundedEnd s) := by
  induction depth generalizing closure args s with
  | zero => trivial
  | succ depth ih =>
      have hscope : (s.alloc (closure.scope args)).2.Grounded := by
        apply hs.alloc
        · intro outer houter
          rw [Closure.scope, Frame.outer_setAll] at houter
          cases houter
          exact hclosure
        · exact .scope (some closure.frame) closure.params hargs
      have inv := grounded_invariant s.frames.size
      have hbody := inv.block (delivers_grounded _ ih) closure.body (fun _ _ => trivial)
        (.inl (.inl (inv.null _)))
        ⟨hscope, by simp⟩
      apply hbody.map
      rintro value t ⟨ht, hlinks, hvalue⟩
      refine ⟨ht.1, (Store.KeepsLinks.alloc s _).trans hlinks, ?_⟩
      exact .of_outgoing (.inl (hvalue.arrived fun _ h => h))

theorem call_grounded (depth : Nat) {closure : Closure} {args : List Value} {s : Store}
    (hs : s.Grounded) (hclosure : closure.frame < s.frames.size)
    (hargs : ∀ v ∈ args, v.MadeBelow s.frames.size) :
    (Value.call depth (.function closure) args s).Ends (GroundedEnd s) := by
  rw [Value.call, callWith]
  split
  · exact enter_grounded depth hs hclosure hargs
  · exact ⟨hs, .refl s, .of_outgoing (.inl (Fault.delivered _ _))⟩

theorem node_grounded (depth : Nat) {frame : FrameId} (node : Node) {s : Store} (hs : s.Grounded)
    (hframe : frame < s.frames.size) : (node.eval depth frame s).Ends (GroundedEnd s) := by
  have hcall := delivers_grounded frame (enter_grounded depth)
  apply ((grounded_invariant frame).node (fun _ _ h => h) hcall node (fun _ _ => trivial)
    ⟨hs, hframe⟩).mono
  rintro value t ⟨ht, hlinks, hvalue⟩
  exact ⟨ht.1, hlinks, .of_outgoing hvalue⟩

end Evaluation

namespace Store

variable {s t : Store}

theorem Step.grounded (h : s.Step t) (hs : s.Grounded) : t.Grounded ∧ s.KeepsLinks t := by
  cases h with
  | root => exact ⟨hs.alloc (by simp [Frame.within]) (.within none), .alloc s _⟩
  | child houter =>
      refine ⟨hs.alloc ?_ (.within _), .alloc s _⟩
      rintro _ ⟨⟩
      exact houter
  | set name hframe hvalue =>
      exact ⟨hs.set hvalue _ name, .set s _ name _⟩
  | @eval depth frame node result t hframe heval =>
      have hends := Evaluation.node_grounded depth node hs hframe
      rw [heval] at hends
      exact ⟨hends.1, hends.2.1⟩
  | @call depth closure args result t hclosure hargs hcall =>
      obtain ⟨found, hfound, binding, hbinding, hmem⟩ := hclosure
      have hframe := hs.bound found hfound binding hbinding closure hmem
      have hends := Evaluation.call_grounded depth hs hframe hargs
      rw [hcall] at hends
      exact ⟨hends.1, hends.2.1⟩

theorem steps_grounded (h : Relation.ReflTransGen Step s t) (hs : s.Grounded) :
    t.Grounded ∧ s.KeepsLinks t := by
  induction h with
  | refl => exact ⟨hs, .refl s⟩
  | tail _ hstep ih =>
      obtain ⟨hmid, hlinks⟩ := ih
      obtain ⟨hlast, hlinks'⟩ := hstep.grounded hmid
      exact ⟨hlast, hlinks.trans hlinks'⟩

/-- Chains of scopes are grounded.  In every store that a new one can become, outer links lead to
older frames and stay the same whatever is done later, and functions were made in frames that are
there.  Hence every look-up comes to an end, and what it comes to is what `lookup?` gives.
Evaluations give values made from frames that are there, so that these may be bound in turn. -/
theorem reachable_chains_are_grounded {s : Store} (h : s.Reachable) :
    s.Grounded ∧
    (∀ t, Relation.ReflTransGen Step s t → s.KeepsLinks t) ∧
    (∀ frame < s.frames.size, ∀ name, s.Finds name frame (s.lookup? frame name)) ∧
    ∀ depth, ∀ frame < s.frames.size, ∀ node : Node, (node.eval depth frame s).Ends fun value t =>
      value.MadeBelow t.frames.size := by
  obtain ⟨hs, -⟩ := steps_grounded h .start
  refine ⟨hs, ?_, ?_, ?_⟩
  · intro t ht
    exact (steps_grounded ht hs).2
  · intro frame hframe name
    exact hs.finds hframe name
  · intro depth frame hframe node
    exact (Evaluation.node_grounded depth node hs hframe).mono fun _ _ hend => hend.2.2

/-- A scope binds a function that was made in it, and the function is called with itself.  The
look-up from the scope of the call goes outward once. -/
theorem circular_binding_is_grounded : ∃ s : Store, s.Reachable ∧ s.frames.size = 2 ∧ s.Grounded ∧
    s.Finds "f" 1 (some (.function ⟨⟨0, ["x"], [.expr (.ident "f")]⟩, 0⟩)) := by
  obtain ⟨s, heval, hsize, hlookup⟩ : ∃ s, Node.eval 1 0 (.program
      [.bind "f" (.fn 0 ["x"] [.expr (.ident "f")]), .expr (.call (.ident "f") [.ident "f"])])
        Session.start.store = .done (.function ⟨⟨0, ["x"], [.expr (.ident "f")]⟩, 0⟩) s ∧
      s.frames.size = 2 ∧
      s.lookup? 1 "f" = some (.function ⟨⟨0, ["x"], [.expr (.ident "f")]⟩, 0⟩) :=
    ⟨_, rfl, rfl, rfl⟩
  have hreach : s.Reachable := .single (.eval (Nat.zero_lt_one) heval)
  obtain ⟨hgrounded, -, hfinds, -⟩ := reachable_chains_are_grounded hreach
  refine ⟨s, hreach, hsize, hgrounded, ?_⟩
  rw [← hlookup]
  exact hfinds 1 (by omega) "f"

end Store

end ScriptLang
