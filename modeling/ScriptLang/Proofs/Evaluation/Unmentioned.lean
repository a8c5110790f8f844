import ScriptLang.Proofs.Evaluation.Lockstep

namespace ScriptLang

/-- The frame `b` is `a`, except that `x` has the extra value in it if there is one. -/
structure Frame.Gains (x : String) (extra : Option Value) (a b : Frame) : Prop where
  outer : b.outer = a.outer
  bindings : ∀ name, b.get? name = if name = x then extra.or (a.get? x) else a.get? name

/-- The store `t` is `s`, except that `x` is bound to `v` in the frame `g`. -/
structure Store.Gains (g : FrameId) (x : String) (v : Value) (s t : Store) : Prop where
  bound : g < s.frames.size
  size_eq : t.frames.size = s.frames.size
  frames : ∀ (i : FrameId) (a b : Frame), s.frames[i]? = some a → t.frames[i]? = some b →
    a.Gains x (if i = g then some v else none) b

section Frames

variable {x : String} {extra : Option Value} {a b : Frame}

namespace Frame.Gains

theorem refl (a : Frame) : a.Gains x none a where
  outer := rfl
  bindings name := by
    split
    · rename_i hname
      rw [hname, Option.none_or]
    · rfl

theorem get?_eq (h : a.Gains x extra b) {name : String} (hname : name ≠ x) :
    b.get? name = a.get? name := by
  rw [h.bindings, if_neg hname]

theorem set (h : a.Gains x extra b) {name : String} (hname : name ≠ x) (value : Value) :
    (a.set name value).Gains x extra (b.set name value) where
  outer := h.outer
  bindings other := by
    rw [Frame.get?_set, Frame.get?_set, Frame.get?_set, if_neg (Ne.symm hname), h.bindings]
    by_cases hother : other = x
    · have hne : other ≠ name := fun heq => hname (heq.symm.trans hother)
      rw [if_neg hne, if_pos hother, if_pos hother]
    · rw [if_neg hother, if_neg hother]

end Frame.Gains

namespace Frame.Avoids

theorem set (h : a.Avoids x) {value : Value} (hvalue : value.Avoids x) (name : String) :
    (a.set name value).Avoids x := by
  intro other bound hbound
  rw [Frame.get?_set] at hbound
  split at hbound
  · cases hbound
    exact hvalue
  · exact h other bound hbound

theorem setAll {new : List (String × Value)} (h : a.Avoids x)
    (hnew : ∀ binding ∈ new, binding.2.Avoids x) : (a.setAll new).Avoids x := by
  induction new generalizing a with
  | nil => exact h
  | cons binding new ih =>
      rw [List.forall_mem_cons] at hnew
      exact ih (h.set hnew.1 binding.1) hnew.2

theorem scope {closure : Closure} {args : List Value} (hargs : ∀ value ∈ args, value.Avoids x) :
    (closure.scope args).Avoids x := by
  apply setAll
  · intro name value hvalue
    simp [Frame.within, Frame.get?] at hvalue
  · intro binding hbinding
    exact hargs _ (List.of_mem_zip hbinding).2

end Frame.Avoids

end Frames

theorem Store.gains_set {s : Store} {g : FrameId} (hg : g < s.frames.size)
    (x : String) (v : Value) :
    s.Gains g x v (s.set g x v) where
  bound := hg
  size_eq := by simp
  frames i a b ha hb := by
    rw [Store.set_frames, Array.getElem?_modify, ha] at hb
    by_cases hi : i = g
    · rw [if_pos hi.symm] at hb
      cases hb
      refine ⟨rfl, fun name => ?_⟩
      rw [Frame.get?_set, if_pos hi, Option.some_or]
    · rw [if_neg (Ne.symm hi)] at hb
      cases hb
      rw [if_neg hi]
      exact .refl a

/-- Two stores side by side: nothing in the first one mentions `x`, and the second one differs
from it by a binding of `x`. -/
structure Store.Beside (g : FrameId) (x : String) (v : Value) (s t : Store) : Prop where
  avoids : s.Avoids x
  gains : s.Gains g x v t

namespace Store.Beside

variable {g frame : FrameId} {x : String} {v : Value} {s t : Store}

theorem cases (h : s.Beside g x v t) (i : FrameId) :
    (s.frames[i]? = none ∧ t.frames[i]? = none) ∨
      ∃ a b, s.frames[i]? = some a ∧ t.frames[i]? = some b ∧ a.Avoids x ∧
        a.Gains x (if i = g then some v else none) b := by
  obtain ⟨havoids, -, hsize, hframes⟩ := h
  by_cases hlt : i < s.frames.size
  · have hs := Array.getElem?_eq_getElem hlt
    have ht := Array.getElem?_eq_getElem (hsize.symm ▸ hlt)
    exact .inr ⟨_, _, hs, ht, havoids i _ hs, hframes i _ _ hs ht⟩
  · refine .inl ⟨?_, ?_⟩
    · exact Array.getElem?_eq_none (Nat.le_of_not_lt hlt)
    · exact Array.getElem?_eq_none (hsize.symm ▸ Nat.le_of_not_lt hlt)

theorem set (h : s.Beside g x v t) {name : String} (hname : name ≠ x) {value : Value}
    (hvalue : value.Avoids x) (frame : FrameId) :
    (s.set frame name value).Beside g x v (t.set frame name value) := by
  have hframes (i : FrameId) (a : Frame) (ha : (s.set frame name value).frames[i]? = some a) :
      a.Avoids x ∧ ∀ b, (t.set frame name value).frames[i]? = some b →
        a.Gains x (if i = g then some v else none) b := by
    rw [Store.set_frames, Array.getElem?_modify] at ha
    rw [Store.set_frames, Array.getElem?_modify]
    by_cases hframe : frame = i
    · rw [if_pos hframe] at ha ⊢
      obtain ⟨a', ha', rfl⟩ := Option.map_eq_some_iff.mp ha
      refine ⟨(h.avoids i a' ha').set hvalue name, ?_⟩
      intro b hb
      obtain ⟨b', hb', rfl⟩ := Option.map_eq_some_iff.mp hb
      exact (h.gains.frames i a' b' ha' hb').set hname value
    · rw [if_neg hframe] at ha ⊢
      exact ⟨h.avoids i a ha, fun b => h.gains.frames i a b ha⟩
  refine ⟨fun i a ha => (hframes i a ha).1, ?_, ?_, fun i a b ha => (hframes i a ha).2 b⟩
  · simpa using h.gains.bound
  · simpa using h.gains.size_eq

theorem alloc (h : s.Beside g x v t) {scope : Frame} (hscope : scope.Avoids x) :
    (s.alloc scope).2.Beside g x v (t.alloc scope).2 := by
  have hbound := h.gains.bound
  have hsize := h.gains.size_eq
  have hframes (i : FrameId) (a : Frame) (ha : (s.alloc scope).2.frames[i]? = some a) :
      a.Avoids x ∧ ∀ b, (t.alloc scope).2.frames[i]? = some b →
        a.Gains x (if i = g then some v else none) b := by
    rw [Store.alloc_frames, Array.getElem?_push] at ha
    rw [Store.alloc_frames, Array.getElem?_push, hsize]
    by_cases hlast : i = s.frames.size
    · rw [if_pos hlast] at ha ⊢
      cases ha
      refine ⟨hscope, ?_⟩
      rintro b ⟨⟩
      have hnew : i ≠ g := Nat.ne_of_gt (hlast ▸ hbound)
      rw [if_neg hnew]
      exact .refl scope
    · rw [if_neg hlast] at ha ⊢
      exact ⟨h.avoids i a ha, fun b => h.gains.frames i a b ha⟩
  refine ⟨fun i a ha => (hframes i a ha).1, ?_, ?_, fun i a b ha => (hframes i a ha).2 b⟩
  · simpa using Nat.lt_succ_of_lt hbound
  · simpa using hsize

theorem lookupWithin (h : s.Beside g x v t) {name : String} (hname : name ≠ x) (steps : Nat)
    (frame : FrameId) : t.lookupWithin name steps frame = s.lookupWithin name steps frame ∧
      ∀ value, s.lookupWithin name steps frame = some value → value.Avoids x := by
  induction steps generalizing frame with
  | zero => simp [Store.lookupWithin]
  | succ steps ih =>
      rw [Store.lookupWithin, Store.lookupWithin]
      obtain ⟨hs, ht⟩ | ⟨a, b, hs, ht, ha, hab⟩ := h.cases frame
      · simp [hs, ht]
      · rw [hs, ht]
        dsimp only
        rw [hab.get?_eq hname, hab.outer]
        cases hfound : a.get? name with
        | some value =>
            refine ⟨rfl, ?_⟩
            rintro found ⟨⟩
            exact ha name value hfound
        | none =>
            dsimp only
            cases a.outer with
            | none => simp
            | some outer => exact ih outer

theorem resolve (h : s.Beside g x v t) {name : String} (hname : name ≠ x) (frame : FrameId) :
    s.resolve frame name = t.resolve frame name ∧ (s.resolve frame name).Avoids x := by
  obtain ⟨hsame, hfound⟩ := h.lookupWithin hname s.frames.size frame
  rw [Store.resolve, Store.resolve, Store.lookup?, Store.lookup?, h.gains.size_eq, hsame]
  refine ⟨rfl, ?_⟩
  split
  · rename_i value hvalue
    exact hfound value hvalue
  · split
    · exact Value.avoids_of_functions_eq_nil rfl
    · exact Value.avoids_signal _

end Store.Beside

/-- Evaluations in stores side by side stay in step as long as `x` is not mentioned. -/
theorem Evaluation.lockstep_beside (g : FrameId) (x : String) (v : Value) :
    Lockstep (· ≠ x) (Store.Beside g x v) (Value.Avoids x) where
  size_eq hst := hst.gains.size_eq.symm
  resolve frame hst hname := hst.resolve hname frame
  set frame hst hname hvalue := hst.set hname hvalue frame
  function hnames := Value.avoids_function.mpr fun hx => hnames x hx rfl
  scope hst hargs := hst.alloc (Frame.Avoids.scope hargs)
  body hclosure name hname := by
    rintro rfl
    exact Value.avoids_function.mp hclosure (List.mem_append_right _ hname)
  values frame := avoids_invariant x frame
  returned := Value.avoids_returned
  error _ := Value.avoids_of_functions_eq_nil rfl

/-- A binding of a name that nothing mentions changes nothing.  If an evaluation finishes, then
with the name bound in some frame in addition it finishes with the same result, and with the store
it had without the binding, but for the binding. -/
theorem unmentioned_binding_changes_nothing {x : String} {node : Node} (hnode : x ∉ node.names)
    {s : Store} (hs : s.Avoids x) {g : FrameId} {v : Value} {t : Store} (ht : s.Gains g x v t)
    {depth : Nat} {frame : FrameId} {result : Value} {s' : Store}
    (heval : node.eval depth frame s = .done result s') :
    ∃ t', node.eval depth frame t = .done result t' ∧ s'.Gains g x v t' := by
  have hnames : ∀ name ∈ node.names, name ≠ x := by
    rintro name hname rfl
    exact hnode hname
  have hfollows := (Evaluation.lockstep_beside g x v).node (Nat.le_refl depth) frame node hnames
    ⟨hs, ht⟩
  rw [heval] at hfollows
  obtain hdeep | ⟨value, u, t', hrun, hrun', -, hst⟩ := hfollows
  · cases hdeep
  · cases hrun
    exact ⟨t', hrun', hst.gains⟩

/-- A function that is in the store calls itself, and a name is bound in the frame in which the
function was made. -/
theorem unmentioned_binding_beside_recursion :
    let f : Closure := ⟨⟨0, ["n"], [.expr (.cond (.ident "n")
      [.expr (.call (.ident "f") [.bool false])] (some [.expr (.ident "n")]))]⟩, 0⟩
    let s : Store := ⟨#[⟨none, [("f", .function f)]⟩]⟩
    let node : Node := .statement (.bind "y" (.call (.ident "f") [.bool true]))
    ∃ s' t', node.eval 2 0 s = .done (.boolean false) s' ∧
      node.eval 2 0 (s.set 0 "x" .null) = .done (.boolean false) t' ∧
        s'.Gains 0 "x" .null t' := by
  intro f s node
  have hs : s.Avoids "x" := by
    intro i found hfound
    obtain ⟨hi, rfl⟩ := Array.getElem?_eq_some_iff.mp hfound
    obtain rfl : i = 0 := Nat.lt_one_iff.mp hi
    intro name value hvalue
    have hbinding : (name, value) ∈ [("f", Value.function f)] := Frame.mem_bindings_of_get? hvalue
    cases List.mem_singleton.mp hbinding
    exact Value.avoids_function.mpr (by decide)
  obtain ⟨s', heval⟩ : ∃ s', node.eval 2 0 s = .done (.boolean false) s' := ⟨_, rfl⟩
  obtain ⟨t', heval', hgains⟩ :=
    unmentioned_binding_changes_nothing (by decide)
      hs (Store.gains_set Nat.one_pos "x" .null) heval
  exact ⟨s', t', heval, heval', hgains⟩

end ScriptLang
