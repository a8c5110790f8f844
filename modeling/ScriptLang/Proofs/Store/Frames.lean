import ScriptLang.Store

namespace ScriptLang

namespace Frame

theorem mem_bindings_set {frame : Frame} {name : String} {value : Value}
    {binding : String × Value} (h : binding ∈ (frame.set name value).bindings) :
    binding = (name, value) ∨ binding ∈ frame.bindings := by
  simp only [set, List.mem_cons, List.mem_filter] at h
  exact h.imp id And.left

theorem mem_bindings_setAll {frame : Frame} {new : List (String × Value)}
    {binding : String × Value} (h : binding ∈ (frame.setAll new).bindings) :
    binding ∈ new ∨ binding ∈ frame.bindings := by
  induction new generalizing frame with
  | nil => exact .inr h
  | cons first others ih =>
      rcases ih h with h | h
      · exact .inl (List.mem_cons_of_mem _ h)
      · rcases mem_bindings_set h with rfl | h
        · exact .inl List.mem_cons_self
        · exact .inr h

theorem mem_bindings_of_get? {frame : Frame} {name : String} {value : Value}
    (h : frame.get? name = some value) : (name, value) ∈ frame.bindings := by
  obtain ⟨before, behind, heq, -⟩ := List.lookup_eq_some_iff.mp h
  simp [heq]

theorem lookup_filter_ne {name other : String} (h : other ≠ name)
    (bindings : List (String × Value)) :
    (bindings.filter fun binding => binding.1 != name).lookup other = bindings.lookup other := by
  induction bindings with
  | nil => rfl
  | cons binding bindings ih =>
      by_cases hname : binding.1 = name
      · rw [List.filter_cons_of_neg (by simp [hname]), ih, List.lookup_cons, hname,
          beq_false_of_ne h]
      · rw [List.filter_cons_of_pos (by simp [hname]), List.lookup_cons, List.lookup_cons, ih]

/-- The last binding of a name counts, and other names keep theirs. -/
theorem get?_set (frame : Frame) (name other : String) (value : Value) :
    (frame.set name value).get? other =
      if other = name then some value else frame.get? other := by
  by_cases h : other = name
  · simp [get?, set, h]
  · rw [if_neg h, get?, get?, set, List.lookup_cons, beq_false_of_ne h]
    exact lookup_filter_ne h frame.bindings

end Frame

namespace Store

@[simp] theorem set_frames (store : Store) (frame : FrameId) (name : String) (value : Value) :
    (store.set frame name value).frames =
      store.frames.modify frame fun found => found.set name value := rfl

@[simp] theorem alloc_frames (store : Store) (frame : Frame) :
    (store.alloc frame).2.frames = store.frames.push frame := rfl

theorem forall_mem_modify {frames : Array Frame} {P : Frame → Prop} {f : Frame → Frame}
    {frame : FrameId} (h : ∀ found ∈ frames, P found) (hf : ∀ found, P found → P (f found)) :
    ∀ found ∈ frames.modify frame f, P found := by
  intro found hfound
  obtain ⟨i, hi⟩ := Array.mem_iff_getElem?.mp hfound
  rw [Array.getElem?_modify] at hi
  split at hi
  · obtain ⟨old, hold, rfl⟩ := Option.map_eq_some_iff.mp hi
    exact hf old (h old (Array.mem_of_getElem? hold))
  · exact h found (Array.mem_of_getElem? hi)

theorem mem_bindings_of_lookupWithin {store : Store} {name : String} {value : Value} {steps : Nat}
    {frame : FrameId} (h : store.lookupWithin name steps frame = some value) :
    ∃ found ∈ store.frames, (name, value) ∈ found.bindings := by
  induction steps generalizing frame with
  | zero => cases h
  | succ steps ih =>
      rw [lookupWithin] at h
      split at h
      · cases h
      · rename_i found hfound
        split at h
        · rename_i here hhere
          cases h
          exact ⟨found, Array.mem_of_getElem? hfound, Frame.mem_bindings_of_get? hhere⟩
        · obtain ⟨outer, -, houter⟩ := Option.bind_eq_some_iff.mp h
          exact ih houter

theorem mem_bindings_of_lookup? {store : Store} {name : String} {value : Value} {frame : FrameId}
    (h : store.lookup? frame name = some value) :
    ∃ found ∈ store.frames, (name, value) ∈ found.bindings :=
  mem_bindings_of_lookupWithin h

end Store

section Bound

/-- Every value bound in a frame has the property. -/
def Frame.Bound (P : Value → Prop) (frame : Frame) : Prop :=
  ∀ binding ∈ frame.bindings, P binding.2

/-- Every value bound in any frame has the property. -/
def Store.Bound (P : Value → Prop) (store : Store) : Prop :=
  ∀ frame ∈ store.frames, frame.Bound P

variable {P Q : Value → Prop} {store : Store} {value : Value}

namespace Frame.Bound

theorem within (outer : Option FrameId) : (Frame.within outer).Bound P := by
  intro binding hbinding
  simp [Frame.within] at hbinding

theorem set {frame : Frame} (h : frame.Bound P) (hvalue : P value) (name : String) :
    (frame.set name value).Bound P := by
  intro binding hbinding
  rcases Frame.mem_bindings_set hbinding with rfl | hold
  · exact hvalue
  · exact h binding hold

/-- The scope of a call binds nothing but arguments. -/
theorem scope (outer : Option FrameId) (params : List String) {args : List Value}
    (h : ∀ v ∈ args, P v) : ((Frame.within outer).setAll (params.zip args)).Bound P := by
  intro binding hbinding
  rcases Frame.mem_bindings_setAll hbinding with hnew | hold
  · exact h _ (List.of_mem_zip hnew).2
  · exact within outer binding hold

end Frame.Bound

namespace Store.Bound

theorem mono (h : store.Bound P) (hPQ : ∀ v, P v → Q v) : store.Bound Q := by
  intro frame hframe binding hbinding
  exact hPQ _ (h frame hframe binding hbinding)

theorem empty : Store.empty.Bound P := by
  intro frame hframe
  simp [Store.empty] at hframe

theorem set (h : store.Bound P) (hvalue : P value) (frame : FrameId) (name : String) :
    (store.set frame name value).Bound P := by
  rw [Store.Bound, Store.set_frames]
  apply Store.forall_mem_modify h
  intro found hfound
  exact hfound.set hvalue name

theorem alloc (h : store.Bound P) {frame : Frame} (hframe : frame.Bound P) :
    (store.alloc frame).2.Bound P := by
  intro found hfound
  rw [Store.alloc_frames] at hfound
  rcases Array.mem_push.mp hfound with hold | rfl
  · exact h found hold
  · exact hframe

theorem lookup (h : store.Bound P) {frame : FrameId} {name : String}
    (hfound : store.lookup? frame name = some value) : P value := by
  obtain ⟨found, hmem, hbinding⟩ := Store.mem_bindings_of_lookup? hfound
  exact h found hmem _ hbinding

end Store.Bound

end Bound

end ScriptLang
