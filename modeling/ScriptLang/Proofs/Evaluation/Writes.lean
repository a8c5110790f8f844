import ScriptLang.Proofs.Evaluation.Invariants
import ScriptLang.Proofs.Store.Frames

namespace ScriptLang

/-- A tree that can be evaluated on its own. -/
inductive Node where
  | program (statements : Program Label)
  | block (statements : Block Label)
  | statement (statement : Stmt Label)
  | expression (expression : Expr Label)

/-- Evaluates a tree in a frame. -/
def Node.eval (depth : Nat) (frame : FrameId) : Node → Store → Run Value
  | .program ss, store => Program.eval depth frame ss store
  | .block ss, store => Block.eval depth frame ss store
  | .statement s, store => s.eval depth frame store
  | .expression e, store => e.eval depth frame store

/-- The function literals of a tree. -/
def Node.lambdas : Node → List (Lambda Label)
  | .program ss => Program.lambdas ss
  | .block ss => Stmt.lambdasEach ss
  | .statement s => s.lambdas
  | .expression e => e.lambdas

/-- What is kept by the parts of a tree is kept when the tree is evaluated on its own. -/
theorem Evaluation.Invariant.node {depth : Nat} {frame : FrameId} {Known : Lambda Label → Prop}
    {Ready : Store → Prop} {R : Store → Store → Prop} {Good : Store → Value → Prop} {s : Store}
    (inv : Invariant frame Known Ready R Good)
    (hreturned : ∀ s v, Good s (.returned v) → Good s v)
    (hcall : Delivers Ready R Good (Value.call depth)) (node : Node)
    (hknown : ∀ l ∈ node.lambdas, Known l) (hs : Ready s) :
    (node.eval depth frame s).Ends (Kept Ready R Good s) := by
  cases node with
  | program statements =>
      apply (inv.block hcall statements hknown (.inl (.inl (inv.null s))) hs).map
      rintro value t ⟨ht, hst, hvalue⟩
      exact ⟨ht, hst, .inl (hvalue.arrived (hreturned t))⟩
  | block statements => exact inv.block hcall statements hknown (.inl (.inl (inv.null s))) hs
  | statement statement => exact inv.stmt hcall statement hknown hs
  | expression expression => exact inv.expr hcall expression hknown hs

/-- Every frame of `s` is the same in `t`. -/
def Store.Unchanged (s t : Store) : Prop :=
  ∀ i < s.frames.size, t.frames[i]? = s.frames[i]?

/-- Of the frames of `s`, only the one given may be another one in `t`.  It has the same scope
around it, and every name that was bound in it still is. -/
structure Store.WrittenIn (frame : FrameId) (s t : Store) : Prop where
  size_le : s.frames.size ≤ t.frames.size
  others : ∀ i < s.frames.size, i ≠ frame → t.frames[i]? = s.frames[i]?
  own : ∀ before, s.frames[frame]? = some before → ∃ after, t.frames[frame]? = some after ∧
    after.outer = before.outer ∧ ∀ name, (before.get? name).isSome → (after.get? name).isSome

namespace Store.WrittenIn

variable {frame : FrameId} {s t u : Store}

theorem of_unchanged (hsize : s.frames.size ≤ t.frames.size) (h : s.Unchanged t) :
    s.WrittenIn frame t where
  size_le := hsize
  others i hi _ := h i hi
  own before hbefore := by
    obtain ⟨hframe, -⟩ := Array.getElem?_eq_some_iff.mp hbefore
    exact ⟨before, (h frame hframe).trans hbefore, rfl, fun _ hbound => hbound⟩

theorem refl (s : Store) : s.WrittenIn frame s :=
  of_unchanged (Nat.le_refl _) fun _ _ => rfl

theorem trans (hst : s.WrittenIn frame t) (htu : t.WrittenIn frame u) : s.WrittenIn frame u where
  size_le := Nat.le_trans hst.size_le htu.size_le
  others i hi hne := by
    rw [htu.others i (Nat.lt_of_lt_of_le hi hst.size_le) hne]
    exact hst.others i hi hne
  own before hbefore := by
    obtain ⟨mid, hmid, houter, hbound⟩ := hst.own before hbefore
    obtain ⟨after, hafter, houter', hbound'⟩ := htu.own mid hmid
    exact ⟨after, hafter, houter'.trans houter, fun name h => hbound' name (hbound name h)⟩

theorem set (s : Store) (frame : FrameId) (name : String) (value : Value) :
    s.WrittenIn frame (s.set frame name value) where
  size_le := by simp
  others i _ hne := by rw [Store.set_frames, Array.getElem?_modify, if_neg (Ne.symm hne)]
  own before hbefore := by
    refine ⟨before.set name value, ?_, rfl, fun other hother => ?_⟩
    · rw [Store.set_frames, Array.getElem?_modify, if_pos rfl, hbefore]
      rfl
    · rw [Frame.get?_set]
      split
      · rfl
      · exact hother

/-- What is written in a frame that was not there before changes no frame that was. -/
theorem unchanged_of_alloc {scope : Frame}
    (h : (s.alloc scope).2.WrittenIn s.frames.size t) :
    s.frames.size ≤ t.frames.size ∧ s.Unchanged t := by
  obtain ⟨hsize, hothers, -⟩ := h
  rw [Store.alloc_frames, Array.size_push] at hsize hothers
  refine ⟨by omega, ?_⟩
  intro i hi
  rw [hothers i (by omega) (by omega), Array.getElem?_push, if_neg (Nat.ne_of_lt hi)]

end Store.WrittenIn

namespace Evaluation

theorem writtenIn_invariant (frame : FrameId) :
    Invariant frame (fun _ => True) (fun _ => True) (Store.WrittenIn frame) fun _ _ => True where
  refl := .refl
  trans hst htu := hst.trans htu
  mono _ _ := trivial
  lookup _ _ := trivial
  set name s v _ _ := ⟨trivial, .set s frame name v⟩
  function _ _ := trivial
  integer _ _ := trivial
  boolean _ _ := trivial
  string _ _ := trivial
  null _ := trivial
  builtin _ _ := trivial
  array := by simp
  emptyHash _ := trivial
  insert _ _ _ _ := trivial
  filed _ _ := trivial

/-- Entering a function changes no frame that was there.  The induction is on how deep calls may
nest. -/
theorem enter_unchanged (depth : Nat) (closure : Closure) (args : List Value) (store : Store) :
    (enter depth closure args store).Ends fun _ t =>
      store.frames.size ≤ t.frames.size ∧ store.Unchanged t := by
  induction depth generalizing closure args store with
  | zero => trivial
  | succ depth ih =>
      have inv := writtenIn_invariant store.frames.size
      have hcall : Delivers (fun _ => True) (Store.WrittenIn store.frames.size) (fun _ _ => True)
          (callWith (enter depth)) := by
        apply inv.delivers
        intro closure args s _ _ _ _
        apply (ih closure args s).mono
        rintro value t ⟨hsize, hsame⟩
        exact ⟨trivial, .of_unchanged hsize hsame, .inl trivial⟩
      apply (inv.block hcall closure.body (fun _ _ => trivial) (.inl (.inl trivial)) trivial).map
      rintro value t ⟨-, hwritten, -⟩
      exact hwritten.unchanged_of_alloc

theorem call_unchanged (depth : Nat) (callee : Value) (args : List Value) (store : Store) :
    (Value.call depth callee args store).Ends fun _ t =>
      store.frames.size ≤ t.frames.size ∧ store.Unchanged t := by
  cases callee with
  | function closure =>
      rw [Value.call, callWith]
      split
      · exact enter_unchanged depth closure args store
      · exact ⟨Nat.le_refl _, fun _ _ => rfl⟩
  | _ => exact ⟨Nat.le_refl _, fun _ _ => rfl⟩

theorem call_writtenIn (depth : Nat) (frame : FrameId) :
    Delivers (fun _ => True) (Store.WrittenIn frame) (fun _ _ => True) (Value.call depth) := by
  intro callee args s _ _ _
  apply (call_unchanged depth callee args s).mono
  rintro value t ⟨hsize, hsame⟩
  exact ⟨trivial, .of_unchanged hsize hsame, .inl trivial⟩

end Evaluation

/-- Writes stay in the current frame.  Whatever is evaluated in a frame, every other frame that
was there is the same afterwards, and the frame itself keeps its outer link and the names bound in
it.  A call of evaluated arguments changes no frame that was there. -/
theorem writes_stay_in_frame (depth : Nat) (store : Store) :
    (∀ (frame : FrameId) (node : Node),
      (node.eval depth frame store).Ends fun _ t => store.WrittenIn frame t) ∧
    ∀ callee args, (Value.call depth callee args store).Ends fun _ t => store.Unchanged t := by
  constructor
  · intro frame node
    have hcall := Evaluation.call_writtenIn depth frame
    apply ((Evaluation.writtenIn_invariant frame).node (fun _ _ h => h) hcall node
      (fun _ _ => trivial) trivial).mono
    exact fun _ _ hkept => hkept.2.1
  · intro callee args
    exact (Evaluation.call_unchanged depth callee args store).mono fun _ _ h => h.2

end ScriptLang
