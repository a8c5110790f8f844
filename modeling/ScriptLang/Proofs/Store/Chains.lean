import ScriptLang.Proofs.Evaluation.Writes

namespace ScriptLang.Store

/-- The scopes that are seen from a frame, the nearest one first.  A scope is opened before those
within it. -/
inductive Sees (store : Store) : FrameId → List Frame → Prop where
  | outermost {frame found} (h : store.frames[frame]? = some found)
      (houter : found.outer = none) :
      Sees store frame [found]
  | within {frame found outer scopes} (h : store.frames[frame]? = some found)
      (houter : found.outer = some outer) (hlt : outer < frame)
      (hscopes : Sees store outer scopes) :
      Sees store frame (found :: scopes)

/-- The value of a name in a chain of scopes. -/
def seen? (scopes : List Frame) (name : String) : Option Value :=
  scopes.findSome? fun scope => scope.get? name

variable {s t : Store} {frame outer : FrameId} {found : Frame}
  {scopes : List Frame} {name : String}

theorem seen?_cons (found : Frame) (scopes : List Frame) (name : String) :
    seen? (found :: scopes) name = (found.get? name).or (seen? scopes name) := by
  rw [seen?, List.findSome?_cons]
  cases found.get? name <;> rfl

namespace Sees

theorem length_le (h : s.Sees frame scopes) : scopes.length ≤ frame + 1 := by
  induction h with
  | outermost => simp
  | within _ _ hlt _ ih => exact Nat.succ_le_succ (Nat.le_trans ih hlt)

theorem lt_size (h : s.Sees frame scopes) : frame < s.frames.size := by
  cases h with
  | outermost h | within h => exact (Array.getElem?_eq_some_iff.mp h).1

theorem lookupWithin_eq (h : s.Sees frame scopes) {steps : Nat} (hsteps : scopes.length ≤ steps) :
    s.lookupWithin name steps frame = seen? scopes name := by
  induction h generalizing steps with
  | @outermost frame found h houter =>
      obtain ⟨steps, rfl⟩ := Nat.exists_eq_add_of_lt hsteps
      simp only [lookupWithin, h, houter, seen?_cons]
      cases found.get? name <;> rfl
  | @within frame found outer scopes h houter _ _ ih =>
      rw [List.length_cons] at hsteps
      obtain ⟨steps, rfl⟩ := Nat.exists_eq_add_of_lt (Nat.lt_of_lt_of_le (Nat.succ_pos _) hsteps)
      simp only [lookupWithin, h, houter, seen?_cons]
      cases found.get? name with
      | some value => rfl
      | none => exact ih (by omega)

theorem lookup?_eq (h : s.Sees frame scopes) (name : String) :
    s.lookup? frame name = seen? scopes name :=
  h.lookupWithin_eq (Nat.le_trans h.length_le h.lt_size)

/-- A chain of scopes depends on no frame that was opened later. -/
theorem congr (h : s.Sees frame scopes) (hframes : ∀ i ≤ frame, t.frames[i]? = s.frames[i]?) :
    t.Sees frame scopes := by
  induction h with
  | outermost h houter => exact .outermost ((hframes _ (Nat.le_refl _)).trans h) houter
  | within h houter hlt _ ih =>
      refine .within ((hframes _ (Nat.le_refl _)).trans h) houter hlt (ih fun i hi => ?_)
      exact hframes i (Nat.le_trans hi (Nat.le_of_lt hlt))

theorem of_unchanged (h : s.Sees frame scopes) (hst : s.Unchanged t) : t.Sees frame scopes := by
  apply h.congr
  intro i hi
  exact hst i (Nat.lt_of_le_of_lt hi h.lt_size)

theorem alloc (h : s.Sees outer scopes) (houter : found.outer = some outer) :
    (s.alloc found).2.Sees s.frames.size (found :: scopes) := by
  refine .within (by simp) houter h.lt_size (h.congr fun i hi => ?_)
  have hlt := Nat.lt_of_le_of_lt hi h.lt_size
  simp [Array.getElem?_push, Nat.ne_of_lt hlt]

theorem set (h : s.Sees frame (found :: scopes)) (name : String) (value : Value) :
    (s.set frame name value).Sees frame (found.set name value :: scopes) := by
  have hframe (h : s.frames[frame]? = some found) :
      (s.set frame name value).frames[frame]? = some (found.set name value) := by
    rw [set_frames, Array.getElem?_modify, if_pos rfl, h]
    rfl
  cases h with
  | outermost h houter => exact .outermost (hframe h) houter
  | within h houter hlt hscopes =>
      refine .within (hframe h) houter hlt (hscopes.congr fun i hi => ?_)
      have hne := Nat.ne_of_gt (Nat.lt_of_le_of_lt hi hlt)
      rw [set_frames, Array.getElem?_modify, if_neg hne]

theorem resolve_eq {value : Value} (h : s.Sees frame scopes)
    (hseen : seen? scopes name = some value) :
    s.resolve frame name = value := by
  rw [resolve, h.lookup?_eq, hseen]

theorem resolve_builtin {builtin : Builtin} (h : s.Sees frame scopes)
    (hname : Builtin.ofName? name = some builtin) (hseen : seen? scopes name = none) :
    s.resolve frame name = .builtin builtin := by
  rw [resolve, h.lookup?_eq, hseen, hname]

end Sees

namespace Unchanged

theorem size_le (h : s.Unchanged t) : s.frames.size ≤ t.frames.size := by
  apply Nat.le_of_not_lt
  intro hlt
  have hnone := h t.frames.size hlt
  rw [Array.getElem?_eq_none (Nat.le_refl _)] at hnone
  exact absurd (Array.getElem?_eq_none_iff.mp hnone.symm) (Nat.not_le_of_lt hlt)

theorem trans {u : Store} (hst : s.Unchanged t) (htu : t.Unchanged u) : s.Unchanged u := by
  intro i hi
  rw [htu i (Nat.lt_of_lt_of_le hi hst.size_le), hst i hi]

theorem alloc (s : Store) (found : Frame) : s.Unchanged (s.alloc found).2 := by
  intro i hi
  simp [Array.getElem?_push, Nat.ne_of_lt hi]

theorem set (h : s.Unchanged t) (hframe : s.frames.size ≤ frame) (name : String) (value : Value) :
    s.Unchanged (t.set frame name value) := by
  intro i hi
  have hne := Nat.ne_of_gt (Nat.lt_of_lt_of_le hi hframe)
  rw [set_frames, Array.getElem?_modify, if_neg hne, h i hi]

end Unchanged

end ScriptLang.Store
