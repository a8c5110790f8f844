import Mathlib.Data.List.Nodup
import Mathlib.Data.List.Perm.Subperm
import Mathlib.Data.List.Range
import Mathlib.Order.WellFounded
import ScriptLang.Proofs.Store.Ancestry

namespace ScriptLang.Store

variable {s t u : Store} {frame outer : FrameId}

/-- The scope `frame` was opened within the scope `outer`. -/
def Encloses (store : Store) (outer frame : FrameId) : Prop :=
  ∃ found : Frame, store.frames[frame]? = some found ∧ found.outer = some outer

/-- Every outer link leads to a frame of the store, and no chain of them is endless. -/
structure Founded (store : Store) : Prop where
  linked : ∀ outer frame, store.Encloses outer frame → outer < store.frames.size
  wellFounded : WellFounded store.Encloses

/-- The frames on the way outward, the frame itself first. -/
inductive Path (store : Store) : FrameId → List FrameId → Prop where
  | outermost {frame found} (h : store.frames[frame]? = some found)
      (houter : found.outer = none) :
      Path store frame [frame]
  | within {frame found outer frames} (h : store.frames[frame]? = some found)
      (houter : found.outer = some outer) (hpath : Path store outer frames) :
      Path store frame (frame :: frames)

namespace Path

variable {frames : List FrameId}

theorem lt_size (h : s.Path frame frames) : ∀ i ∈ frames, i < s.frames.size := by
  induction h with
  | outermost h =>
      rintro i hi
      rw [List.mem_singleton.mp hi]
      exact (Array.getElem?_eq_some_iff.mp h).1
  | within h _ _ ih =>
      rw [List.forall_mem_cons]
      exact ⟨(Array.getElem?_eq_some_iff.mp h).1, ih⟩

/-- Every frame on the way encloses the first one, unless it is the first one. -/
theorem encloses (h : s.Path frame frames) :
    ∀ i ∈ frames, Relation.ReflTransGen s.Encloses i frame := by
  induction h with
  | outermost =>
      intro i hi
      rw [List.mem_singleton.mp hi]
  | @within frame found outer frames h houter _ ih =>
      rw [List.forall_mem_cons]
      refine ⟨.refl, fun i hi => ?_⟩
      exact (ih i hi).tail ⟨found, h, houter⟩

/-- The way outward never comes back. -/
theorem nodup (hs : s.Founded) (h : s.Path frame frames) : frames.Nodup := by
  induction h with
  | outermost => exact List.nodup_singleton _
  | @within frame found outer frames h houter hpath ih =>
      refine List.nodup_cons.mpr ⟨fun hmem => ?_, ih⟩
      have hcircle : Relation.TransGen s.Encloses frame frame :=
        .tail' (hpath.encloses frame hmem) ⟨found, h, houter⟩
      exact hs.wellFounded.transGen.irrefl.irrefl frame hcircle

theorem length_le (hs : s.Founded) (h : s.Path frame frames) : frames.length ≤ s.frames.size := by
  have hsubset : frames ⊆ List.range s.frames.size := by
    intro i hi
    exact List.mem_range.mpr (h.lt_size i hi)
  simpa using ((h.nodup hs).subperm hsubset).length_le

/-- A look-up with enough steps for the way outward is the walk to its end. -/
theorem finds (h : s.Path frame frames) (name : String) {steps : Nat}
    (hsteps : frames.length ≤ steps) : s.Finds name frame (s.lookupWithin name steps frame) := by
  induction h generalizing steps with
  | @outermost frame found h houter =>
      obtain ⟨steps, rfl⟩ := Nat.exists_eq_add_of_lt hsteps
      simp only [lookupWithin, h, houter]
      cases hvalue : found.get? name with
      | none => exact .nowhere h hvalue houter
      | some value => exact .here h hvalue
  | @within frame found outer frames h houter hpath ih =>
      rw [List.length_cons] at hsteps
      obtain ⟨steps, rfl⟩ := Nat.exists_eq_add_of_lt (Nat.lt_of_lt_of_le (Nat.succ_pos _) hsteps)
      simp only [lookupWithin, h, houter]
      cases hvalue : found.get? name with
      | none => exact .outward h hvalue houter (ih (by omega))
      | some value => exact .here h hvalue

end Path

/-- The same scopes, each within the same one as before. -/
structure SameScopes (s t : Store) : Prop where
  size_eq : t.frames.size = s.frames.size
  links : s.KeepsLinks t

namespace SameScopes

theorem refl (s : Store) : s.SameScopes s := ⟨rfl, .refl s⟩

theorem trans (hst : s.SameScopes t) (htu : t.SameScopes u) : s.SameScopes u :=
  ⟨htu.size_eq.trans hst.size_eq, hst.links.trans htu.links⟩

theorem set (s : Store) (frame : FrameId) (name : String) (value : Value) :
    s.SameScopes (s.set frame name value) :=
  ⟨by simp, .set s frame name value⟩

theorem encloses (h : s.SameScopes t) (hlink : t.Encloses outer frame) :
    s.Encloses outer frame := by
  obtain ⟨later, hlater, houter⟩ := hlink
  have hframe : frame < s.frames.size := by
    rw [← h.size_eq]
    exact (Array.getElem?_eq_some_iff.mp hlater).1
  obtain ⟨same, hsame, hkept⟩ := h.links frame _ (Array.getElem?_eq_getElem hframe)
  rw [hlater] at hsame
  cases hsame
  exact ⟨_, Array.getElem?_eq_getElem hframe, hkept.symm.trans houter⟩

end SameScopes

namespace Founded

theorem same (hs : s.Founded) (h : s.SameScopes t) : t.Founded where
  linked outer frame hlink := by
    rw [h.size_eq]
    exact hs.linked outer frame (h.encloses hlink)
  wellFounded := Subrelation.wf h.encloses hs.wellFounded

/-- It is enough that scopes can be ranked, the inner ones higher. -/
theorem of_rank (rank : FrameId → Nat)
    (h : ∀ outer frame, s.Encloses outer frame →
      outer < s.frames.size ∧ rank outer < rank frame) : s.Founded where
  linked outer frame hlink := (h outer frame hlink).1
  wellFounded := Subrelation.wf (fun hlink => (h _ _ hlink).2) (InvImage.wf rank Nat.lt_wfRel.wf)

theorem exists_path (hs : s.Founded) (hframe : frame < s.frames.size) :
    ∃ frames, s.Path frame frames := by
  induction frame using hs.wellFounded.induction with
  | _ frame ih =>
      have hfound := Array.getElem?_eq_getElem hframe
      cases houter : s.frames[frame].outer with
      | none => exact ⟨_, .outermost hfound houter⟩
      | some outer =>
          have hlink : s.Encloses outer frame := ⟨_, hfound, houter⟩
          obtain ⟨frames, hframes⟩ := ih outer hlink (hs.linked outer frame hlink)
          exact ⟨_, .within hfound houter hframes⟩

theorem finds (hs : s.Founded) (hframe : frame < s.frames.size) (name : String) :
    s.Finds name frame (s.lookup? frame name) := by
  obtain ⟨frames, hpath⟩ := hs.exists_path hframe
  exact hpath.finds name (hpath.length_le hs)

end Founded

/-- So it is in every store that evaluations lead to, where a scope is opened within an older
one. -/
theorem Grounded.founded (h : s.Grounded) : s.Founded := by
  apply Founded.of_rank id
  rintro outer frame ⟨found, hfound, houter⟩
  have hlt := h.outer_lt frame found outer hfound houter
  exact ⟨Nat.lt_trans hlt (Array.getElem?_eq_some_iff.mp hfound).1, hlt⟩

end ScriptLang.Store
