import ScriptLang.Proofs.Evaluation.Invariants
import ScriptLang.Proofs.Store.Frames
import ScriptLang.Proofs.Value.Numbering

namespace ScriptLang

section Reach

/-- Every function in the value, however deep, was made in a frame of the set. -/
inductive Value.Within (R : FrameId → Prop) : Value → Prop where
  | integer (n : Int64) : Within R (.integer n)
  | boolean (b : Bool) : Within R (.boolean b)
  | string (text : String) : Within R (.string text)
  | null : Within R .null
  | array {elements : List Value} (h : ∀ v ∈ elements, Within R v) : Within R (.array elements)
  | hash {entries : List (Entry Value)} (hkeys : ∀ entry ∈ entries, Within R entry.key)
      (hvalues : ∀ entry ∈ entries, Within R entry.value) : Within R (.hash entries)
  | function {closure : Closure} (h : R closure.frame) : Within R (.function closure)
  | builtin (builtin : Builtin) : Within R (.builtin builtin)
  | returned {value : Value} (h : Within R value) : Within R (.returned value)
  | error (message : String) : Within R (.error message)

/-- The outer link of a frame and the functions bound in it stay in the set. -/
def Frame.StaysIn (R : FrameId → Prop) (frame : Frame) : Prop :=
  (∀ outer, frame.outer = some outer → R outer) ∧
    ∀ name value, frame.get? name = some value → value.Within R

/-- A set of frames that outer links and functions bound in it do not lead out of. -/
def Store.Closed (R : FrameId → Prop) (store : Store) : Prop :=
  ∀ i found, R i → store.frames[i]? = some found → found.StaysIn R

variable {R : FrameId → Prop} {s : Store} {frame : FrameId}

namespace Value.Within

theorem array_iff {elements : List Value} :
    (Value.array elements).Within R ↔ ∀ v ∈ elements, v.Within R := by
  constructor
  · rintro ⟨⟩
    assumption
  · exact .array

theorem insertEntry {new : Entry Value} {entries : List (Entry Value)}
    (h : (Value.hash entries).Within R) (hkey : new.key.Within R)
    (hvalue : new.value.Within R) : (Value.hash (Value.insertEntry new entries)).Within R := by
  cases h with
  | hash hkeys hvalues =>
      exact .hash (Value.forall_mem_insertEntry hkeys hkey)
        (Value.forall_mem_insertEntry hvalues hvalue)

theorem arrived {value : Value} (h : value.Within R) : value.arrived.Within R := by
  cases h with
  | returned h => exact h
  | integer | boolean | string | null | array | hash | function | builtin | error =>
      constructor <;> assumption

theorem mono {R' : FrameId → Prop} {value : Value} (h : value.Within R)
    (hR : ∀ i, R i → R' i) : value.Within R' := by
  induction h with
  | integer n => exact .integer n
  | boolean b => exact .boolean b
  | string text => exact .string text
  | null => exact .null
  | array _ ih => exact .array ih
  | hash _ _ ihkeys ihvalues => exact .hash ihkeys ihvalues
  | function h => exact .function (hR _ h)
  | builtin f => exact .builtin f
  | returned _ ih => exact .returned ih
  | error message => exact .error message

end Value.Within

namespace Frame.StaysIn

theorem set {found : Frame} {value : Value} (h : found.StaysIn R) (hvalue : value.Within R)
    (name : String) : (found.set name value).StaysIn R := by
  refine ⟨h.1, ?_⟩
  intro other bound hbound
  rw [Frame.get?_set] at hbound
  split at hbound
  · cases hbound
    exact hvalue
  · exact h.2 other bound hbound

theorem setAll {found : Frame} {new : List (String × Value)} (h : found.StaysIn R)
    (hnew : ∀ binding ∈ new, binding.2.Within R) : (found.setAll new).StaysIn R := by
  induction new generalizing found with
  | nil => exact h
  | cons binding new ih =>
      rw [List.forall_mem_cons] at hnew
      exact ih (h.set hnew.1 binding.1) hnew.2

end Frame.StaysIn

namespace Store.Closed

theorem set {value : Value} (h : s.Closed R) (hvalue : value.Within R) (frame : FrameId)
    (name : String) : (s.set frame name value).Closed R := by
  intro i found hi hfound
  rw [Store.set_frames, Array.getElem?_modify] at hfound
  split at hfound
  · obtain ⟨old, hold, rfl⟩ := Option.map_eq_some_iff.mp hfound
    exact (h i old hi hold).set hvalue name
  · exact h i found hi hfound

theorem alloc {scope : Frame} (h : s.Closed R) (hscope : scope.StaysIn R) :
    (s.alloc scope).2.Closed R := by
  intro i found hi hfound
  rw [Store.alloc_frames, Array.getElem?_push] at hfound
  split at hfound
  · cases hfound
    exact hscope
  · exact h i found hi hfound

theorem lookupWithin {steps : Nat} {name : String} {value : Value} (h : s.Closed R)
    (hframe : R frame) (hfound : s.lookupWithin name steps frame = some value) :
    value.Within R := by
  induction steps generalizing frame with
  | zero => cases hfound
  | succ steps ih =>
      rw [Store.lookupWithin] at hfound
      split at hfound
      · cases hfound
      · rename_i found hhere
        obtain ⟨houter, hbound⟩ := h frame found hframe hhere
        split at hfound
        · rename_i hname
          cases hfound
          exact hbound name value hname
        · obtain ⟨outer, hlink, hfound⟩ := Option.bind_eq_some_iff.mp hfound
          exact ih (houter outer hlink) hfound

end Store.Closed

end Reach

section Agreement

/-- Two frames with the same scope around them that bind the same names to the same values. -/
structure Frame.Alike (numbered : Bool) (a b : Frame) : Prop where
  outer : a.outer = b.outer
  bindings : ∀ name,
    (a.get? name).map (Value.seen numbered) = (b.get? name).map (Value.seen numbered)

/-- Two stores with as many frames, and the same ones in a set. -/
def Store.AgreeOn (numbered : Bool) (R : FrameId → Prop) (s t : Store) : Prop :=
  s.frames.size = t.frames.size ∧
    ∀ i a b, R i → s.frames[i]? = some a → t.frames[i]? = some b → a.Alike numbered b

variable {numbered : Bool} {R : FrameId → Prop} {s t : Store} {frame : FrameId}

namespace Frame.Alike

theorem set {a b : Frame} {v w : Value} (h : a.Alike numbered b)
    (hvalue : v.seen numbered = w.seen numbered) (name : String) :
    (a.set name v).Alike numbered (b.set name w) where
  outer := h.outer
  bindings other := by
    rw [Frame.get?_set, Frame.get?_set]
    split
    · simp [hvalue]
    · exact h.bindings other

theorem setAll {a b : Frame} {params : List String} {vs ws : List Value}
    (h : a.Alike numbered b)
    (hvalues : vs.map (Value.seen numbered) = ws.map (Value.seen numbered)) :
    (a.setAll (params.zip vs)).Alike numbered (b.setAll (params.zip ws)) := by
  induction params generalizing a b vs ws with
  | nil => exact h
  | cons name params ih =>
      cases vs with
      | nil =>
          rw [List.map_nil, eq_comm, List.map_eq_nil_iff] at hvalues
          subst hvalues
          exact h
      | cons v vs =>
          cases ws with
          | nil => cases hvalues
          | cons w ws =>
              rw [List.map_cons, List.map_cons, List.cons.injEq] at hvalues
              exact ih (h.set hvalues.1 name) hvalues.2

end Frame.Alike

namespace Store.AgreeOn

theorem cases (h : s.AgreeOn numbered R t) (hframe : R frame) :
    (s.frames[frame]? = none ∧ t.frames[frame]? = none) ∨
      ∃ a b, s.frames[frame]? = some a ∧ t.frames[frame]? = some b ∧ a.Alike numbered b := by
  obtain ⟨hsize, hagree⟩ := h
  by_cases hlt : frame < s.frames.size
  · have hs := Array.getElem?_eq_getElem hlt
    have ht := Array.getElem?_eq_getElem (hsize ▸ hlt)
    exact .inr ⟨_, _, hs, ht, hagree frame _ _ hframe hs ht⟩
  · refine .inl ⟨?_, ?_⟩
    · exact Array.getElem?_eq_none (Nat.le_of_not_lt hlt)
    · exact Array.getElem?_eq_none (hsize ▸ Nat.le_of_not_lt hlt)

theorem set {v w : Value} (h : s.AgreeOn numbered R t)
    (hvalue : v.seen numbered = w.seen numbered) (frame : FrameId) (name : String) :
    (s.set frame name v).AgreeOn numbered R (t.set frame name w) := by
  refine ⟨by simp [h.1], ?_⟩
  intro i a b hi ha hb
  rw [Store.set_frames, Array.getElem?_modify] at ha hb
  by_cases hframe : frame = i
  · rw [if_pos hframe] at ha hb
    obtain ⟨a', ha', rfl⟩ := Option.map_eq_some_iff.mp ha
    obtain ⟨b', hb', rfl⟩ := Option.map_eq_some_iff.mp hb
    exact (h.2 i a' b' hi ha' hb').set hvalue name
  · rw [if_neg hframe] at ha hb
    exact h.2 i a b hi ha hb

theorem alloc {a b : Frame} (h : s.AgreeOn numbered R t) (hab : a.Alike numbered b) :
    (s.alloc a).2.AgreeOn numbered R (t.alloc b).2 := by
  refine ⟨by simp [h.1], ?_⟩
  intro i a' b' hi ha hb
  rw [Store.alloc_frames, Array.getElem?_push] at ha hb
  rw [← h.1] at hb
  split at ha
  · rename_i hlast
    rw [if_pos hlast] at hb
    cases ha
    cases hb
    exact hab
  · rename_i hold
    rw [if_neg hold] at hb
    exact h.2 i a' b' hi ha hb

theorem lookupWithin (h : s.AgreeOn numbered R t) (hclosed : s.Closed R) (hframe : R frame)
    (name : String) (steps : Nat) :
    (s.lookupWithin name steps frame).map (Value.seen numbered) =
      (t.lookupWithin name steps frame).map (Value.seen numbered) := by
  induction steps generalizing frame with
  | zero => rfl
  | succ steps ih =>
      rw [Store.lookupWithin, Store.lookupWithin]
      obtain ⟨hs, ht⟩ | ⟨a, b, hs, ht, hab⟩ := h.cases hframe
      · rw [hs, ht]
      · rw [hs, ht]
        dsimp only
        have hname := hab.bindings name
        cases ha : a.get? name with
        | some v =>
            cases hb : b.get? name with
            | some w => rwa [ha, hb] at hname
            | none => simp [ha, hb] at hname
        | none =>
            cases hb : b.get? name with
            | some w => simp [ha, hb] at hname
            | none =>
                dsimp only
                rw [← hab.outer]
                cases hlink : a.outer with
                | none => rfl
                | some outer => exact ih ((hclosed frame a hframe hs).1 outer hlink)

theorem resolve (h : s.AgreeOn numbered R t) (hclosed : s.Closed R) (hframe : R frame)
    (name : String) :
    (s.resolve frame name).seen numbered = (t.resolve frame name).seen numbered := by
  have hfound := h.lookupWithin hclosed hframe name s.frames.size
  rw [Store.resolve, Store.resolve, Store.lookup?, Store.lookup?, ← h.1]
  cases hs : s.lookupWithin name s.frames.size frame with
  | some v =>
      cases ht : t.lookupWithin name s.frames.size frame with
      | some w => simpa [hs, ht] using hfound
      | none => simp [hs, ht] at hfound
  | none =>
      cases ht : t.lookupWithin name s.frames.size frame with
      | some w => simp [hs, ht] at hfound
      | none => rfl

end Store.AgreeOn

end Agreement

end ScriptLang
