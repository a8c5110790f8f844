import ScriptLang.Proofs.Store.Chains

/-!
The store as the log of what was done to it.

Scopes are opened and names are bound in them, in any order.  What a look-up gives can be read off
the log alone: the scopes around a frame are those that it was opened within, and a name has the
value that was last bound to it in the nearest of them in which it was ever bound.  It makes no
difference whether it was bound before or after the frame was opened.
-/

namespace ScriptLang.Store

/-- What can be done to scopes. -/
inductive Op where
  | root
  | child (outer : FrameId)
  | set (frame : FrameId) (name : String) (value : Value)

/-- What comes back: the number of the scope that was opened, or the value that a name had
before. -/
inductive Answer where
  | opened (frame : FrameId)
  | replaced (previous : Option Value)

namespace Op

def perform (store : Store) : Op → Answer × Store
  | root => Prod.map .opened id (store.alloc (.within none))
  | child outer => Prod.map .opened id (store.alloc (.within (some outer)))
  | set frame name value => Prod.map .replaced id (store.exchange frame name value)

def link? : Op → Option (Option FrameId)
  | root => some none
  | child outer => some (some outer)
  | set _ _ _ => none

/-- The value that the operation binds to the name in the frame, if it does. -/
def bound? (frame : FrameId) (name : String) : Op → Option Value
  | set frame' name' value => if frame' = frame ∧ name' = name then some value else none
  | _ => none

/-- The operation is about one of the first `opened` scopes, if it is about any. -/
def Refers (opened : Nat) : Op → Prop
  | root => True
  | child outer => outer < opened
  | set frame _ _ => frame < opened

end Op

abbrev Log := List Op

namespace Log

def perform : Log → Store → List Answer × Store
  | [], store => ([], store)
  | op :: log, store =>
      let (answer, store) := op.perform store
      let (answers, store) := perform log store
      (answer :: answers, store)

/-- The outer links of the scopes in the order in which they were opened. -/
def links (log : Log) : List (Option FrameId) :=
  log.filterMap Op.link?

/-- The value that was bound last to a name in one very frame. -/
def latest? (log : Log) (frame : FrameId) (name : String) : Option Value :=
  log.reverse.findSome? (Op.bound? frame name)

/-- Each operation is about a scope that was opened before, given that so many were opened
already. -/
def Valid (opened : Nat) : Log → Prop
  | [] => True
  | op :: log => op.Refers opened ∧ Valid (opened + op.link?.toList.length) log

/-- The frames from one outward, by the links they were opened with. -/
inductive Chain (log : Log) : FrameId → List FrameId → Prop where
  | outermost {frame : FrameId} (h : log.links[frame]? = some none) : Chain log frame [frame]
  | within {frame outer : FrameId} {chain : List FrameId}
      (h : log.links[frame]? = some (some outer)) (hchain : Chain log outer chain) :
      Chain log frame (frame :: chain)

/-- What the log leads one to expect of one more operation.  Scopes are numbered in the order in
which they are opened, and a name gives up the value that it was last bound to in the same
frame. -/
def expected (log : Log) : Op → Answer
  | .set frame name _ => .replaced (log.latest? frame name)
  | _ => .opened log.links.length

end Log

variable {log : Log} {store : Store} {op : Op} {frame : FrameId}

section Store

theorem getHere?_set (hframe : frame < store.frames.size) (name : String) (value : Value)
    (other : FrameId) (other' : String) : (store.set frame name value).getHere? other other' =
      if frame = other ∧ name = other' then some value else store.getHere? other other' := by
  rw [getHere?, getHere?, set_frames, Array.getElem?_modify]
  by_cases h : frame = other
  · subst h
    rw [if_pos rfl, Array.getElem?_eq_getElem hframe]
    simp only [Option.map_some, Option.bind_some, Frame.get?_set, true_and, eq_comm]
  · rw [if_neg h, if_neg fun hboth => h hboth.1]

theorem getHere?_alloc (store : Store) (link : Option FrameId) (frame : FrameId) (name : String) :
    (store.alloc (.within link)).2.getHere? frame name = store.getHere? frame name := by
  rw [getHere?, getHere?, alloc_frames, Array.getElem?_push]
  split
  · rename_i h
    rw [h, Array.getElem?_eq_none (Nat.le_refl _)]
    rfl
  · rfl

theorem seen?_filterMap (store : Store) (chain : List FrameId) (name : String) :
    seen? (chain.filterMap (store.frames[·]?)) name =
      chain.findSome? (store.getHere? · name) := by
  induction chain with
  | nil => rfl
  | cons frame chain ih =>
      cases hframe : store.frames[frame]? with
      | none =>
          have hnone : store.getHere? frame name = none := by rw [getHere?, hframe]; rfl
          rw [List.filterMap_cons_none hframe, List.findSome?_cons, hnone, ih]
      | some found =>
          have hsome : store.getHere? frame name = found.get? name := by
            rw [getHere?, hframe]
            rfl
          rw [List.filterMap_cons_some hframe, List.findSome?_cons, hsome, seen?_cons, ih]
          cases found.get? name <;> rfl

end Store

namespace Log

theorem links_concat (log : Log) (op : Op) :
    links (log ++ [op]) = log.links ++ op.link?.toList := by
  rw [links, List.filterMap_append]
  cases op <;> rfl

theorem latest?_concat (log : Log) (op : Op) (frame : FrameId) (name : String) :
    latest? (log ++ [op]) frame name = (op.bound? frame name).or (log.latest? frame name) := by
  rw [latest?, List.reverse_append, List.findSome?_append, latest?, List.reverse_singleton,
    List.findSome?_singleton]

end Log

/-- The store holds what the log says. -/
structure Tracks (log : Log) (store : Store) : Prop where
  links : store.frames.toList.map Frame.outer = log.links
  latest : ∀ frame name, store.getHere? frame name = log.latest? frame name
  older : ∀ frame outer : FrameId, log.links[frame]? = some (some outer) → outer < frame

namespace Tracks

theorem empty : Tracks [] Store.empty where
  links := rfl
  latest _ _ := rfl
  older _ _ h := by cases h

theorem size_eq (h : Tracks log store) : store.frames.size = log.links.length := by
  rw [← h.links, List.length_map, Array.length_toList]

theorem outer_eq (h : Tracks log store) (frame : FrameId) :
    store.frames[frame]?.map Frame.outer = log.links[frame]? := by
  rw [← h.links, List.getElem?_map, Array.getElem?_toList]

theorem alloc {link : Option FrameId} (h : Tracks log store) (hop : op.link? = some link)
    (hbound : ∀ frame name, op.bound? frame name = none)
    (hlink : ∀ outer, link = some outer → outer < log.links.length) :
    Tracks (log ++ [op]) (store.alloc (.within link)).2 where
  links := by
    rw [Log.links_concat, hop, alloc_frames, Array.toList_push, List.map_append, h.links]
    rfl
  latest frame name := by
    rw [getHere?_alloc, h.latest, Log.latest?_concat, hbound, Option.none_or]
  older frame outer hframe := by
    rw [Log.links_concat, hop, List.getElem?_append] at hframe
    split at hframe
    · exact h.older frame outer hframe
    · rename_i hnew
      have hlast := List.mem_of_getElem? hframe
      rw [Option.toList_some, List.mem_singleton] at hlast
      exact Nat.lt_of_lt_of_le (hlink outer hlast.symm) (Nat.le_of_not_lt hnew)

theorem set (h : Tracks log store) (hframe : frame < log.links.length)
    (name : String) (value : Value) :
    Tracks (log ++ [.set frame name value]) (store.set frame name value) := by
  have hlinks : Log.links (log ++ [.set frame name value]) = log.links := by
    rw [Log.links_concat, Op.link?, Option.toList_none, List.append_nil]
  refine ⟨?_, ?_, ?_⟩
  · rw [hlinks, ← h.links]
    apply List.ext_getElem?
    intro i
    rw [List.getElem?_map, List.getElem?_map, Array.getElem?_toList,
      Array.getElem?_toList, set_frames,
      Array.getElem?_modify]
    split
    · rw [Option.map_map]
      rfl
    · rfl
  · intro other other'
    rw [getHere?_set (h.size_eq ▸ hframe), Log.latest?_concat, h.latest, Op.bound?]
    split <;> rfl
  · rw [hlinks]
    exact h.older

/-- One operation is answered as expected, and the store still holds what the log says. -/
theorem step (h : Tracks log store) (hop : op.Refers log.links.length) :
    (op.perform store).1 = log.expected op ∧ Tracks (log ++ [op]) (op.perform store).2 := by
  cases op with
  | root => exact ⟨congrArg Answer.opened h.size_eq, h.alloc rfl (fun _ _ => rfl) (by simp)⟩
  | child outer =>
      refine ⟨congrArg Answer.opened h.size_eq, h.alloc rfl (fun _ _ => rfl) ?_⟩
      rintro _ ⟨⟩
      exact hop
  | set frame name value =>
      exact ⟨congrArg Answer.replaced (h.latest frame name), h.set hop name value⟩

theorem run {later : Log} (h : Tracks log store) (hlater : later.Valid log.links.length) :
    Tracks (log ++ later) (later.perform store).2 ∧ ∀ i : Nat, (later.perform store).1[i]? =
      later[i]?.map fun op => Log.expected (log ++ later.take i) op := by
  induction later generalizing log store with
  | nil => exact ⟨by rwa [List.append_nil], fun i => rfl⟩
  | cons op later ih =>
      obtain ⟨hop, hlater⟩ := hlater
      obtain ⟨hanswer, hnext⟩ := h.step hop
      rw [← List.length_append, ← Log.links_concat] at hlater
      obtain ⟨hend, hanswers⟩ := ih hnext hlater
      rw [List.append_assoc, List.singleton_append] at hend
      refine ⟨hend, fun i => ?_⟩
      cases i with
      | zero => simpa [Log.perform] using hanswer
      | succ i => simpa [Log.perform] using hanswers i

theorem exists_chain (h : Tracks log store) (hframe : frame < log.links.length) :
    ∃ chain, log.Chain frame chain := by
  induction frame using Nat.strongRecOn with
  | ind frame ih =>
      cases hlink : log.links[frame] with
      | none => exact ⟨_, .outermost (List.getElem?_eq_some_iff.mpr ⟨hframe, hlink⟩)⟩
      | some outer =>
          have hlink := List.getElem?_eq_some_iff.mpr ⟨hframe, hlink⟩
          have hlt := h.older frame outer hlink
          obtain ⟨chain, hchain⟩ := ih outer hlt (Nat.lt_trans hlt hframe)
          exact ⟨_, .within hlink hchain⟩

theorem sees (h : Tracks log store) {chain : List FrameId} (hchain : log.Chain frame chain) :
    store.Sees frame (chain.filterMap (store.frames[·]?)) := by
  induction hchain with
  | outermost hlink =>
      obtain ⟨found, hfound, houter⟩ := Option.map_eq_some_iff.mp ((h.outer_eq _).trans hlink)
      rw [List.filterMap_cons_some hfound]
      exact .outermost hfound houter
  | within hlink _ ih =>
      obtain ⟨found, hfound, houter⟩ := Option.map_eq_some_iff.mp ((h.outer_eq _).trans hlink)
      rw [List.filterMap_cons_some hfound]
      exact .within hfound houter (h.older _ _ hlink) ih

theorem lookup?_eq (h : Tracks log store) {chain : List FrameId} (hchain : log.Chain frame chain)
    (name : String) :
    store.lookup? frame name = chain.findSome? fun scope => log.latest? scope name := by
  rw [(h.sees hchain).lookup?_eq, seen?_filterMap]
  simp only [h.latest]

end Tracks

/-- A look-up reads the log.  Whatever is done to scopes, beginning with none, a name is found
from a frame as it was last bound in the first frame of its chain in which it was ever bound, and
is not found if there is no such frame.  Each operation is answered from the operations before it:
a scope gets the next number, and binding a name gives back what was last bound to it in that very
frame. -/
theorem lookup_reads_log {log : Log} (h : log.Valid 0) :
    (∀ frame < log.links.length, ∃ chain, log.Chain frame chain ∧ ∀ name,
      (log.perform .empty).2.lookup? frame name =
        chain.findSome? fun scope => log.latest? scope name) ∧
    ∀ i : Nat, (log.perform .empty).1[i]? = log[i]?.map (Log.expected (log.take i)) := by
  obtain ⟨hend, hanswers⟩ := Tracks.empty.run h
  refine ⟨?_, hanswers⟩
  intro frame hframe
  obtain ⟨chain, hchain⟩ := hend.exists_chain hframe
  exact ⟨chain, hchain, hend.lookup?_eq hchain⟩

/-- A name is bound in the outer scope when two inner ones are there already, then hidden in one
of these and bound anew in the outer scope. -/
theorem lookup_reads_late_binding :
    let log : Log := [.root, .child 0, .child 0, .set 0 "x" (.integer 1), .set 2 "x" .null,
      .set 0 "x" (.integer 3)]
    log.Valid 0 ∧ (log.perform .empty).2.lookup? 1 "x" = some (.integer 3) ∧
      (log.perform .empty).2.lookup? 2 "x" = some .null ∧
      (log.perform .empty).1[5]? = some (.replaced (some (.integer 1))) := by
  intro log
  have hvalid : log.Valid 0 := by simp [log, Log.Valid, Op.Refers, Op.link?]
  obtain ⟨hlookup, hanswers⟩ := lookup_reads_log hvalid
  refine ⟨hvalid, ?_, ?_, hanswers 5⟩
  · obtain ⟨chain, ⟨⟨⟩⟩ | ⟨⟨⟩, ⟨_⟩ | ⟨⟨⟩⟩⟩, hname⟩ := hlookup 1 (by decide)
    exact hname "x"
  · obtain ⟨chain, ⟨⟨⟩⟩ | ⟨⟨⟩, _⟩, hname⟩ := hlookup 2 (by decide)
    exact hname "x"

end ScriptLang.Store
