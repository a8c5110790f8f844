import ScriptLang.Value.Basic

/-!
The store: every scope that an evaluation has opened.

A scope is a frame with its own bindings and a link to the frame around it.  Names are looked up
from a frame outward and bound in the frame itself.  Frames are never removed, so a function can
keep the scope it was made in.
-/

namespace ScriptLang

/-- One scope. -/
structure Frame where
  /-- The scope around this one. -/
  outer : Option FrameId
  /-- The names bound here, each once. -/
  bindings : List (String × Value)

namespace Frame

/-- A scope in which nothing is bound yet. -/
def within (outer : Option FrameId) : Frame :=
  { outer := outer, bindings := [] }

/-- The value bound to a name in this very scope. -/
def get? (frame : Frame) (name : String) : Option Value :=
  frame.bindings.lookup name

/-- Binds a name in this scope.  The last binding of a name counts. -/
def set (frame : Frame) (name : String) (value : Value) : Frame :=
  { frame with
    bindings := (name, value) :: frame.bindings.filter fun binding => binding.1 != name }

/-- Binds several names in this scope, in the given order. -/
def setAll (frame : Frame) (bindings : List (String × Value)) : Frame :=
  bindings.foldl (fun found binding => found.set binding.1 binding.2) frame

end Frame

/-- All scopes, in the order in which they were opened. -/
structure Store where
  frames : Array Frame

namespace Store

/-- The store in which no scope has been opened. -/
def empty : Store := ⟨#[]⟩

/-- The value bound to a name in one very frame. -/
def getHere? (store : Store) (frame : FrameId) (name : String) : Option Value :=
  store.frames[frame]?.bind fun found => found.get? name

/-- The value of a name as seen from a frame, if it is found in so many steps outward. -/
def lookupWithin (store : Store) (name : String) : Nat → FrameId → Option Value
  | 0, _ => none
  | steps + 1, frame =>
      match store.frames[frame]? with
      | none => none
      | some found =>
          match found.get? name with
          | some value => some value
          | none => found.outer.bind fun outer => store.lookupWithin name steps outer

/-- The value of a name as seen from a frame: the binding in the nearest frame that has one.  No
chain of scopes is longer than the number of frames. -/
def lookup? (store : Store) (frame : FrameId) (name : String) : Option Value :=
  store.lookupWithin name store.frames.size frame

/-- Binds a name in a frame. -/
def set (store : Store) (frame : FrameId) (name : String) (value : Value) : Store :=
  { store with frames := store.frames.modify frame fun found => found.set name value }

/-- Binds a name in a frame, and gives back the value that the name had in that very frame. -/
def exchange (store : Store) (frame : FrameId) (name : String) (value : Value) :
    Option Value × Store :=
  (store.getHere? frame name, store.set frame name value)

/-- Opens a scope: the frame becomes the last one, and its number is given back. -/
def alloc (store : Store) (frame : Frame) : FrameId × Store :=
  (store.frames.size, { store with frames := store.frames.push frame })

end Store

end ScriptLang
