import ScriptLang.Store
import ScriptLang.Value.Hash

namespace ScriptLang

/-- The end of an evaluation: a result and the store that it leaves, unless calls nested deeper
than they were allowed to. -/
inductive Run (α : Type) where
  | done (result : α) (store : Store)
  | tooDeep

namespace Run

/-- Changes the result of an evaluation. -/
def map {α β : Type} (f : α → β) : Run α → Run β
  | done result store => done (f result) store
  | tooDeep => tooDeep

/-- Goes on with a plain value.  A signal takes the place of whatever would have come of it. -/
def andThen (run : Run Value) (next : Value → Store → Run Value) : Run Value :=
  match run with
  | done value store => if value.isSignal then done value store else next value store
  | tooDeep => tooDeep

/-- Goes on with a list of plain values, as `andThen` does with one. -/
def andThenAll (run : Run (Except Value (List Value))) (next : List Value → Store → Run Value) :
    Run Value :=
  match run with
  | done (.ok values) store => next values store
  | done (.error signal) store => done signal store
  | tooDeep => tooDeep

end Run

end ScriptLang
