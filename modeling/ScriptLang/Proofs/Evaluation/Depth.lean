import ScriptLang.Proofs.Evaluation.Lockstep

namespace ScriptLang

namespace Evaluation

theorem lockstep_eq : Lockstep (fun _ => True) Eq fun _ => True where
  size_eq hst := congrArg (fun store : Store => store.frames.size) hst
  resolve frame hst _ := ⟨congrArg (Store.resolve · frame _) hst, trivial⟩
  set frame hst _ _ := congrArg (Store.set · frame _ _) hst
  function _ := trivial
  scope hst _ := congrArg (fun store : Store => (store.alloc _).2) hst
  body _ _ _ := trivial
  values frame := by constructor <;> simp
  returned := Iff.rfl
  error _ := trivial

end Evaluation

/-- An evaluation that ends ends in the same way with a larger allowance. -/
theorem Node.eval_of_le {depth depth' : Nat} (h : depth ≤ depth') (node : Node) {frame : FrameId}
    {store after : Store} {result : Value}
    (heval : node.eval depth frame store = .done result after) :
    node.eval depth' frame store = .done result after := by
  have hfollows := Evaluation.lockstep_eq.node h frame node (fun _ _ => trivial) (Eq.refl store)
  rw [heval] at hfollows
  obtain hdeep | ⟨value, s, t, hrun, hrun', -, rfl⟩ := hfollows
  · cases hdeep
  · cases hrun
    exact hrun'

end ScriptLang
