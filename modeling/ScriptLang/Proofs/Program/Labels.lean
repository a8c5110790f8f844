import Mathlib.Data.List.Nodup
import ScriptLang.Program.Lambdas

namespace ScriptLang

section Inner

variable {ι : Type}

/-- With every literal on the list, those within its body are on it. -/
def Lambda.Whole (known : List (Lambda ι)) : Prop :=
  ∀ l ∈ known, Stmt.lambdasEach l.body ⊆ known

namespace Lambda.Whole

theorem nil : Whole ([] : List (Lambda ι)) := nofun

theorem append {known more : List (Lambda ι)} (h : Whole known) (hmore : Whole more) :
    Whole (known ++ more) := by
  intro l hl
  rcases List.mem_append.mp hl with hl | hl
  · exact List.subset_append_of_subset_left _ (h l hl)
  · exact List.subset_append_of_subset_right _ (hmore l hl)

theorem fn (label : ι) (params : List String) {body : Block ι}
    (h : Whole (Stmt.lambdasEach body)) :
    Whole (⟨label, params, body⟩ :: Stmt.lambdasEach body) := by
  intro l hl
  rcases List.mem_cons.mp hl with rfl | hl
  · exact List.subset_cons_self _ _
  · exact List.subset_cons_of_subset _ (h l hl)

end Lambda.Whole

mutual

theorem Expr.whole_lambdas : ∀ e : Expr ι, Lambda.Whole e.lambdas
  | .ident _ | .int _ | .string _ | .bool _ => .nil
  | .unary _ operand => operand.whole_lambdas
  | .binary left _ right => left.whole_lambdas.append right.whole_lambdas
  | .cond condition yes no =>
      condition.whole_lambdas.append
        ((Stmt.whole_lambdasEach yes).append (Stmt.whole_lambdasElse no))
  | .fn label params body => .fn label params (Stmt.whole_lambdasEach body)
  | .call callee args => callee.whole_lambdas.append (Expr.whole_lambdasEach args)
  | .array elements => Expr.whole_lambdasEach elements
  | .index collection position => collection.whole_lambdas.append position.whole_lambdas
  | .hash pairs => Expr.whole_lambdasPairs pairs

theorem Expr.whole_lambdasEach : ∀ es : List (Expr ι), Lambda.Whole (Expr.lambdasEach es)
  | [] => .nil
  | e :: es => e.whole_lambdas.append (Expr.whole_lambdasEach es)

theorem Expr.whole_lambdasPairs : ∀ ps : List (Expr ι × Expr ι),
    Lambda.Whole (Expr.lambdasPairs ps)
  | [] => .nil
  | (key, value) :: ps =>
      key.whole_lambdas.append (value.whole_lambdas.append (Expr.whole_lambdasPairs ps))

theorem Stmt.whole_lambdas : ∀ s : Stmt ι, Lambda.Whole s.lambdas
  | .bind _ value => value.whole_lambdas
  | .ret none => .nil
  | .ret (some value) => value.whole_lambdas
  | .expr value => value.whole_lambdas

theorem Stmt.whole_lambdasEach : ∀ ss : List (Stmt ι), Lambda.Whole (Stmt.lambdasEach ss)
  | [] => .nil
  | s :: ss => s.whole_lambdas.append (Stmt.whole_lambdasEach ss)

theorem Stmt.whole_lambdasElse : ∀ no : Option (List (Stmt ι)),
    Lambda.Whole (Stmt.lambdasElse no)
  | none => .nil
  | some ss => Stmt.whole_lambdasEach ss

end

end Inner

section Numbers

mutual

/-- The labels of an expression are numbers in a row. -/
theorem Expr.labels_labelled : ∀ (e : Expr) (first : Label),
    (e.labelled first).lambdas.map Lambda.label = List.range' first e.lambdas.length
  | .ident _, _ | .int _, _ | .string _, _ | .bool _, _ => rfl
  | .unary _ operand, first => operand.labels_labelled first
  | .binary left _ right, first => by
      simp only [Expr.labelled, Expr.lambdas, List.map_append, List.length_append]
      rw [left.labels_labelled, right.labels_labelled, List.range'_append_1]
  | .cond condition yes no, first => by
      simp only [Expr.labelled, Expr.lambdas, List.map_append, List.length_append]
      rw [condition.labels_labelled, Stmt.labels_labelledEach yes, Stmt.labels_labelledElse no,
        List.range'_append_1, List.range'_append_1]
  | .fn _ _ body, first => by
      simp only [Expr.labelled, Expr.lambdas, List.map_cons, List.length_cons]
      rw [Stmt.labels_labelledEach body, List.range'_succ]
  | .call callee args, first => by
      simp only [Expr.labelled, Expr.lambdas, List.map_append, List.length_append]
      rw [callee.labels_labelled, Expr.labels_labelledEach args, List.range'_append_1]
  | .array elements, first => Expr.labels_labelledEach elements first
  | .index collection position, first => by
      simp only [Expr.labelled, Expr.lambdas, List.map_append, List.length_append]
      rw [collection.labels_labelled, position.labels_labelled, List.range'_append_1]
  | .hash pairs, first => Expr.labels_labelledPairs pairs first

theorem Expr.labels_labelledEach : ∀ (es : List Expr) (first : Label),
    (Expr.lambdasEach (Expr.labelledEach first es)).map Lambda.label =
      List.range' first (Expr.lambdasEach es).length
  | [], _ => rfl
  | e :: es, first => by
      simp only [Expr.labelledEach, Expr.lambdasEach, List.map_append, List.length_append]
      rw [e.labels_labelled, Expr.labels_labelledEach es, List.range'_append_1]

theorem Expr.labels_labelledPairs : ∀ (ps : List (Expr × Expr)) (first : Label),
    (Expr.lambdasPairs (Expr.labelledPairs first ps)).map Lambda.label =
      List.range' first (Expr.lambdasPairs ps).length
  | [], _ => rfl
  | (key, value) :: ps, first => by
      simp only [Expr.labelledPairs, Expr.lambdasPairs, List.map_append, List.length_append]
      rw [key.labels_labelled, value.labels_labelled, Expr.labels_labelledPairs ps,
        List.range'_append_1, List.range'_append_1]

theorem Stmt.labels_labelled : ∀ (s : Stmt) (first : Label),
    (s.labelled first).lambdas.map Lambda.label = List.range' first s.lambdas.length
  | .bind _ value, first => value.labels_labelled first
  | .ret none, _ => rfl
  | .ret (some value), first => value.labels_labelled first
  | .expr value, first => value.labels_labelled first

theorem Stmt.labels_labelledEach : ∀ (ss : List Stmt) (first : Label),
    (Stmt.lambdasEach (Stmt.labelledEach first ss)).map Lambda.label =
      List.range' first (Stmt.lambdasEach ss).length
  | [], _ => rfl
  | s :: ss, first => by
      simp only [Stmt.labelledEach, Stmt.lambdasEach, List.map_append, List.length_append]
      rw [s.labels_labelled, Stmt.labels_labelledEach ss, List.range'_append_1]

theorem Stmt.labels_labelledElse : ∀ (no : Option (List Stmt)) (first : Label),
    (Stmt.lambdasElse (Stmt.labelledElse first no)).map Lambda.label =
      List.range' first (Stmt.lambdasElse no).length
  | none, _ => rfl
  | some ss, first => Stmt.labels_labelledEach ss first

end

end Numbers

namespace Program

theorem lambdas_append (p q : Program) : (p ++ q).lambdas = p.lambdas ++ q.lambdas := by
  induction p with
  | nil => rfl
  | cons s p ih =>
      change s.lambdas ++ Program.lambdas (p ++ q) = (s.lambdas ++ Program.lambdas p) ++ q.lambdas
      rw [ih, List.append_assoc]

/-- The labels of a program go on where those of the program in front of it end. -/
theorem labelled_append (p q : Program) (first : Label) :
    (p ++ q).labelled first = p.labelled first ++ q.labelled (first + p.lambdas.length) := by
  induction p generalizing first with
  | nil => rfl
  | cons s p ih =>
      have hlength : (Program.lambdas (s :: p)).length =
          s.lambdas.length + (Program.lambdas p).length := List.length_append
      rw [hlength, ← Nat.add_assoc]
      exact congrArg (s.labelled first :: ·) (ih (first + s.lambdas.length))

theorem labels_labelled (program : Program) (first : Label) :
    (program.labelled first).lambdas.map Lambda.label =
      List.range' first program.lambdas.length :=
  Stmt.labels_labelledEach program first

theorem length_lambdas_labelled (program : Program) (first : Label) :
    (program.labelled first).lambdas.length = program.lambdas.length := by
  have hlength := congrArg List.length (program.labels_labelled first)
  rwa [List.length_map, List.length_range'] at hlength

theorem labelled_ne_nil {program : Program} (h : program ≠ []) (first : Label) :
    program.labelled first ≠ [] := by
  cases program with
  | nil => exact absurd rfl h
  | cons s ss => exact List.cons_ne_nil _ _

end Program

/-- Function literals that were numbered from zero on as they were read, each with those in its
body. -/
structure Lambda.Numbered (known : List (Lambda Label)) : Prop where
  labels : known.map Lambda.label = List.range' 0 known.length
  whole : Whole known

namespace Lambda.Numbered

variable {known : List (Lambda Label)}

theorem nil : Numbered [] := ⟨rfl, .nil⟩

/-- Another program is read, and its literals get the numbers that come next. -/
theorem read (h : Numbered known) (program : Program) :
    Numbered (known ++ (program.labelled known.length).lambdas) where
  labels := by
    rw [List.map_append, h.labels, program.labels_labelled, List.length_append,
      program.length_lambdas_labelled]
    have hrow := List.range'_append_1 (s := 0) (m := known.length) (n := program.lambdas.length)
    rwa [Nat.zero_add] at hrow
  whole := h.whole.append (Stmt.whole_lambdasEach _)

/-- A label belongs to one literal. -/
theorem eq_of_label_eq (h : Numbered known) {l m : Lambda Label} (hl : l ∈ known) (hm : m ∈ known)
    (hlabel : l.label = m.label) : l = m := by
  have hnodup : (known.map Lambda.label).Nodup := h.labels ▸ List.nodup_range'
  exact List.inj_on_of_nodup_map hnodup hl hm hlabel

end Lambda.Numbered

end ScriptLang
