import ScriptLang.Program.Basic

namespace ScriptLang

variable {ι : Type} [DecidableEq ι]

mutual

/-- Whether two expressions are the same tree. -/
def Expr.same : Expr ι → Expr ι → Bool
  | .ident a, .ident b => a == b
  | .int a, .int b => a == b
  | .string a, .string b => a == b
  | .bool a, .bool b => a == b
  | .unary o a, .unary p b => o == p && a.same b
  | .binary a o c, .binary b p d => o == p && a.same b && c.same d
  | .cond a y n, .cond b z m => a.same b && Stmt.sameList y z && Stmt.sameElse n m
  | .fn l ps a, .fn m qs b => l == m && ps == qs && Stmt.sameList a b
  | .call a xs, .call b ys => a.same b && Expr.sameList xs ys
  | .array xs, .array ys => Expr.sameList xs ys
  | .index a c, .index b d => a.same b && c.same d
  | .hash ps, .hash qs => Expr.samePairs ps qs
  | _, _ => false

/-- Whether two lists hold the same expressions. -/
def Expr.sameList : List (Expr ι) → List (Expr ι) → Bool
  | [], [] => true
  | a :: as, b :: bs => a.same b && Expr.sameList as bs
  | _, _ => false

/-- Whether two lists hold the same pairs of expressions. -/
def Expr.samePairs : List (Expr ι × Expr ι) → List (Expr ι × Expr ι) → Bool
  | [], [] => true
  | (a, c) :: as, (b, d) :: bs => a.same b && c.same d && Expr.samePairs as bs
  | _, _ => false

/-- Whether two statements are the same tree. -/
def Stmt.same : Stmt ι → Stmt ι → Bool
  | .bind x a, .bind y b => x == y && a.same b
  | .ret none, .ret none => true
  | .ret (some a), .ret (some b) => a.same b
  | .expr a, .expr b => a.same b
  | _, _ => false

/-- Whether two lists hold the same statements. -/
def Stmt.sameList : List (Stmt ι) → List (Stmt ι) → Bool
  | [], [] => true
  | a :: as, b :: bs => a.same b && Stmt.sameList as bs
  | _, _ => false

/-- Whether two second branches are the same, or missing from both. -/
def Stmt.sameElse : Option (List (Stmt ι)) → Option (List (Stmt ι)) → Bool
  | none, none => true
  | some a, some b => Stmt.sameList a b
  | _, _ => false

end

mutual

theorem Expr.same_iff : ∀ {a b : Expr ι}, a.same b = true ↔ a = b
  | .ident _, b => by cases b <;> simp [Expr.same]
  | .int _, b => by cases b <;> simp [Expr.same]
  | .string _, b => by cases b <;> simp [Expr.same]
  | .bool _, b => by cases b <;> simp [Expr.same]
  | .unary _ a, b => by
      have ha {b} : a.same b = true ↔ a = b := Expr.same_iff
      cases b <;> simp [Expr.same, ha]
  | .binary a _ c, b => by
      have ha {b} : a.same b = true ↔ a = b := Expr.same_iff
      have hc {d} : c.same d = true ↔ c = d := Expr.same_iff
      cases b <;> simp [Expr.same, ha, hc]
      grind
  | .cond a y n, b => by
      have ha {b} : a.same b = true ↔ a = b := Expr.same_iff
      have hy {z} : Stmt.sameList y z = true ↔ y = z := Stmt.sameList_iff
      have hn {m} : Stmt.sameElse n m = true ↔ n = m := Stmt.sameElse_iff
      cases b <;> simp [Expr.same, ha, hy, hn, and_assoc]
  | .fn _ _ a, b => by
      have ha {b} : Stmt.sameList a b = true ↔ a = b := Stmt.sameList_iff
      cases b <;> simp [Expr.same, ha, and_assoc]
  | .call a xs, b => by
      have ha {b} : a.same b = true ↔ a = b := Expr.same_iff
      have hxs {ys} : Expr.sameList xs ys = true ↔ xs = ys := Expr.sameList_iff
      cases b <;> simp [Expr.same, ha, hxs]
  | .array xs, b => by
      have hxs {ys} : Expr.sameList xs ys = true ↔ xs = ys := Expr.sameList_iff
      cases b <;> simp [Expr.same, hxs]
  | .index a c, b => by
      have ha {b} : a.same b = true ↔ a = b := Expr.same_iff
      have hc {d} : c.same d = true ↔ c = d := Expr.same_iff
      cases b <;> simp [Expr.same, ha, hc]
  | .hash ps, b => by
      have hps {qs} : Expr.samePairs ps qs = true ↔ ps = qs := Expr.samePairs_iff
      cases b <;> simp [Expr.same, hps]

theorem Expr.sameList_iff : ∀ {as bs : List (Expr ι)}, Expr.sameList as bs = true ↔ as = bs
  | [], bs => by cases bs <;> simp [Expr.sameList]
  | a :: as, bs => by
      have ha {b} : a.same b = true ↔ a = b := Expr.same_iff
      have has {bs} : Expr.sameList as bs = true ↔ as = bs := Expr.sameList_iff
      cases bs <;> simp [Expr.sameList, ha, has]

theorem Expr.samePairs_iff :
    ∀ {as bs : List (Expr ι × Expr ι)}, Expr.samePairs as bs = true ↔ as = bs
  | [], bs => by cases bs <;> simp [Expr.samePairs]
  | (a, c) :: as, bs => by
      have ha {b} : a.same b = true ↔ a = b := Expr.same_iff
      have hc {d} : c.same d = true ↔ c = d := Expr.same_iff
      have has {bs} : Expr.samePairs as bs = true ↔ as = bs := Expr.samePairs_iff
      rcases bs with _ | ⟨⟨b, d⟩, bs⟩ <;> simp [Expr.samePairs, ha, hc, has]

theorem Stmt.same_iff : ∀ {a b : Stmt ι}, a.same b = true ↔ a = b
  | .bind _ a, b => by
      have ha {b} : a.same b = true ↔ a = b := Expr.same_iff
      cases b <;> simp [Stmt.same, ha]
  | .ret none, b => by rcases b with _ | ⟨_ | _⟩ | _ <;> simp [Stmt.same]
  | .ret (some a), b => by
      have ha {b} : a.same b = true ↔ a = b := Expr.same_iff
      rcases b with _ | ⟨_ | _⟩ | _ <;> simp [Stmt.same, ha]
  | .expr a, b => by
      have ha {b} : a.same b = true ↔ a = b := Expr.same_iff
      cases b <;> simp [Stmt.same, ha]

theorem Stmt.sameList_iff : ∀ {as bs : List (Stmt ι)}, Stmt.sameList as bs = true ↔ as = bs
  | [], bs => by cases bs <;> simp [Stmt.sameList]
  | a :: as, bs => by
      have ha {b} : a.same b = true ↔ a = b := Stmt.same_iff
      have has {bs} : Stmt.sameList as bs = true ↔ as = bs := Stmt.sameList_iff
      cases bs <;> simp [Stmt.sameList, ha, has]

theorem Stmt.sameElse_iff :
    ∀ {a b : Option (List (Stmt ι))}, Stmt.sameElse a b = true ↔ a = b
  | none, b => by cases b <;> simp [Stmt.sameElse]
  | some a, b => by
      have ha {b} : Stmt.sameList a b = true ↔ a = b := Stmt.sameList_iff
      cases b <;> simp [Stmt.sameElse, ha]

end

instance : DecidableEq (Expr ι) := fun _ _ => decidable_of_iff _ Expr.same_iff

instance : DecidableEq (Stmt ι) := fun _ _ => decidable_of_iff _ Stmt.same_iff

end ScriptLang
