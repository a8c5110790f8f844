import ScriptLang.Program.Parser.Rules

namespace ScriptLang.Parser

variable {α β : Type}

namespace State

def record (s : State) (diagnostic : Diagnostic) : State :=
  { s with diagnostics := s.diagnostics ++ [diagnostic] }

/-- The state with other tokens in front of it. -/
def facing (s : State) (tokens : List Token) : State := { s with ahead := tokens }

@[simp] theorem forward_ahead (s : State) : s.forward.ahead = s.ahead.tail := rfl

@[simp] theorem forward_diagnostics (s : State) : s.forward.diagnostics = s.diagnostics := rfl

@[simp] theorem forward_blocks (s : State) : s.forward.blocks = s.blocks := rfl

@[simp] theorem forward_openHashes (s : State) : s.forward.openHashes = s.openHashes := rfl

@[simp] theorem record_ahead (s : State) (d : Diagnostic) : (s.record d).ahead = s.ahead := rfl

@[simp] theorem record_diagnostics (s : State) (d : Diagnostic) :
    (s.record d).diagnostics = s.diagnostics ++ [d] := rfl

@[simp] theorem record_blocks (s : State) (d : Diagnostic) : (s.record d).blocks = s.blocks := rfl

@[simp] theorem record_openHashes (s : State) (d : Diagnostic) :
    (s.record d).openHashes = s.openHashes := rfl

theorem ahead_eq_of_current {s : State} {kind : Token.Kind} (h : s.current.kind = kind)
    (hkind : kind ≠ .eof) : s.ahead = ⟨kind, s.current.literal⟩ :: s.ahead.tail := by
  rcases hahead : s.ahead with _ | ⟨token, rest⟩
  · rw [current, hahead] at h
    exact absurd h.symm hkind
  · rw [current, hahead] at h
    subst h
    simp [current, hahead]

theorem tail_eq_of_peek {s : State} {kind : Token.Kind} (h : s.peek.kind = kind)
    (hkind : kind ≠ .eof) : s.ahead.tail = ⟨kind, s.peek.literal⟩ :: s.ahead.tail.tail :=
  ahead_eq_of_current (s := s.forward) h hkind

end State

/-- What comes of a reply when a second part follows: only a rule that applied is gone on with. -/
def Reply.andThen (reply : Reply α) (next : α → Parser β) : Reply β :=
  match reply with
  | .done a t => next a t
  | .failed t => .failed t
  | .exhausted => .exhausted

@[simp] theorem Reply.done_andThen (a : α) (t : State) (next : α → Parser β) :
    (Reply.done a t).andThen next = next a t := rfl

@[simp] theorem Reply.failed_andThen (t : State) (next : α → Parser β) :
    (Reply.failed t).andThen next = .failed t := rfl

@[simp] theorem Reply.exhausted_andThen (next : α → Parser β) :
    Reply.exhausted.andThen next = .exhausted := rfl

theorem bind_apply (rule : Parser α) (next : α → Parser β) (s : State) :
    (rule >>= next) s = (rule s).andThen next := rfl

section Steps

@[simp] theorem pure_apply (a : α) (s : State) : (pure a : Parser α) s = .done a s := rfl

@[simp] theorem exhausted_apply (s : State) : (exhausted : Parser α) s = .exhausted := rfl

@[simp] theorem reject_apply (d : Diagnostic) (s : State) :
    (reject d : Parser α) s = .failed (s.record d) := rfl

@[simp] theorem current_bind_apply (next : Token → Parser β) (s : State) :
    (current >>= next) s = next s.current s := rfl

@[simp] theorem peekKind_bind_apply (next : Token.Kind → Parser β) (s : State) :
    (peekKind >>= next) s = next s.peek.kind s := rfl

@[simp] theorem advance_bind_apply (next : Unit → Parser β) (s : State) :
    (advance >>= next) s = next () s.forward := rfl

@[simp] theorem enterBlock_bind_apply (next : Unit → Parser β) (s : State) :
    (enterBlock >>= next) s = next () { s with blocks := s.blocks + 1 } := rfl

@[simp] theorem leaveBlock_bind_apply (next : Unit → Parser β) (s : State) :
    (leaveBlock >>= next) s = next () { s with blocks := s.blocks - 1 } := rfl

@[simp] theorem enterHash_bind_apply (next : Unit → Parser β) (s : State) :
    (enterHash >>= next) s = next () { s with openHashes := s.openHashes + 1 } := rfl

@[simp] theorem leaveHash_bind_apply (next : Unit → Parser β) (s : State) :
    (leaveHash >>= next) s = next () { s with openHashes := s.openHashes - 1 } := rfl

theorem expect_bind_of_eq {kind : Token.Kind} {s : State} (h : s.peek.kind = kind)
    (next : Unit → Parser β) : (expect kind >>= next) s = next () s.forward := by
  rw [bind_apply, expect, if_pos h]
  rfl

theorem expect_bind_of_ne {kind : Token.Kind} {s : State} (h : s.peek.kind ≠ kind)
    (next : Unit → Parser β) :
    (expect kind >>= next) s = .failed (s.record (.unexpected kind s.peek.kind)) := by
  rw [bind_apply, expect, if_neg h]
  rfl

theorem skipSemicolon_bind_of_eq {s : State} (h : s.peek.kind = .semicolon)
    (next : Unit → Parser β) : (skipSemicolon >>= next) s = next () s.forward := by
  rw [bind_apply, skipSemicolon, if_pos h]
  rfl

theorem skipSemicolon_bind_of_ne {s : State} (h : s.peek.kind ≠ .semicolon)
    (next : Unit → Parser β) : (skipSemicolon >>= next) s = next () s := by
  rw [bind_apply, skipSemicolon, if_neg h]
  rfl

end Steps

section Applied

theorem bind_of_done {rule : Parser α} {next : α → Parser β} {s u : State} {a : α}
    (h : rule s = .done a u) : (rule >>= next) s = next a u := by
  rw [bind_apply, h, Reply.done_andThen]

theorem bind_eq_done_iff {rule : Parser α} {next : α → Parser β} {s t : State} {b : β} :
    (rule >>= next) s = .done b t ↔ ∃ a u, rule s = .done a u ∧ next a u = .done b t := by
  rw [bind_apply]
  constructor
  · intro h
    cases hrule : rule s with
    | done a u => exact ⟨a, u, rfl, by simpa [hrule] using h⟩
    | failed u => simp [hrule] at h
    | exhausted => simp [hrule] at h
  · rintro ⟨a, u, hrule, hnext⟩
    rw [hrule, Reply.done_andThen, hnext]

theorem expect_bind_eq_done_iff {kind : Token.Kind}
    {next : Unit → Parser β} {s t : State} {b : β} :
    (expect kind >>= next) s = .done b t ↔
      s.peek.kind = kind ∧ next () s.forward = .done b t := by
  by_cases h : s.peek.kind = kind
  · simp [expect_bind_of_eq h, h]
  · simp [expect_bind_of_ne h, h]

end Applied

section Recovery

/-- The state in which reading resumes when a statement begun in `s` has failed in `t`. -/
def State.resumed (s t : State) : State :=
  { t with
    ahead := passOver (decide (0 < t.blocks)) (t.openHashes - s.openHashes) t.ahead
    openHashes := s.openHashes
    dropped := t.dropped + 1 }

theorem orPassOver_of_done {rule : Parser α} {s t : State} {a : α} (h : rule s = .done a t) :
    orPassOver rule s = .done (some a) t := by
  rw [orPassOver, h]

theorem orPassOver_of_failed {rule : Parser α} {s t : State} (h : rule s = .failed t) :
    orPassOver rule s = .done none (s.resumed t) := by
  rw [orPassOver, h]
  rfl

theorem orPassOver_of_exhausted {rule : Parser α} {s : State} (h : rule s = .exhausted) :
    orPassOver rule s = .exhausted := by
  rw [orPassOver, h]

/-- A statement that is tried is read, or it fails and reading resumes behind it. -/
theorem orPassOver_cases {rule : Parser α} {s t : State} {first : Option α}
    (h : orPassOver rule s = .done first t) :
    (∃ a, first = some a ∧ rule s = .done a t) ∨
      ∃ u, first = none ∧ rule s = .failed u ∧ t = s.resumed u := by
  cases hrule : rule s with
  | done a u =>
      rw [orPassOver_of_done hrule] at h
      cases h
      exact .inl ⟨a, rfl, rfl⟩
  | failed u =>
      rw [orPassOver_of_failed hrule] at h
      cases h
      exact .inr ⟨u, rfl, rfl, rfl⟩
  | exhausted =>
      rw [orPassOver_of_exhausted hrule] at h
      cases h

theorem passOver_suffix (inBlock : Bool) (depth : Nat) (tokens : List Token) :
    passOver inBlock depth tokens <:+ tokens := by
  induction tokens generalizing depth with
  | nil => exact List.suffix_refl []
  | cons token rest ih =>
      rw [passOver]
      split
      · exact List.suffix_refl _
      · exact (ih _).trans (List.suffix_cons token rest)

end Recovery

section Endings

/-- What holds at the end of a rule: `onDone` if it applied, `onFailed` if it did not.  Nothing is
said of a rule that ran out of its allowance. -/
def Reply.Ends (reply : Reply α) (onDone : α → State → Prop) (onFailed : State → Prop) : Prop :=
  match reply with
  | .done a t => onDone a t
  | .failed t => onFailed t
  | .exhausted => True

variable {P : α → State → Prop} {Q : β → State → Prop} {F G : State → Prop}

@[simp] theorem Reply.done_ends {a : α} {t : State} : (Reply.done a t).Ends P F ↔ P a t := Iff.rfl

@[simp] theorem Reply.failed_ends {t : State} :
    (Reply.failed t : Reply α).Ends P F ↔ F t := Iff.rfl

@[simp] theorem Reply.exhausted_ends : (Reply.exhausted : Reply α).Ends P F := trivial

theorem Reply.Ends.mono {reply : Reply α} {P' : α → State → Prop} (h : reply.Ends P F)
    (hdone : ∀ a t, P a t → P' a t) (hfailed : ∀ t, F t → G t) : reply.Ends P' G := by
  cases reply with
  | done a t => exact hdone a t h
  | failed t => exact hfailed t h
  | exhausted => trivial

theorem Reply.Ends.of_done {reply : Reply α} {a : α} {t : State} (h : reply.Ends P F)
    (hdone : reply = .done a t) : P a t := by
  rwa [hdone] at h

theorem Reply.Ends.and {reply : Reply α} {P' : α → State → Prop} (h : reply.Ends P F)
    (h' : reply.Ends P' G) : reply.Ends (fun a t => P a t ∧ P' a t) fun t => F t ∧ G t := by
  cases reply with
  | done a t => exact ⟨h, h'⟩
  | failed t => exact ⟨h, h'⟩
  | exhausted => trivial

/-- A rule in two parts ends well if the second part does wherever the first part can end. -/
theorem bind_ends {rule : Parser α} {next : α → Parser β} {s : State} (hrule : (rule s).Ends P F)
    (hfailed : ∀ t, F t → G t) (hnext : ∀ a t, P a t → (next a t).Ends Q G) :
    ((rule >>= next) s).Ends Q G := by
  rw [bind_apply]
  cases h : rule s with
  | done a t =>
      rw [h] at hrule
      exact hnext a t hrule
  | failed t =>
      rw [h] at hrule
      exact hfailed t hrule
  | exhausted => trivial

theorem expect_bind_ends {kind : Token.Kind} {next : Unit → Parser β} {s : State}
    (hfailed : s.peek.kind ≠ kind → G (s.record (.unexpected kind s.peek.kind)))
    (hnext : s.peek.kind = kind → (next () s.forward).Ends Q G) :
    ((expect kind >>= next) s).Ends Q G := by
  by_cases h : s.peek.kind = kind
  · rw [expect_bind_of_eq h]
    exact hnext h
  · rw [expect_bind_of_ne h]
    exact hfailed h

theorem skipSemicolon_bind_ends {next : Unit → Parser β} {s : State}
    (hskipped : s.peek.kind = .semicolon → (next () s.forward).Ends Q G)
    (hmissing : s.peek.kind ≠ .semicolon → (next () s).Ends Q G) :
    ((skipSemicolon >>= next) s).Ends Q G := by
  by_cases h : s.peek.kind = .semicolon
  · rw [skipSemicolon_bind_of_eq h]
    exact hskipped h
  · rw [skipSemicolon_bind_of_ne h]
    exact hmissing h

theorem orPassOver_bind_ends {rule : Parser α} {next : Option α → Parser β} {s : State}
    (hrule : (rule s).Ends P F) (hdone : ∀ a t, P a t → (next (some a) t).Ends Q G)
    (hfailed : ∀ t, rule s = .failed t → F t → (next none (s.resumed t)).Ends Q G) :
    ((orPassOver rule >>= next) s).Ends Q G := by
  rw [bind_apply]
  cases h : rule s with
  | done a t =>
      rw [h] at hrule
      rw [orPassOver_of_done h]
      exact hdone a t hrule
  | failed t =>
      rw [h] at hrule
      rw [orPassOver_of_failed h]
      exact hfailed t h hrule
  | exhausted =>
      rw [orPassOver_of_exhausted h]
      trivial

end Endings

end ScriptLang.Parser
