import ScriptLang.Proofs.Grammar.Levels

/-!
Programs that can be followed by more.

The grammar looks at most one token ahead, so a phrase with something behind it is read the same
way when still more follows.  At the end of the input that need not be so: the end closes open
blocks, and what follows may continue an expression.  `Spans` says that nothing else can go wrong.
If as many braces are closed as are opened, then no block is closed by the end of the input, and
behind a semicolon no expression goes on.
-/

namespace ScriptLang

namespace Token

/-- How a token changes the number of open braces. -/
def Kind.weight : Kind → Int
  | .lbrace => 1
  | .rbrace => -1
  | _ => 0

/-- How many more braces are opened than closed. -/
def surplus : List Token → Int
  | [] => 0
  | token :: rest => token.kind.weight + surplus rest

@[simp] theorem surplus_nil : surplus [] = 0 := rfl

@[simp] theorem surplus_cons (token : Token) (rest : List Token) :
    surplus (token :: rest) = token.kind.weight + surplus rest := rfl

theorem surplus_eq (tokens : List Token) : surplus tokens =
    (tokens.countP (·.kind = .lbrace) : Int) - tokens.countP (·.kind = .rbrace) := by
  induction tokens with
  | nil => rfl
  | cons token rest ih =>
      obtain ⟨kind, text⟩ := token
      rw [surplus_cons, ih]
      cases kind <;> simp [Kind.weight] <;> omega

end Token

namespace Grammar

open Token (surplus)

section Ending

/-- The last token, if there is one, is no semicolon. -/
def Unended (tokens : List Token) : Prop :=
  ∀ last ∈ tokens.getLast?, last.kind ≠ .semicolon

theorem unended_singleton {token : Token} (h : token.kind ≠ .semicolon) : Unended [token] := by
  rintro last ⟨⟩
  exact h

theorem Unended.of_suffix {xs ys : List Token} (h : Unended xs) (hsuffix : xs <:+ ys)
    (hne : xs ≠ []) : Unended ys := by
  obtain ⟨front, rfl⟩ := hsuffix
  intro last hlast
  rw [List.getLast?_append, List.getLast?_eq_some_getLast hne, Option.some_or] at hlast
  cases hlast
  exact h _ (List.getLast?_eq_some_getLast hne)

theorem Unended.cons {token : Token} {tokens : List Token} (h : token.kind ≠ .semicolon)
    (htokens : Unended tokens) : Unended (token :: tokens) := by
  cases tokens with
  | nil => exact unended_singleton h
  | cons next tokens => exact htokens.of_suffix (List.suffix_cons _ _) (List.cons_ne_nil _ _)

/-- A token that neither ends a statement nor counts as a brace. -/
def Inner (kind : Token.Kind) : Prop :=
  kind ≠ .semicolon ∧ kind.weight = 0

instance (kind : Token.Kind) : Decidable (Inner kind) :=
  inferInstanceAs (Decidable (_ ∧ _))

theorem inner_unary (op : UnaryOp) : Inner op.kind := by
  cases op <;> decide

theorem inner_binary (op : BinaryOp) : Inner op.kind := by
  cases op <;> decide

theorem kindAhead_append {rest : List Token} (h : rest ≠ []) (more : List Token) :
    kindAhead (rest ++ more) = kindAhead rest := by
  cases rest with
  | nil => exact absurd rfl h
  | cons token rest => rfl

end Ending

/-- From `tokens` to `rest` lies part of a statement.  It closes no more braces than it opens,
apart from those it has to close.  If it leaves none open, then no semicolon ends it, and with
something behind it what `R` says holds whatever more follows. -/
structure Part (closing : Int) (R : List Token → Prop) (tokens rest : List Token) : Prop where
  suffix : rest <:+ tokens
  surplus_le : surplus rest ≤ surplus tokens + closing
  unended : surplus tokens + closing = surplus rest → rest = [] → Unended tokens
  extend : surplus tokens + closing = surplus rest → rest ≠ [] → ∀ more, R more

/-- From `tokens` to `rest` lie statements, or one statement.  Behind a semicolon more may follow
even if there is nothing behind it yet. -/
structure Whole (R : List Token → Prop) (tokens rest : List Token) : Prop where
  suffix : rest <:+ tokens
  surplus_le : surplus rest ≤ surplus tokens
  extend : surplus tokens = surplus rest → (rest ≠ [] ∨ ¬ Unended tokens) → ∀ more, R more

namespace Part

variable {closing : Int} {R R' : List Token → Prop} {tokens behind rest : List Token}
  {kind : Token.Kind} {text : String}

theorem map (h : Part closing R tokens rest) (hR : rest ≠ [] → ∀ more, R more → R' more) :
    Part closing R' tokens rest where
  suffix := h.suffix
  surplus_le := h.surplus_le
  unended := h.unended
  extend hclosed hrest more := hR hrest more (h.extend hclosed hrest more)

theorem single (hinner : Inner kind) (rest : List Token) :
    Part 0 (fun _ => True) (⟨kind, text⟩ :: rest) rest where
  suffix := List.suffix_cons _ _
  surplus_le := by simp [hinner.2]
  unended := by
    rintro - rfl
    exact unended_singleton hinner.1
  extend _ _ _ := trivial

theorem cons (hinner : Inner kind) (h : Part closing R tokens rest) :
    Part closing R (⟨kind, text⟩ :: tokens) rest where
  suffix := h.suffix.trans (List.suffix_cons _ _)
  surplus_le := by simpa [hinner.2] using h.surplus_le
  unended hclosed hrest := by
    rw [Token.surplus_cons, hinner.2, Int.zero_add] at hclosed
    exact (h.unended hclosed hrest).cons hinner.1
  extend hclosed := by
    rw [Token.surplus_cons, hinner.2, Int.zero_add] at hclosed
    exact h.extend hclosed

theorem pass (hinner : Inner kind) (h : Part closing R tokens (⟨kind, text⟩ :: rest)) :
    Part closing R tokens rest where
  suffix := (List.suffix_cons _ _).trans h.suffix
  surplus_le := by simpa [hinner.2] using h.surplus_le
  unended := by
    rintro - rfl
    exact (unended_singleton hinner.1).of_suffix h.suffix (List.cons_ne_nil _ _)
  extend hclosed _ := by
    refine h.extend ?_ (List.cons_ne_nil _ _)
    rw [hclosed, Token.surplus_cons, hinner.2, Int.zero_add]

theorem seq (h : Part 0 R tokens behind) (h' : Part closing R' behind rest) :
    Part closing (fun more => R more ∧ R' more) tokens rest := by
  have hle := h.surplus_le
  have hle' := h'.surplus_le
  refine ⟨h'.suffix.trans h.suffix, by omega, ?_, ?_⟩
  · intro hclosed hrest
    have hsecond := h'.unended (by omega) hrest
    by_cases hbehind : behind = []
    · exact h.unended (by omega) hbehind
    · exact hsecond.of_suffix h.suffix hbehind
  · intro hclosed hrest more
    have hbehind : behind ≠ [] := fun hnil =>
      hrest (List.suffix_nil.mp (hnil ▸ h'.suffix))
    exact ⟨h.extend (by omega) hbehind more, h'.extend (by omega) hrest more⟩

theorem brace (h : Part 1 R tokens rest) : Part 0 R (⟨.lbrace, text⟩ :: tokens) rest := by
  have hle := h.surplus_le
  have hsurplus : surplus (⟨.lbrace, text⟩ :: tokens) = surplus tokens + 1 := Int.add_comm 1 _
  refine ⟨h.suffix.trans (List.suffix_cons _ _), by omega, ?_, ?_⟩
  · intro hclosed hrest
    exact (h.unended (by omega) hrest).cons Token.Kind.noConfusion
  · intro hclosed hrest
    exact h.extend (by omega) hrest

theorem rbrace (rest : List Token) :
    Part 1 (fun _ => True) (⟨.rbrace, text⟩ :: rest) rest where
  suffix := List.suffix_cons _ _
  surplus_le := by
    simp only [Token.surplus_cons, Token.Kind.weight]
    omega
  unended := by
    rintro - rfl
    exact unended_singleton Token.Kind.noConfusion
  extend _ _ _ := trivial

theorem bareReturn (hnext : kindAhead tokens = .semicolon ∨ kindAhead tokens = .rbrace ∨
    kindAhead tokens = .eof) : Part 0 (fun more => kindAhead (tokens ++ more) = .semicolon ∨
      kindAhead (tokens ++ more) = .rbrace ∨ kindAhead (tokens ++ more) = .eof)
      (⟨.returnWord, text⟩ :: tokens) tokens := by
  refine (Part.single (by decide) _).map fun htokens more _ => ?_
  rwa [kindAhead_append htokens]

end Part

namespace Whole

variable {R R' : List Token → Prop} {tokens behind rest : List Token}

theorem map (h : Whole R tokens rest) (hR : ∀ more, R more → R' more) : Whole R' tokens rest where
  suffix := h.suffix
  surplus_le := h.surplus_le
  extend hclosed hrest more := hR more (h.extend hclosed hrest more)

theorem closed {text : String} (h : Whole R tokens (⟨.rbrace, text⟩ :: rest)) :
    Part 1 R tokens rest := by
  have hle := h.surplus_le
  have hsurplus : surplus (⟨.rbrace, text⟩ :: rest) = surplus rest - 1 := Int.add_comm (-1) _
  refine ⟨(List.suffix_cons _ _).trans h.suffix, by omega, ?_, ?_⟩
  · rintro - rfl
    exact (unended_singleton Token.Kind.noConfusion).of_suffix h.suffix (List.cons_ne_nil _ _)
  · intro hclosed hrest
    exact h.extend (by omega) (.inl (List.cons_ne_nil _ _))

theorem unclosed {text : String} (h : Whole R tokens []) :
    Part 0 R' (⟨.lbrace, text⟩ :: tokens) [] := by
  have hle := h.surplus_le
  have hsurplus : surplus (⟨.lbrace, text⟩ :: tokens) = surplus tokens + 1 := Int.add_comm 1 _
  rw [Token.surplus_nil] at hle
  refine ⟨List.nil_suffix, ?_, ?_, ?_⟩
  · rw [Token.surplus_nil]
    omega
  · intro hclosed
    rw [Token.surplus_nil] at hclosed
    omega
  · intro _ hrest
    exact absurd rfl hrest

theorem of_part (h : Part 0 R tokens behind) (hend : Ends behind rest) :
    Whole (fun more => R more ∧ Ends (behind ++ more) (rest ++ more)) tokens rest := by
  have hle := h.surplus_le
  cases hend with
  | @semicolon text rest =>
      have hsurplus : surplus (⟨.semicolon, text⟩ :: rest) = surplus rest := Int.zero_add _
      refine ⟨(List.suffix_cons _ _).trans h.suffix, by omega, ?_⟩
      intro hclosed _ more
      exact ⟨h.extend (by omega) (List.cons_ne_nil _ _) more, .semicolon⟩
  | missing hmissing =>
      refine ⟨h.suffix, by omega, ?_⟩
      intro hclosed hopen more
      have hbehind : behind ≠ [] := by
        rintro rfl
        exact hopen.elim (absurd rfl) (absurd (h.unended (by omega) rfl))
      refine ⟨h.extend (by omega) hbehind more, .missing ?_⟩
      rwa [kindAhead_append hbehind]

theorem seq (h : Whole R tokens behind) (h' : Whole R' behind rest)
    (hnil : behind = [] → ∀ more, R' more) :
    Whole (fun more => R more ∧ R' more) tokens rest := by
  have hle := h.surplus_le
  have hle' := h'.surplus_le
  refine ⟨h'.suffix.trans h.suffix, by omega, ?_⟩
  intro hclosed hopen more
  by_cases hbehind : behind = []
  · have hrest : rest = [] := List.suffix_nil.mp (hbehind ▸ h'.suffix)
    have hended : ¬ Unended tokens := hopen.resolve_left (absurd hrest)
    exact ⟨h.extend (by omega) (.inr hended) more, hnil hbehind more⟩
  · refine ⟨h.extend (by omega) (.inl hbehind) more, h'.extend (by omega) ?_ more⟩
    exact hopen.imp_right fun hended hunended => hended (hunended.of_suffix h.suffix hbehind)

end Whole

/-- What a phrase is when more follows. -/
def Spans (phrase : Phrase) (tokens rest : List Token) : Prop :=
  let extended := fun more => Reads phrase (tokens ++ more) (rest ++ more)
  match phrase with
  | .statement _ | .statements _ => Whole extended tokens rest
  | .pairs _ | .morePairs _ => Part 1 extended tokens rest
  | .items close _ | .moreItems close _ => Inner close → Part 0 extended tokens rest
  | _ => Part 0 extended tokens rest

theorem statements_eq_nil {ss : List Stmt} {rest : List Token}
    (h : Reads (.statements ss) [] rest) :
    ss = [] := by
  cases h with
  | noStatements => rfl
  | statements hfirst _ => nomatch hfirst.begins

theorem Reads.spans {phrase : Phrase} {tokens rest : List Token} (h : Reads phrase tokens rest) :
    Spans phrase tokens rest := by
  induction h with
  | looser hlevel _ ih => exact Part.map ih fun _ _ h => .looser hlevel h
  | binary hlevel _ _ ihleft ihright =>
      exact (Part.seq (Part.pass (inner_binary _) ihleft) ihright).map
        fun _ _ h => .binary hlevel h.1 h.2
  | unary _ ih => exact (Part.cons (inner_unary _) ih).map fun _ _ h => .unary h
  | call _ _ ihcallee ihargs =>
      exact (Part.seq (Part.pass (by decide) ihcallee) (ihargs (by decide))).map
        fun _ _ h => .call h.1 h.2
  | index _ _ ihcollection ihposition =>
      exact (Part.seq (Part.pass (by decide) ihcollection) (Part.pass (by decide) ihposition)).map
        fun _ _ h => .index h.1 h.2
  | ident => exact (Part.single (by decide) _).map fun _ _ _ => .ident
  | int hdigits => exact (Part.single (by decide) _).map fun _ _ _ => .int hdigits
  | string => exact (Part.single (by decide) _).map fun _ _ _ => .string
  | trueWord => exact (Part.single (by decide) _).map fun _ _ _ => .trueWord
  | falseWord => exact (Part.single (by decide) _).map fun _ _ _ => .falseWord
  | group _ ih =>
      exact (Part.cons (by decide) (Part.pass (by decide) ih)).map fun _ _ h => .group h
  | cond _ _ ihcondition ihyes =>
      exact ((((Part.pass (by decide) ihcondition).seq ihyes).cons (by decide)).cons
        (by decide)).map
        fun _ _ h => .cond h.1 h.2
  | condElse _ _ _ ihcondition ihyes ihno =>
      exact ((((Part.pass (by decide) ihcondition).seq
        ((Part.pass (by decide) ihyes).seq ihno)).cons (by decide)).cons (by decide)).map
        fun _ _ h => .condElse h.1 h.2.1 h.2.2
  | fn _ _ ihparams ihbody =>
      exact (((Part.seq ihparams ihbody).cons (by decide)).cons (by decide)).map
        fun _ _ h => .fn h.1 h.2
  | array _ ih => exact (Part.cons (by decide) (ih (by decide))).map fun _ _ h => .array h
  | hash _ ih => exact (Part.brace ih).map fun _ _ h => .hash h
  | expression _ hend ih =>
      refine Part.map ih fun hrest more h => .expression h ?_
      rwa [kindAhead_append hrest]
  | noItems => exact fun hclose => (Part.single hclose _).map fun _ _ _ => .noItems
  | items _ _ ihfirst ihmore =>
      exact fun hclose => (Part.seq ihfirst (ihmore hclose)).map fun _ _ h => .items h.1 h.2
  | noMoreItems => exact fun hclose => (Part.single hclose _).map fun _ _ _ => .noMoreItems
  | moreItems _ _ ihfirst ihmore =>
      exact fun hclose => ((Part.seq ihfirst (ihmore hclose)).cons (by decide)).map
        fun _ _ h => .moreItems h.1 h.2
  | noParams => exact (Part.single (by decide) _).map fun _ _ _ => .noParams
  | params _ ih => exact (Part.cons (by decide) ih).map fun _ _ h => .params h
  | noMoreParams => exact (Part.single (by decide) _).map fun _ _ _ => .noMoreParams
  | moreParams _ ih =>
      exact ((Part.cons (by decide) ih).cons (by decide)).map fun _ _ h => .moreParams h
  | noPairs => exact (Part.rbrace _).map fun _ _ _ => .noPairs
  | pairs _ _ _ ihkey ihvalue ihmore =>
      exact ((Part.pass (by decide) ihkey).seq (Part.seq ihvalue ihmore)).map
        fun _ _ h => .pairs h.1 h.2.1 h.2.2
  | noMorePairs => exact (Part.rbrace _).map fun _ _ _ => .noMorePairs
  | morePairs _ ih => exact (Part.cons (by decide) ih).map fun _ _ h => .morePairs h
  | closed _ ih => exact (Part.brace (Whole.closed ih)).map fun _ _ h => .closed h
  | unclosed _ ih => exact Whole.unclosed ih
  | noStatements => exact ⟨List.suffix_rfl, Int.le_refl _, fun _ _ _ => .noStatements⟩
  | statements _ hmore ihfirst ihmore =>
      refine (Whole.seq ihfirst ihmore ?_).map fun _ h => .statements h.1 h.2
      rintro rfl more
      obtain rfl := statements_eq_nil hmore
      cases hmore
      exact .noStatements
  | bind _ hend ih =>
      exact (Whole.of_part (((Part.cons (by decide) ih).cons (by decide)).cons (by decide))
        hend).map
        fun _ h => .bind h.1 h.2
  | bareReturn hnext hend =>
      exact (Whole.of_part (Part.bareReturn hnext) hend).map fun _ h => .bareReturn h.1 h.2
  | ret _ hend ih =>
      exact (Whole.of_part (Part.cons (by decide) ih) hend).map fun _ h => .ret h.1 h.2
  | expr _ hend ih => exact (Whole.of_part ih hend).map fun _ h => .expr h.1 h.2

/-- Statements that end in a semicolon and close the braces they open are read the same way
whatever follows them. -/
theorem Reads.extend {ss : List Stmt} {tokens : List Token} (h : Reads (.statements ss) tokens [])
    (hended : ¬ Unended tokens) (hclosed : surplus tokens = 0) (more : List Token) :
    Reads (.statements ss) (tokens ++ more) more :=
  Whole.extend h.spans hclosed (.inr hended) more

theorem Reads.statements_append {ss ss' : List Stmt} {tokens behind rest : List Token}
    (h : Reads (.statements ss) tokens behind) (h' : Reads (.statements ss') behind rest) :
    Reads (.statements (ss ++ ss')) tokens rest := by
  induction ss generalizing tokens with
  | nil =>
      cases h
      exact h'
  | cons s ss ih =>
      cases h with
      | statements hfirst hmore => exact .statements hfirst (ih hmore)

end Grammar

open Grammar

/-- Nothing is left open at the end of the tokens: the last one is a semicolon, and as many braces
are closed as are opened. -/
structure Token.Complete (tokens : List Token) : Prop where
  ended : ∃ last ∈ tokens.getLast?, last.kind = .semicolon
  closed : tokens.countP (·.kind = .lbrace) = tokens.countP (·.kind = .rbrace)

namespace Token.Complete

variable {tokens : List Token}

theorem not_unended (h : Token.Complete tokens) : ¬ Unended tokens := by
  obtain ⟨last, hlast, hkind⟩ := h.ended
  intro hunended
  exact hunended last hlast hkind

theorem surplus_eq_zero (h : Token.Complete tokens) : surplus tokens = 0 := by
  rw [surplus_eq, h.closed, Int.sub_self]

end Token.Complete

end ScriptLang
