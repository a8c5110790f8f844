import ScriptLang.Proofs.Parser.Confinement
import ScriptLang.Proofs.Parser.Exactness
import ScriptLang.Proofs.Parser.Recovery

/-!
What a broken hash costs.

Among tokens that begin no block, all braces belong to hashes.  The statements in front of a
semicolon outside all braces are then read apart from those behind it, broken or not, with one
exception.  Where a closing brace stands in place of an expression, the hash it closes is still
counted as open, and what is left of the statement is looked for up to a closing brace that is not
there.
-/

namespace ScriptLang

/-- One reading and then another. -/
def Reading.append (first second : Reading) : Reading :=
  ⟨first.program ++ second.program, first.diagnostics ++ second.diagnostics⟩

namespace Parser

open Token (nesting nesting_append nesting_add nesting_cons)

section PassOver

theorem passOver_stop {token : Token} (hkind : token.kind = .semicolon) (rest : List Token) :
    passOver false 0 (token :: rest) = token :: rest := by
  simp [passOver, hkind]

theorem passOver_goOn {depth : Nat} {token : Token}
    (h : ¬ (depth = 0 ∧ token.kind = .semicolon)) (next : Token) (behind : List Token) :
    passOver false depth (token :: next :: behind) =
      passOver false (braceDepth depth next.kind) (next :: behind) := by
  rw [passOver, if_neg (by simpa using h), List.headD_cons]

theorem braceDepth_of_nest {depth after : Nat} {kind : Token.Kind}
    (h : Token.nest depth kind = some after) : braceDepth depth kind = after := by
  rw [nest_braceDepth, Option.some.injEq] at h
  · exact h
  · rintro rfl rfl
    cases h

/-- When as many braces are counted as are open, passing over ends at the semicolon at the
latest. -/
theorem passOver_delimited {depth : Nat} {tokens : List Token} (h : Delimited tokens)
    (hdepth : nesting depth tokens.tail = some 0) :
    Delimited (passOver false depth tokens) ∧
      nesting 0 (passOver false depth tokens).tail = some 0 ∧
      ∀ more, passOver false depth (tokens ++ more) = passOver false depth tokens ++ more := by
  induction h generalizing depth with
  | @last token hkind =>
      rw [List.tail_cons, nesting, Option.some.injEq] at hdepth
      subst hdepth
      rw [passOver_stop hkind]
      exact ⟨.last hkind, rfl, fun more => passOver_stop hkind _⟩
  | @cons token rest hfn hif hrest ih =>
      by_cases hstop : depth = 0 ∧ token.kind = .semicolon
      · obtain ⟨rfl, hkind⟩ := hstop
        rw [passOver_stop hkind]
        exact ⟨.cons hfn hif hrest, hdepth, fun more => passOver_stop hkind _⟩
      · cases rest with
        | nil => cases hrest
        | cons next behind =>
            rw [List.tail_cons, nesting_cons] at hdepth
            obtain ⟨after, hnext, hbehind⟩ := Option.bind_eq_some_iff.mp hdepth
            have hafter := ih hbehind
            rw [← braceDepth_of_nest hnext, ← passOver_goOn hstop next behind] at hafter
            refine ⟨hafter.1, hafter.2.1, ?_⟩
            intro more
            rw [← hafter.2.2 more]
            exact passOver_goOn hstop next (behind ++ more)

/-- When more braces are counted than are open, everything is passed over. -/
theorem passOver_eq_nil {depth extra after : Nat} (hextra : 0 < extra) {tokens : List Token}
    (h : nesting depth tokens.tail = some after) :
    passOver false (depth + extra) tokens = [] := by
  induction tokens generalizing depth with
  | nil => rfl
  | cons token rest ih =>
      have hgoes : ¬ (depth + extra = 0 ∧ token.kind = .semicolon) := by omega
      cases rest with
      | nil => rw [passOver, if_neg (by simpa using hgoes), passOver]
      | cons next behind =>
          rw [List.tail_cons, nesting_cons] at h
          obtain ⟨depth', hnext, hbehind⟩ := Option.bind_eq_some_iff.mp h
          rw [passOver_goOn hgoes, braceDepth_of_nest (Token.nest_add hnext extra)]
          exact ih hbehind

end PassOver

/-- Outside all braces, with balanced tokens up to a semicolon ahead, or with none. -/
structure State.Clear (s : State) : Prop where
  blocks : s.blocks = 0
  openHashes : s.openHashes = 0
  words : Words s.ahead
  balanced : Token.Balanced s.ahead
  delimited : s.ahead = [] ∨ Delimited s.ahead

/-- Where a statement begun in `s` has come to.  It has opened `depth` hashes and not closed them,
and `extra` more are counted as open, one for each closing brace that stood in place of an
expression. -/
structure Stopped (s t : State) (depth extra : Nat) : Prop where
  upTo : t.UpTo
  suffix : t.ahead <:+ s.ahead
  blocks : t.blocks = s.blocks
  openHashes : t.openHashes = s.openHashes + (depth + extra)
  strays : t.strays = s.strays + extra
  closes : nesting depth t.ahead.tail = some 0

theorem Passed.nesting_rest {b k : Nat} {here there : List Token} (h : Passed b k here there)
    (hthere : there ≠ []) (hbalanced : Token.Balanced here) :
    ∃ depth, k = depth + b ∧ nesting depth there = some 0 := by
  obtain ⟨passed, after, rfl, hpassed, -, hafter⟩ := h
  rw [Token.Balanced, nesting_append] at hbalanced
  obtain ⟨depth, hdepth, hrest⟩ := Option.bind_eq_some_iff.mp hbalanced
  refine ⟨depth, ?_, hrest⟩
  have hsame := nesting_add hdepth b
  rw [Nat.zero_add, hpassed, Option.some.injEq] at hsame
  rw [← hsame]
  exact (hafter.resolve_right hthere).symm

theorem Words.concat {tokens : List Token} {token : Token} (h : Words tokens)
    (hkind : token.kind = .semicolon) : Words (tokens ++ [token]) := by
  intro other hother
  rcases List.mem_append.mp hother with hother | hother
  · exact h other hother
  · rw [List.mem_singleton.mp hother, hkind]
    decide

theorem nesting_concat {token : Token} (h : token.kind = .semicolon) (depth : Nat)
    (tokens : List Token) : nesting depth (tokens ++ [token]) = nesting depth tokens := by
  rw [nesting_append]
  cases nesting depth tokens with
  | none => rfl
  | some after =>
      rw [Option.bind_some, nesting_cons, Token.nest_plain (by rw [h]; decide)]
      rfl

theorem Delimited.tail_append {tokens : List Token} (h : Delimited tokens) (more : List Token) :
    (tokens ++ more).tail = tokens.tail ++ more := by
  cases h <;> rfl

theorem Stopped.of_reached {k : Nat} {s t : State} {semicolon : Token}
    (hkind : semicolon.kind = .semicolon) (hs : s.Clear) (ht : t.UpTo)
    (hsuffix : t.ahead <:+ s.ahead)
    (h : Reached k (s.followed [semicolon]) (t.followed [semicolon])
      (s.ahead ++ [semicolon]) (t.ahead ++ [semicolon]).tail) :
    ∃ depth extra, k = depth + extra ∧ Stopped s t depth extra := by
  obtain ⟨hhashes, hblocks, hpassed⟩ := h
  obtain ⟨extra, hstrays, hextra⟩ := hpassed (hs.words.concat hkind)
  rw [ht.tail_append] at hextra
  have hbalanced : Token.Balanced (s.ahead ++ [semicolon]) := by
    rw [Token.Balanced, nesting_concat hkind]
    exact hs.balanced
  obtain ⟨depth, rfl, hdepth⟩ := hextra.nesting_rest (by simp) hbalanced
  rw [nesting_concat hkind] at hdepth
  exact ⟨depth, extra, rfl, ht, hsuffix, hblocks, hhashes, hstrays, hdepth⟩

/-- The braces are counted on a copy of the statement with one more semicolon behind it, so that
the end of input is not reached and the count is exact. -/
theorem statement_stopped {n : Nat} {s : State} (hs : s.Clear) (hupTo : s.UpTo) :
    (statement n s).Ends (fun _ t => Stopped s t 0 0)
      fun t => ∃ depth extra, Stopped s t depth extra := by
  have hbraces := (braces n).statement (s.followed [⟨.semicolon, ";"⟩])
  have hsuffix := (suffix_invariant.respected n).statement s
  obtain ⟨hsame, hends⟩ := (confinement n).statement hupTo
  rw [Reply.Braced, hsame] at hbraces
  cases hreply : statement n s with
  | done st t =>
      rw [hreply] at hbraces hsuffix hends
      obtain ⟨depth, extra, hzero, hstopped⟩ := Stopped.of_reached rfl hs hends hsuffix hbraces
      obtain ⟨rfl, rfl⟩ : depth = 0 ∧ extra = 0 := by omega
      exact hstopped
  | failed t =>
      rw [hreply] at hbraces hsuffix hends
      obtain ⟨k, hbraces⟩ := hbraces
      obtain ⟨depth, extra, -, hstopped⟩ := Stopped.of_reached rfl hs hends hsuffix hbraces
      exact ⟨depth, extra, hstopped⟩
  | exhausted => trivial

theorem resumed_followed (s t : State) (more : List Token) :
    (s.followed more).resumed (t.followed more) = (s.resumed t).facing
      (passOver (decide (0 < t.blocks)) (t.openHashes - s.openHashes) (t.ahead ++ more)) := rfl

namespace Stopped

variable {s t : State} {depth extra : Nat}

theorem forward_clear (h : Stopped s t 0 0) (hs : s.Clear) : t.forward.Clear where
  blocks := h.blocks.trans hs.blocks
  openHashes := h.openHashes.trans hs.openHashes
  words := (hs.words.suffix h.suffix).tail
  balanced := h.closes
  delimited := Delimited.tail h.upTo

theorem passOver_eq (h : Stopped s t depth extra) (hs : s.Clear) (tokens : List Token) :
    passOver (decide (0 < t.blocks)) (t.openHashes - s.openHashes) tokens =
      passOver false (depth + extra) tokens := by
  rw [h.blocks, hs.blocks, h.openHashes, Nat.add_sub_cancel_left]
  rfl

theorem resumed (h : Stopped s t depth 0) (hs : s.Clear) : Stopped s (s.resumed t) 0 0 := by
  obtain ⟨hupTo, hnesting, -⟩ := passOver_delimited h.upTo h.closes
  rw [← Nat.add_zero depth, ← h.passOver_eq hs] at hupTo hnesting
  exact ⟨hupTo, (passOver_suffix _ _ _).trans h.suffix, h.blocks, rfl, h.strays, hnesting⟩

theorem followed_resumed (h : Stopped s t depth 0) (hs : s.Clear) (more : List Token) :
    (s.followed more).resumed (t.followed more) = (s.resumed t).followed more := by
  obtain ⟨-, -, hmore⟩ := passOver_delimited h.upTo h.closes
  rw [resumed_followed, h.passOver_eq hs, Nat.add_zero, hmore]
  rw [State.resumed, h.passOver_eq hs]
  rfl

theorem swallowed (h : Stopped s t depth extra) (hs : s.Clear) (hextra : 0 < extra)
    {more : List Token} (hmore : Token.Balanced more) :
    (s.followed more).resumed (t.followed more) = (s.resumed t).facing [] := by
  have hnesting : nesting depth (t.ahead ++ more).tail = some 0 := by
    rw [Delimited.tail_append h.upTo, nesting_append, h.closes]
    exact hmore
  rw [resumed_followed, h.passOver_eq hs, passOver_eq_nil hextra hnesting]

end Stopped

section Lists

/-- From `s` the statements `first` are read, and then whatever is read from `t`. -/
def LeadsTo (s t : State) (first : List Stmt) : Prop :=
  ∀ more others u, Yields (statements · false) (t.followed more) (.done others u) →
    Yields (statements · false) (s.followed more) (.done (first ++ others) u)

/-- From `s` the statements `first` are read and no more, whatever balanced tokens follow. -/
def Swallows (s t : State) (first : List Stmt) : Prop :=
  ∀ more, Token.Balanced more → Yields (statements · false) (s.followed more) (.done first t)

variable {s t u : State} {first others : List Stmt}

theorem LeadsTo.refl (s : State) : LeadsTo s s [] :=
  fun _ _ _ h => h

theorem LeadsTo.trans (h : LeadsTo s t first) (h' : LeadsTo t u others) :
    LeadsTo s u (first ++ others) := by
  intro more rest v hv
  rw [List.append_assoc]
  exact h more _ v (h' more rest v hv)

theorem LeadsTo.swallows (h : LeadsTo s t first) (h' : Swallows t u others) :
    Swallows s u (first ++ others) := by
  intro more hmore
  exact h more others u (h' more hmore)

theorem yields_nothing (h : s.ahead = []) : Yields (statements · false) s (.done [] s) := by
  apply Yields.succ
  refine ⟨0, ?_⟩
  intro n _
  change statements (n + 1) false s = _
  have hend : s.current.kind = .eof := by rw [State.current, h]; rfl
  rw [statements, current_bind_apply, if_pos (.inl hend), pure_apply]

/-- A statement comes to the same end whatever follows, for every allowance that is large
enough. -/
theorem statement_yields (h : s.UpTo) : ∃ n, statement n s ≠ .exhausted ∧
    ∀ more, Yields statement (s.followed more) ((statement n s).followed more) := by
  have hwithin := (enough (8 * s.ahead.length + 3)).statement s (Nat.le_refl _)
  have hreply : statement (8 * s.ahead.length + 3) s ≠ .exhausted := by
    intro hout
    rw [hout] at hwithin
    exact hwithin
  refine ⟨_, hreply, fun more => ⟨8 * s.ahead.length + 3, ?_⟩⟩
  intro n hn
  rw [((confinement n).statement h).1, reply_of_le (fun n => (grows _ n).statement) hn hreply]

theorem State.Clear.goes_on (hs : s.Clear) (hupTo : s.UpTo) (more : List Token) :
    ¬ ((s.followed more).current.kind = .eof ∨
      false = true ∧ (s.followed more).current.kind = .rbrace) := by
  rw [hupTo.followed_current]
  rintro (hend | ⟨hfalse, -⟩)
  · exact Delimited.ne_nil hupTo (hs.words.eq_nil hend)
  · cases hfalse

/-- One statement is read or passed over, or the rest goes with it. -/
theorem State.Clear.step (hs : s.Clear) (hupTo : s.UpTo) :
    (∃ first t, t.Clear ∧ t.ahead.length < s.ahead.length ∧ t.strays = s.strays ∧
      LeadsTo s t first) ∨
      ∃ t, s.strays < t.strays ∧ Swallows s t [] := by
  obtain ⟨n, hreply, hyields⟩ := statement_yields hupTo
  have hstopped := statement_stopped (n := n) hs hupTo
  have hshorter {t : State} (ht : t.ahead <:+ s.ahead) :
      t.forward.ahead.length < s.ahead.length := by
    have hle := ht.length_le
    have hpos := List.length_pos_iff.mpr (Delimited.ne_nil hupTo)
    rw [State.forward_length]
    omega
  cases hstatement : statement n s with
  | done st t =>
      rw [hstatement] at hstopped hyields
      left
      refine ⟨[st], t.forward, hstopped.forward_clear hs, hshorter hstopped.suffix,
        hstopped.strays, ?_⟩
      intro more others u hu
      rw [← State.UpTo.followed_forward hstopped.upTo] at hu
      exact Yields.statements (hs.goes_on hupTo more) (hyields more).orPassOver_done hu
  | failed t =>
      rw [hstatement] at hstopped hyields
      obtain ⟨depth, extra, hstopped⟩ := hstopped
      rcases Nat.eq_zero_or_pos extra with rfl | hextra
      · have hresumed := hstopped.resumed hs
        left
        refine ⟨[], (s.resumed t).forward, hresumed.forward_clear hs, hshorter hresumed.suffix,
          hresumed.strays, ?_⟩
        intro more others u hu
        rw [← State.UpTo.followed_forward hresumed.upTo, ← hstopped.followed_resumed hs] at hu
        exact Yields.statements (hs.goes_on hupTo more) (hyields more).orPassOver_failed hu
      · right
        refine ⟨(s.resumed t).facing [], ?_, ?_⟩
        · have hstrays := hstopped.strays
          change s.strays < t.strays
          omega
        · intro more hmore
          refine Yields.statements (hs.goes_on hupTo more) (hyields more).orPassOver_failed ?_
          rw [hstopped.swallowed hs hextra hmore]
          exact yields_nothing rfl
  | exhausted => exact absurd hstatement hreply

/-- Up to the semicolon statements are read one after the other, or there is a first one with
which the rest goes. -/
theorem State.Clear.run (hs : s.Clear) : ∃ first t,
    (t.Clear ∧ t.ahead = [] ∧ t.strays = s.strays ∧ LeadsTo s t first) ∨
      (s.strays < t.strays ∧ Swallows s t first) := by
  induction hlength : s.ahead.length using Nat.strongRecOn generalizing s with
  | ind length ih =>
      subst hlength
      rcases hs.delimited with hend | hupTo
      · exact ⟨[], s, .inl ⟨hs, hend, rfl, .refl s⟩⟩
      · rcases hs.step hupTo with ⟨first, t, ht, hless, hstrays, hleads⟩ | ⟨t, hstrays, hswallows⟩
        · obtain ⟨others, u, hrun⟩ := ih _ hless ht rfl
          refine ⟨first ++ others, u, ?_⟩
          rcases hrun with ⟨hu, hend, hsame, hleads'⟩ | ⟨hmore, hswallows⟩
          · exact .inl ⟨hu, hend, hsame.trans hstrays, hleads.trans hleads'⟩
          · exact .inr ⟨hstrays ▸ hmore, hleads.swallows hswallows⟩
        · exact ⟨[], t, .inr ⟨hstrays, hswallows⟩⟩

end Lists

theorem yields_recalling (earlier : State) (tokens : List Token) :
    Yields (statements · false) ((State.start tokens).recalling earlier)
      ((run tokens).recalling earlier) := by
  obtain ⟨program, state, hrun⟩ := run_eq_done tokens
  obtain ⟨m, hm⟩ := yields_run tokens
  apply Yields.succ
  refine ⟨m, ?_⟩
  intro n hn
  have hreply : statements n false (.start tokens) = run tokens := hm n hn
  rw [← hreply]
  apply statements_recalling
  rw [hreply, hrun]
  nofun

/-- With nothing ahead and no brace open, reading starts anew. -/
theorem State.Clear.followed_eq {t : State} (ht : t.Clear) (hend : t.ahead = [])
    (tokens : List Token) : t.followed tokens = (State.start tokens).recalling t := by
  simp [State.followed, State.recalling, State.start, hend, ht.blocks, ht.openHashes]

theorem start_clear {before : List Token} {semicolon : Token}
    (hkind : semicolon.kind = .semicolon) (hwords : Words before)
    (hbalanced : Token.Balanced before)
    (hplain : ∀ token ∈ before, token.kind ≠ .fnWord ∧ token.kind ≠ .ifWord) :
    (State.start (before ++ [semicolon])).Clear where
  blocks := rfl
  openHashes := rfl
  words := hwords.concat hkind
  balanced := (nesting_concat hkind 0 before).trans hbalanced
  delimited := .inr (delimited_append hkind hplain)

theorem start_followed (before behind : List Token) (semicolon : Token) :
    (State.start (before ++ [semicolon])).followed behind =
      State.start (before ++ semicolon :: behind) := by
  simp [State.followed, State.start]

section Readings

variable {before : List Token} {semicolon : Token} {first : Program} {t : State}

theorem ofTokens_of_leads (ht : t.Clear) (hend : t.ahead = [])
    (h : LeadsTo (.start (before ++ [semicolon])) t first) (behind : List Token) :
    Reading.ofTokens (before ++ semicolon :: behind) =
      Reading.append ⟨first, t.diagnostics⟩ (Reading.ofTokens behind) := by
  obtain ⟨others, u, hrun⟩ := run_eq_done behind
  have hbehind := yields_recalling t behind
  rw [hrun, ← ht.followed_eq hend] at hbehind
  have hyields := h behind others (u.recalling t) hbehind
  rw [start_followed] at hyields
  rw [ofTokens_of_run (run_of_yields hyields), ofTokens_of_run hrun]
  rfl

theorem ofTokens_of_swallows (h : Swallows (.start (before ++ [semicolon])) t first)
    {behind : List Token} (hbehind : Token.Balanced behind) :
    Reading.ofTokens (before ++ semicolon :: behind) = ⟨first, t.diagnostics⟩ := by
  have hyields := h behind hbehind
  rw [start_followed] at hyields
  exact ofTokens_of_run (run_of_yields hyields)

end Readings

end Parser

open ScriptLang.Parser

/-- Tokens that begin no block and have balanced braces are read apart from what stands behind the
semicolon that follows them, exactly if there is no closing brace among them that stands in place
of an expression. -/
theorem Reading.ofTokens_apart_iff {before : List Token} {semicolon : Token}
    (hkind : semicolon.kind = .semicolon) (hwords : Words before)
    (hbalanced : Token.Balanced before)
    (hplain : ∀ token ∈ before, token.kind ≠ .fnWord ∧ token.kind ≠ .ifWord) :
    (∀ behind, Reading.ofTokens (before ++ semicolon :: behind) =
      (Reading.ofTokens (before ++ [semicolon])).append (Reading.ofTokens behind)) ↔
      .noExpression .rbrace ∉ (Reading.ofTokens (before ++ [semicolon])).diagnostics := by
  obtain ⟨first, t, hrun⟩ := (start_clear hkind hwords hbalanced hplain).run
  rcases hrun with ⟨ht, hend, hstrays, hleads⟩ | ⟨hstrays, hswallows⟩
  · have hfront : Reading.ofTokens (before ++ [semicolon]) = ⟨first, t.diagnostics⟩ := by
      have hnothing : Reading.ofTokens [] = ⟨[], []⟩ := rfl
      rw [ofTokens_of_leads ht hend hleads, hnothing]
      simp [Reading.append]
    rw [hfront]
    constructor
    · intro _
      exact List.count_eq_zero.mp hstrays
    · intro _
      exact ofTokens_of_leads ht hend hleads
  · have hfront : Reading.ofTokens (before ++ [semicolon]) = ⟨first, t.diagnostics⟩ :=
      ofTokens_of_swallows hswallows rfl
    rw [hfront]
    constructor
    · intro hapart
      have hname : Reading.ofTokens [⟨.ident, "x"⟩] = ⟨[.expr (.ident "x")], []⟩ := rfl
      have hlost := hapart [⟨.ident, "x"⟩]
      have hbalanced : Token.Balanced [⟨.ident, "x"⟩] := rfl
      rw [ofTokens_of_swallows hswallows hbalanced, hname] at hlost
      simp [Reading.append] at hlost
    · intro hnone
      have hzero : t.strays = 0 := List.count_eq_zero.mpr hnone
      omega

theorem words_of_missing_colon : Token.words "\x7b1 2\x7d".toList =
    [⟨.lbrace, "\x7b"⟩, ⟨.int, "1"⟩, ⟨.int, "2"⟩, ⟨.rbrace, "\x7d"⟩] := by
  decide +kernel

/-- A hash with a missing colon costs its own statement and nothing behind it. -/
theorem Reading.missing_colon_read_apart :
    Token.Balanced (Token.words "\x7b1 2\x7d".toList) ∧
    ∀ behind, Reading.ofTokens (Token.words "\x7b1 2\x7d".toList ++ ⟨.semicolon, ";"⟩ :: behind) =
      Reading.append ⟨[], [.unexpected .colon .int]⟩ (Reading.ofTokens behind) := by
  have hwords := words_of_missing_colon
  have hbalanced : Token.Balanced (Token.words "\x7b1 2\x7d".toList) := by
    rw [hwords]
    rfl
  have hplain : ∀ token ∈ Token.words "\x7b1 2\x7d".toList,
      token.kind ≠ .fnWord ∧ token.kind ≠ .ifWord := by
    rw [hwords]
    decide
  have hfront : Reading.ofTokens (Token.words "\x7b1 2\x7d".toList ++ [⟨.semicolon, ";"⟩]) =
      ⟨[], [.unexpected .colon .int]⟩ := by
    rw [hwords]
    rfl
  refine ⟨hbalanced, ?_⟩
  rw [← hfront]
  refine (Reading.ofTokens_apart_iff rfl ?_ hbalanced hplain).mpr ?_
  · exact fun token htoken => Token.kind_ne_eof_of_mem_words htoken
  · rw [hfront]
    decide

theorem words_of_missing_value : Token.words "\x7b1: \x7d; 2".toList =
    [⟨.lbrace, "\x7b"⟩, ⟨.int, "1"⟩, ⟨.colon, ":"⟩, ⟨.rbrace, "\x7d"⟩, ⟨.semicolon, ";"⟩,
      ⟨.int, "2"⟩] := by
  decide +kernel

/-- A hash with a missing value takes the rest of the program with it. -/
theorem Reading.missing_value_swallows_rest :
    Token.Balanced [⟨.lbrace, "\x7b"⟩, ⟨.int, "1"⟩, ⟨.colon, ":"⟩, ⟨.rbrace, "\x7d"⟩] ∧
    Token.words "\x7b1: \x7d; 2".toList =
      [⟨.lbrace, "\x7b"⟩, ⟨.int, "1"⟩, ⟨.colon, ":"⟩, ⟨.rbrace, "\x7d"⟩] ++
        ⟨.semicolon, ";"⟩ :: [⟨.int, "2"⟩] ∧
    Reading.ofSource "\x7b1: \x7d; 2" = ⟨[], [.noExpression .rbrace]⟩ ∧
    Reading.append
      (Reading.ofTokens ([⟨.lbrace, "\x7b"⟩, ⟨.int, "1"⟩, ⟨.colon, ":"⟩, ⟨.rbrace, "\x7d"⟩] ++
        [⟨.semicolon, ";"⟩]))
      (Reading.ofTokens [⟨.int, "2"⟩]) = ⟨[.expr (.int 2)], [.noExpression .rbrace]⟩ := by
  rw [Reading.ofSource, words_of_missing_value]
  exact ⟨rfl, rfl, rfl, rfl⟩

end ScriptLang
