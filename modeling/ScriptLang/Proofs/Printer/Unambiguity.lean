import ScriptLang.Proofs.Printer.Tokens

/-!
Canonical texts are unambiguous.

A canonical text cannot always be read back by the parser: conditions have no parentheses of their
own, and in a block one statement may run into the next.  Still no two trees share one.  What
tells them apart is the spaces.  Arguments follow at once what is called, while a space stands
between statements; a block begins with a space behind its brace, and a hash does not.

The argument goes over two texts that begin alike.  Where one begins with an expression and the
other with an expression too, the two are the same up to calls: one of them may be what is called
in the other.
-/

namespace ScriptLang

open ScriptLang.Text
open Token (fixed words Break)

section Boundaries

/-- What can stand behind the text of an expression: not the rest of a word, and no second
branch. -/
structure Follows (rest : List Char) : Prop where
  apart : Break rest
  noElse : (words rest).head? ≠ some (fixed .elseWord)

/-- What can stand behind the text of an expression that is not called. -/
structure Closes (rest : List Char) : Prop extends Follows rest where
  noCall : rest.head? ≠ some '('

theorem follows_mark {c : Char} {kind : Token.Kind} (h : Token.Kind.ofMark? c = some kind)
    (hc : isLetter c = false ∧ c.isDigit = false) (rest : List Char) : Follows (c :: rest) := by
  refine ⟨break_mark rest hc, ?_⟩
  rw [Token.words_mark h, List.head?_cons]
  intro helse
  have hlength := congrArg (fun token => token.literal.toList.length) (Option.some.inj helse)
  simp [fixed, Token.Kind.text] at hlength

theorem closes_mark {c : Char} {kind : Token.Kind} (h : Token.Kind.ofMark? c = some kind)
    (hc : (isLetter c = false ∧ c.isDigit = false) ∧ c ≠ '(') (rest : List Char) :
    Closes (c :: rest) :=
  ⟨follows_mark h hc.1 rest, by simpa using hc.2⟩

theorem closes_space {rest : List Char} (h : (words rest).head? ≠ some (fixed .elseWord)) :
    Closes (' ' :: rest) :=
  ⟨⟨break_mark rest (by decide), by rwa [Token.words_space]⟩, by simp⟩

theorem closes_nil : Closes [] :=
  ⟨⟨Token.break_nil, by simp⟩, by simp⟩

theorem closes_operator (op : BinaryOp) (rest : List Char) :
    Closes (' ' :: (op.symbol.toList ++ ' ' :: rest)) := by
  apply closes_space
  rw [words_binary, List.head?_cons]
  cases op <;> decide

theorem closes_block (texts : List String) (rest : List Char) :
    Closes (' ' :: ((braced texts).toList ++ rest)) := by
  apply closes_space
  simp only [braced, String.toList_append, List.append_assoc]
  rw [show "\x7b".toList = ['\x7b'] from rfl, List.singleton_append,
    words_fixed '\x7b' rfl, List.head?_cons]
  decide

theorem closes_assign (rest : List Char) : Closes (' ' :: '=' :: ' ' :: rest) := by
  apply closes_space
  rw [words_assign, List.head?_cons]
  decide

end Boundaries

section Items

variable {α : Type} {valid : α → Prop} {text : α → String}

/-- Where the text of this item stands no other item can be read. -/
def Separates (valid : α → Prop) (text : α → String) (item : α) : Prop :=
  ∀ other, valid other → ∀ rest rest', Closes rest → Closes rest' →
    (text item).toList ++ rest = (text other).toList ++ rest' → item = other ∧ rest = rest'

/-- The text begins as the text of an expression or a statement does. -/
def Opens (text : String) : Prop :=
  ∃ c kind, text.toList.head? = some c ∧ Leads c kind

theorem Opens.ne {text : String} (h : Opens text) {c : Char} (hc : c ∈ [')', ']', '\x7d'])
    (rest rest' : List Char) : text.toList ++ rest ≠ c :: rest' := by
  obtain ⟨first, kind, hhead, hleads⟩ := h
  obtain ⟨more, htext⟩ := List.head?_eq_some_iff.mp hhead
  rw [htext, List.cons_append]
  intro heq
  obtain rfl := (List.cons.inj heq).1
  simp only [List.mem_cons, List.not_mem_nil, or_false] at hc
  rcases hc with rfl | rfl | rfl <;>
    rcases hleads with ⟨h, -⟩ | ⟨h, -⟩ | ⟨h, -⟩ | ⟨h, -⟩ | ⟨h, -⟩ | ⟨h, -⟩ <;>
    exact absurd h (by decide)

/-- The texts of items in a row, each with the same sign in front. -/
def row (sign : List Char) (text : α → String) (items : List α) : List Char :=
  items.flatMap fun item => sign ++ (text item).toList

/-- A row that ends with a sign of its own can be cut in one way only. -/
theorem row_inj {sign close : List Char}
    (hdiffer : ∀ item, valid item → ∀ rest rest',
      sign ++ ((text item).toList ++ rest) ≠ close ++ rest')
    (hcloses : ∀ items, (∀ item ∈ items, valid item) → ∀ rest,
      Closes (row sign text items ++ (close ++ rest)))
    {items items' : List α} (hvalid : ∀ item ∈ items, valid item)
    (hvalid' : ∀ item ∈ items', valid item) (h : ∀ item ∈ items, Separates valid text item)
    {rest rest' : List Char}
    (heq : row sign text items ++ (close ++ rest) = row sign text items' ++ (close ++ rest')) :
    items = items' ∧ rest = rest' := by
  induction items generalizing items' with
  | nil =>
      cases items' with
      | nil => exact ⟨rfl, List.append_cancel_left heq⟩
      | cons item items' =>
          have hitem := hdiffer item (hvalid' item (by simp))
            (row sign text items' ++ (close ++ rest')) rest
          exact absurd heq.symm (by simpa [row] using hitem)
  | cons item items ih =>
      cases items' with
      | nil =>
          have hitem := hdiffer item (hvalid item (by simp))
            (row sign text items ++ (close ++ rest)) rest'
          exact absurd heq (by simpa [row] using hitem)
      | cons item' items' =>
          rw [List.forall_mem_cons] at hvalid hvalid' h
          have htexts : (text item).toList ++ (row sign text items ++ (close ++ rest)) =
              (text item').toList ++ (row sign text items' ++ (close ++ rest')) := by
            simpa [row] using heq
          obtain ⟨rfl, hmore⟩ := h.1 item' hvalid'.1 _ _ (hcloses items hvalid.2 rest)
            (hcloses items' hvalid'.2 rest') htexts
          obtain ⟨rfl, hrest⟩ := ih hvalid.2 hvalid'.2 h.2 hmore
          exact ⟨rfl, hrest⟩

theorem toList_commaSeparated_cons (item : α) (items : List α) :
    (commaSeparated ((item :: items).map text)).toList =
      (text item).toList ++ row [',', ' '] text items := by
  rw [commaSeparated, List.map_cons, toList_intercalate_cons, List.flatMap_map]
  rfl

/-- Items between commas can be told apart up to the bracket behind them. -/
theorem commaSeparated_inj {c : Char} (hc : c ∈ [')', ']', '\x7d'])
    (hopens : ∀ item, valid item → Opens (text item))
    {items items' : List α} (hvalid : ∀ item ∈ items, valid item)
    (hvalid' : ∀ item ∈ items', valid item) (h : ∀ item ∈ items, Separates valid text item)
    {rest rest' : List Char}
    (heq : (commaSeparated (items.map text)).toList ++ c :: rest =
      (commaSeparated (items'.map text)).toList ++ c :: rest') :
    items = items' ∧ rest = rest' := by
  have hclose (rest : List Char) : Closes (c :: rest) := by
    simp only [List.mem_cons, List.not_mem_nil, or_false] at hc
    rcases hc with rfl | rfl | rfl <;> exact closes_mark rfl (by decide) rest
  have hrow (items : List α) (rest : List Char) :
      Closes (row [',', ' '] text items ++ ([c] ++ rest)) := by
    cases items with
    | nil => exact hclose rest
    | cons item items => exact closes_mark rfl (by decide) _
  cases items with
  | nil =>
      cases items' with
      | nil => exact ⟨rfl, (List.cons.inj heq).2⟩
      | cons item items' =>
          rw [toList_commaSeparated_cons, List.append_assoc] at heq
          exact absurd heq.symm ((hopens item (hvalid' item (by simp))).ne hc _ _)
  | cons item items =>
      cases items' with
      | nil =>
          rw [toList_commaSeparated_cons, List.append_assoc] at heq
          exact absurd heq ((hopens item (hvalid item (by simp))).ne hc _ _)
      | cons item' items' =>
          rw [List.forall_mem_cons] at hvalid hvalid' h
          rw [toList_commaSeparated_cons, toList_commaSeparated_cons, List.append_assoc,
            List.append_assoc] at heq
          obtain ⟨rfl, hmore⟩ := h.1 item' hvalid'.1 _ _ (hrow items rest) (hrow items' rest') heq
          have hcomma : ',' ≠ c := by
            rintro rfl
            exact absurd hc (by decide)
          have hdiffer : ∀ item, valid item → ∀ rest rest',
              [',', ' '] ++ ((text item).toList ++ rest) ≠ [c] ++ rest' := by
            intro item _ rest rest' heq
            exact hcomma (List.cons.inj heq).1
          obtain ⟨rfl, hrest⟩ :=
            row_inj hdiffer (fun items _ rest => hrow items rest) hvalid.2 hvalid'.2 h.2 hmore
          exact ⟨rfl, hrest⟩

end Items

section Beginnings

variable {e : Expr}

theorem Expr.opens (h : e.Lexical) : Opens e.render := by
  obtain ⟨c, token, hhead, -, hleads⟩ := e.leads h
  exact ⟨c, token.kind, hhead, hleads⟩

/-- What the first word of an expression can be. -/
def openings : List Token.Kind :=
  [.ident, .trueWord, .falseWord, .ifWord, .fnWord] ++
    [.int, .string, .lparen, .lbracket, .lbrace]

theorem Leads.mem_openings {c : Char} {kind : Token.Kind}
    (h : Leads c kind) : kind ∈ openings := by
  rcases h with ⟨-, h⟩ | ⟨-, rfl⟩ | ⟨-, rfl⟩ | ⟨-, rfl⟩ | ⟨-, rfl⟩ | ⟨-, rfl⟩
  · exact List.mem_append_left _ h
  all_goals decide

theorem Expr.tokens_ne (h : e.Lexical) {kind : Token.Kind} (hkind : kind ∉ openings)
    (more rest : List Token) : e.tokens ++ more ≠ fixed kind :: rest := by
  obtain ⟨c, token, -, hhead, hleads⟩ := e.leads h
  obtain ⟨others, htokens⟩ := List.head?_eq_some_iff.mp hhead
  rw [htokens, List.cons_append]
  intro heq
  obtain rfl := (List.cons.inj heq).1
  exact hkind hleads.mem_openings

theorem Lexes.same_words {text text' : String} {tokens tokens' : List Token}
    {rest rest' : List Char}
    (h : Lexes text tokens) (h' : Lexes text' tokens') (hrest : Follows rest)
    (hrest' : Follows rest')
    (heq : text.toList ++ rest = text'.toList ++ rest') :
    tokens ++ words rest = tokens' ++ words rest' := by
  rw [← h rest hrest.apart, heq, h' rest' hrest'.apart]

theorem Stmt.opens {s : Stmt} (h : s.Lexical) : Opens s.render := by
  rcases s with ⟨name, value⟩ | ⟨_ | value⟩ | value
  · exact ⟨'l', .ident, by simp [Stmt.render], .inl ⟨rfl, by decide⟩⟩
  · exact ⟨'r', .ident, by simp [Stmt.render], .inl ⟨rfl, by decide⟩⟩
  · exact ⟨'r', .ident, by simp [Stmt.render], .inl ⟨rfl, by decide⟩⟩
  · exact value.opens h

theorem Stmt.head_ne_else {s : Stmt} (h : s.Lexical) (more : List Token) :
    (s.tokens ++ more).head? ≠ some (fixed .elseWord) := by
  rcases s with ⟨name, value⟩ | ⟨_ | value⟩ | value
  · simp [Stmt.tokens, fixed]
  · simp [Stmt.tokens, fixed]
  · simp [Stmt.tokens, fixed]
  · intro heq
    obtain ⟨others, htokens⟩ := List.head?_eq_some_iff.mp heq
    exact value.tokens_ne h (by decide) more others htokens

end Beginnings

section Calls

variable {e : Expr}

/-- The expression called with these arguments, and what comes of it called with the next ones. -/
def Expr.applied (e : Expr) (calls : List (List Expr)) : Expr :=
  calls.foldl .call e

def Expr.IsCall : Expr → Prop
  | .call _ _ => True
  | _ => False

theorem Expr.exists_applied : ∀ e : Expr, ∃ (head : Expr) (calls : List (List Expr)),
    ¬ head.IsCall ∧ e = head.applied calls
  | .call callee args => by
      obtain ⟨head, calls, hhead, hcallee⟩ := callee.exists_applied
      exact ⟨head, calls ++ [args], hhead, by rw [hcallee]; simp [applied]⟩
  | .ident _ | .int _ | .string _ | .bool _ | .unary _ _ | .binary _ _ _ | .cond _ _ _ | .fn _ _ _
  | .array _ | .index _ _ | .hash _ => ⟨_, [], id, rfl⟩

theorem Expr.lexical_of_applied {calls : List (List Expr)} (h : (e.applied calls).Lexical) :
    e.Lexical := by
  induction calls generalizing e with
  | nil => exact h
  | cons args calls ih => exact (ih (e := .call e args) h).1

/-- The arguments of calls, as they stand behind what is called. -/
def callsText (calls : List (List Expr)) : List Char :=
  calls.flatMap fun args => '(' :: ((commaSeparated (args.map Expr.render)).toList ++ [')'])

theorem Expr.toList_render_applied (e : Expr) (calls : List (List Expr)) :
    (e.applied calls).render.toList = e.render.toList ++ callsText calls := by
  induction calls generalizing e with
  | nil => simp [applied, callsText]
  | cons args calls ih =>
      have happlied : e.applied (args :: calls) = (Expr.call e args).applied calls := rfl
      rw [happlied, ih]
      simp [Expr.render, Expr.renderEach_eq_map, callsText]

theorem follows_callsText (calls : List (List Expr)) {rest : List Char} (h : Follows rest) :
    Follows (callsText calls ++ rest) := by
  cases calls with
  | nil => exact h
  | cons args calls => exact follows_mark rfl (by decide) _

/-- Where the text of this expression stands, only this expression can be read, or calls of it, or
what is called in it. -/
def Expr.Distinct (e : Expr) : Prop :=
  ∀ e', e'.Lexical → ∀ rest rest', Follows rest → Follows rest' →
    e.render.toList ++ rest = e'.render.toList ++ rest' →
    ∃ calls, e' = e.applied calls ∨ e = e'.applied calls

/-- Where the text of this expression stands, only this expression can be read, apart from
calls. -/
def Expr.Recognized (e : Expr) : Prop :=
  ∀ e', e'.Lexical → ¬ e'.IsCall → ∀ rest rest', Follows rest → Follows rest' →
    e.render.toList ++ rest = e'.render.toList ++ rest' → e = e'

theorem Expr.Recognized.distinct (h : e.Recognized) : e.Distinct := by
  intro e' hlexical rest rest' hrest hrest' heq
  obtain ⟨head, calls, hhead, rfl⟩ := e'.exists_applied
  rw [Expr.toList_render_applied, List.append_assoc] at heq
  obtain rfl := h head (Expr.lexical_of_applied hlexical) hhead _ _ hrest
    (follows_callsText calls hrest') heq
  exact ⟨calls, .inl rfl⟩

/-- Behind a whole expression there are no arguments, so it is no part of a call. -/
theorem Expr.Distinct.separates (h : e.Distinct) : Separates Expr.Lexical Expr.render e := by
  have hcalled {e : Expr} {args : List Expr} {calls : List (List Expr)} {rest rest' : List Char}
      (hrest : Closes rest)
      (heq : e.render.toList ++ rest = (e.applied (args :: calls)).render.toList ++ rest') :
        False := by
    rw [Expr.toList_render_applied, List.append_assoc] at heq
    rw [List.append_cancel_left heq] at hrest
    exact hrest.noCall rfl
  intro e' hlexical rest rest' hrest hrest' heq
  obtain ⟨calls, rfl | rfl⟩ := h e' hlexical rest rest' hrest.toFollows hrest'.toFollows heq
  · cases calls with
    | nil => exact ⟨rfl, List.append_cancel_left heq⟩
    | cons args calls => exact (hcalled hrest heq).elim
  · cases calls with
    | nil => exact ⟨rfl, List.append_cancel_left heq⟩
    | cons args calls => exact (hcalled hrest' heq.symm).elim

end Calls

section Lists

variable {rest rest' : List Char}

theorem Expr.lexical_of_mem {es : List Expr} (h : Expr.LexicalEach es) : ∀ e ∈ es, e.Lexical := by
  induction es with
  | nil => simp
  | cons e es ih => exact List.forall_mem_cons.mpr ⟨h.1, ih h.2⟩

theorem Stmt.lexical_of_mem {ss : List Stmt} (h : Stmt.LexicalEach ss) : ∀ s ∈ ss, s.Lexical := by
  induction ss with
  | nil => simp
  | cons s ss ih => exact List.forall_mem_cons.mpr ⟨h.1, ih h.2⟩

/-- A pair of a hash as it is written. -/
def pairText (pair : Expr × Expr) : String :=
  pair.1.render ++ ": " ++ pair.2.render

def PairLexical (pair : Expr × Expr) : Prop :=
  pair.1.Lexical ∧ pair.2.Lexical

theorem Expr.pairLexical_of_mem {pairs : List (Expr × Expr)} (h : Expr.LexicalPairs pairs) :
    ∀ pair ∈ pairs, PairLexical pair := by
  induction pairs with
  | nil => simp
  | cons pair pairs ih => exact List.forall_mem_cons.mpr ⟨⟨h.1, h.2.1⟩, ih h.2.2⟩

theorem Expr.renderPairs_eq_map (pairs : List (Expr × Expr)) :
    Expr.renderPairs pairs = pairs.map pairText := by
  induction pairs with
  | nil => rfl
  | cons pair pairs ih => simp [Expr.renderPairs, pairText, ih]

theorem PairLexical.opens {pair : Expr × Expr} (h : PairLexical pair) :
    Opens (pairText pair) := by
  obtain ⟨c, kind, hhead, hleads⟩ := Expr.opens h.1
  exact ⟨c, kind, by simp [pairText, List.head?_append, hhead], hleads⟩

theorem separates_pair {key value : Expr} (hkey : key.Distinct) (hvalue : value.Distinct) :
    Separates PairLexical pairText (key, value) := by
  rintro ⟨key', value'⟩ hlexical rest rest' hrest hrest' heq
  have htexts : key.render.toList ++ ':' :: ' ' :: (value.render.toList ++ rest) =
      key'.render.toList ++ ':' :: ' ' :: (value'.render.toList ++ rest') := by
    simpa [pairText] using heq
  obtain ⟨rfl, hmore⟩ := hkey.separates key' hlexical.1 _ _ (closes_mark rfl (by decide) _)
    (closes_mark rfl (by decide) _) htexts
  obtain ⟨rfl, hrest⟩ :=
    hvalue.separates value' hlexical.2 _ _ hrest hrest' (by simpa using hmore)
  exact ⟨rfl, hrest⟩

theorem IsName.opens {name : String} (h : IsName name) : Opens name :=
  Expr.opens (e := .ident name) h

theorem separates_name {name : String} (h : IsName name) : Separates IsName id name := by
  intro name' hname' rest rest' hrest hrest' heq
  have hwords := congrArg words heq
  simp only [id] at hwords
  rw [words_name h hrest.apart, words_name hname' hrest'.apart] at hwords
  obtain rfl : name = name' := congrArg Token.literal (List.cons.inj hwords).1
  exact ⟨rfl, List.append_cancel_left heq⟩

theorem closes_statements {ss : List Stmt} (h : ∀ s ∈ ss, s.Lexical) (rest : List Char) :
    Closes (row [' '] Stmt.render ss ++ ' ' :: '\x7d' :: rest) := by
  induction ss with
  | nil =>
      apply closes_space
      rw [words_fixed '\x7d' rfl, List.head?_cons]
      decide
  | cons s ss ih =>
      rw [List.forall_mem_cons] at h
      have htext : row [' '] Stmt.render (s :: ss) ++ ' ' :: '\x7d' :: rest =
          ' ' :: (s.render.toList ++ (row [' '] Stmt.render ss ++ ' ' :: '\x7d' :: rest)) := by
        simp [row]
      rw [htext]
      apply closes_space
      rw [s.lexes h.1 _ (ih h.2).apart]
      exact Stmt.head_ne_else h.1 _

theorem block_inj {ss ss' : List Stmt} (hlexical : Stmt.LexicalEach ss)
    (hlexical' : Stmt.LexicalEach ss') (h : ∀ s ∈ ss, Separates Stmt.Lexical Stmt.render s)
    (heq : (braced (Stmt.renderEach ss)).toList ++ rest =
      (braced (Stmt.renderEach ss')).toList ++ rest') :
    ss = ss' ∧ rest = rest' := by
  have htext (ss : List Stmt) (rest : List Char) : (braced (Stmt.renderEach ss)).toList ++ rest =
      '\x7b' :: (row [' '] Stmt.render ss ++ ([' ', '\x7d'] ++ rest)) := by
    simp [braced, row, Stmt.renderEach_eq_map, List.flatMap_map]
  rw [htext, htext] at heq
  refine row_inj ?_ ?_ (Stmt.lexical_of_mem hlexical) (Stmt.lexical_of_mem hlexical') h
    (List.cons.inj heq).2
  · intro s hs rest rest' heq
    exact (Stmt.opens hs).ne (by decide) _ _ (List.cons.inj heq).2
  · intro ss hss rest
    exact closes_statements hss rest

end Lists

section Operators

theorem UnaryOp.kind_inj {op op' : UnaryOp} (h : op.kind = op'.kind) : op = op' := by
  cases op <;> cases op' <;> first | rfl | cases h

theorem BinaryOp.kind_inj {op op' : BinaryOp} (h : op.kind = op'.kind) : op = op' := by
  cases op <;> cases op' <;> first | rfl | cases h

theorem UnaryOp.kind_not_mem_openings (op : UnaryOp) : op.kind ∉ openings := by
  cases op <;> decide

theorem BinaryOp.eq_of_symbol {op op' : BinaryOp} {rest rest' : List Char}
    (h : op.symbol.toList ++ ' ' :: rest = op'.symbol.toList ++ ' ' :: rest') : op = op' := by
  have hwords := congrArg words h
  rw [words_binary, words_binary] at hwords
  exact BinaryOp.kind_inj (congrArg Token.kind (List.cons.inj hwords).1)

end Operators

section Expressions

theorem Expr.recognized_of_word {e : Expr} {token : Token} (hlexical : e.Lexical)
    (htokens : e.tokens = [token])
    (h : ∀ e', e'.Lexical → ¬ e'.IsCall → e'.tokens.head? = some token → e = e') :
    e.Recognized := by
  intro e' hlexical' hplain rest rest' hrest hrest' heq
  have hwords := (Expr.lexes _ hlexical).same_words (e'.lexes hlexical') hrest hrest' heq
  obtain ⟨c, token', -, hhead, -⟩ := e'.leads hlexical'
  obtain ⟨more, htokens'⟩ := List.head?_eq_some_iff.mp hhead
  rw [htokens, htokens', List.cons_append, List.cons_append] at hwords
  obtain rfl := (List.cons.inj hwords).1
  exact h e' hlexical' hplain hhead

theorem Expr.recognized_ident {name : String} (h : IsName name) :
    (Expr.ident name).Recognized := by
  refine recognized_of_word h rfl fun e' _ hplain hhead => ?_
  cases e' with
  | ident name' => simpa [Expr.tokens, eq_comm] using hhead
  | call => exact absurd trivial hplain
  | bool b => cases b <;> simp [Expr.tokens, fixed] at hhead
  | _ => simp [Expr.tokens, fixed] at hhead

theorem Expr.recognized_int {value : Int64} (h : 0 ≤ value) : (Expr.int value).Recognized := by
  refine recognized_of_word h rfl fun e' hlexical' hplain hhead => ?_
  cases e' with
  | int value' =>
      have hdigits : Decimal.ofInt64 value' = Decimal.ofInt64 value := by
        simpa [Expr.tokens] using hhead
      rw [← (Decimal.value_ofInt64 h).2, ← hdigits, (Decimal.value_ofInt64 hlexical').2]
  | call => exact absurd trivial hplain
  | bool b => cases b <;> simp [Expr.tokens, fixed] at hhead
  | _ => simp [Expr.tokens, fixed] at hhead

theorem Expr.recognized_string (text : String) : (Expr.string text).Recognized := by
  have htokens : (Expr.string text).tokens = [⟨.string, text⟩] := rfl
  refine recognized_of_word trivial htokens fun e' _ hplain hhead => ?_
  cases e' with
  | string text' => simpa [Expr.tokens, eq_comm] using hhead
  | call => exact absurd trivial hplain
  | bool b => cases b <;> simp [Expr.tokens, fixed] at hhead
  | _ => simp [Expr.tokens, fixed] at hhead

theorem Expr.recognized_bool (b : Bool) : (Expr.bool b).Recognized := by
  have htokens : (Expr.bool b).tokens = [fixed (if b then .trueWord else .falseWord)] := by
    cases b <;> rfl
  refine recognized_of_word trivial htokens fun e' _ hplain hhead => ?_
  cases e' with
  | bool b' => cases b <;> cases b' <;> first | rfl | simp [Expr.tokens, fixed] at hhead
  | call => exact absurd trivial hplain
  | _ => cases b <;> simp [Expr.tokens, fixed] at hhead

theorem Expr.recognized_unary {op : UnaryOp} {operand : Expr}
    (hlexical : (Expr.unary op operand).Lexical) (h : operand.Distinct) :
    (Expr.unary op operand).Recognized := by
  intro e' hlexical' hplain rest rest' hrest hrest' heq
  have hwords := (Expr.lexes _ hlexical).same_words (e'.lexes hlexical') hrest hrest' heq
  simp only [Expr.tokens, List.cons_append] at hwords
  cases e' with
  | unary op' operand' =>
      simp only [Expr.tokens, List.cons_append, List.cons.injEq, true_and] at hwords
      obtain rfl := UnaryOp.kind_inj (congrArg Token.kind hwords.1)
      have htexts : operand.render.toList ++ ')' :: rest =
          operand'.render.toList ++ ')' :: rest' := by
        simpa [Expr.render] using heq
      obtain ⟨rfl, -⟩ := h.separates operand' hlexical' _ _ (closes_mark rfl (by decide) _)
        (closes_mark rfl (by decide) _) htexts
      rfl
  | binary left op' right =>
      simp only [Expr.tokens, List.cons_append, List.append_assoc,
        List.cons.injEq, true_and] at hwords
      exact absurd hwords.symm (left.tokens_ne hlexical'.1 op.kind_not_mem_openings _ _)
  | index collection position =>
      simp only [Expr.tokens, List.cons_append, List.append_assoc,
        List.cons.injEq, true_and] at hwords
      exact absurd hwords.symm (collection.tokens_ne hlexical'.1 op.kind_not_mem_openings _ _)
  | call => exact absurd trivial hplain
  | bool b => cases b <;> simp [Expr.tokens, fixed] at hwords
  | _ => simp [Expr.tokens, fixed] at hwords

theorem Expr.toList_render_binary (left : Expr) (op : BinaryOp)
    (right : Expr) (rest : List Char) :
    (Expr.binary left op right).render.toList ++ rest = '(' :: (left.render.toList ++
      ' ' :: (op.symbol.toList ++ ' ' :: (right.render.toList ++ ')' :: rest))) := by
  simp [Expr.render]

theorem Expr.toList_render_index (collection position : Expr) (rest : List Char) :
    (Expr.index collection position).render.toList ++ rest = '(' :: (collection.render.toList ++
      '[' :: (position.render.toList ++ ']' :: ')' :: rest)) := by
  simp [Expr.render]

theorem Expr.recognized_binary {left right : Expr} {op : BinaryOp}
    (hlexical : (Expr.binary left op right).Lexical) (hleft : left.Distinct)
    (hright : right.Distinct) :
    (Expr.binary left op right).Recognized := by
  intro e' hlexical' hplain rest rest' hrest hrest' heq
  have hwords := (Expr.lexes _ hlexical).same_words (e'.lexes hlexical') hrest hrest' heq
  simp only [Expr.tokens, List.cons_append, List.append_assoc] at hwords
  cases e' with
  | binary left' op' right' =>
      rw [toList_render_binary, toList_render_binary] at heq
      obtain ⟨rfl, hmore⟩ := hleft.separates left' hlexical'.1 _ _ (closes_operator op _)
        (closes_operator op' _) (List.cons.inj heq).2
      have hoperators := (List.cons.inj hmore).2
      obtain rfl := BinaryOp.eq_of_symbol hoperators
      obtain ⟨rfl, -⟩ := hright.separates right' hlexical'.2 _ _ (closes_mark rfl (by decide) _)
        (closes_mark rfl (by decide) _) (List.cons.inj (List.append_cancel_left hoperators)).2
      rfl
  | unary op' operand =>
      simp only [Expr.tokens, List.cons_append, List.cons.injEq, true_and] at hwords
      exact absurd hwords (left.tokens_ne hlexical.1 op'.kind_not_mem_openings _ _)
  | index collection position =>
      rw [toList_render_binary, toList_render_index] at heq
      obtain ⟨-, hmore⟩ := hleft.separates collection hlexical'.1 _ _ (closes_operator op _)
        (closes_mark rfl (by decide) _) (List.cons.inj heq).2
      exact absurd (List.cons.inj hmore).1 (by decide)
  | call => exact absurd trivial hplain
  | bool b => cases b <;> simp [Expr.tokens, fixed] at hwords
  | _ => simp [Expr.tokens, fixed] at hwords

theorem Expr.recognized_index {collection position : Expr}
    (hlexical : (Expr.index collection position).Lexical) (hcollection : collection.Distinct)
    (hposition : position.Distinct) : (Expr.index collection position).Recognized := by
  intro e' hlexical' hplain rest rest' hrest hrest' heq
  have hwords := (Expr.lexes _ hlexical).same_words (e'.lexes hlexical') hrest hrest' heq
  simp only [Expr.tokens, List.cons_append, List.append_assoc] at hwords
  cases e' with
  | index collection' position' =>
      rw [toList_render_index, toList_render_index] at heq
      obtain ⟨rfl, hmore⟩ := hcollection.separates collection' hlexical'.1 _ _
        (closes_mark rfl (by decide) _) (closes_mark rfl (by decide) _) (List.cons.inj heq).2
      obtain ⟨rfl, -⟩ := hposition.separates position' hlexical'.2 _ _
        (closes_mark rfl (by decide) _) (closes_mark rfl (by decide) _) (List.cons.inj hmore).2
      rfl
  | unary op' operand =>
      simp only [Expr.tokens, List.cons_append, List.cons.injEq, true_and] at hwords
      exact absurd hwords (collection.tokens_ne hlexical.1 op'.kind_not_mem_openings _ _)
  | binary left op' right =>
      rw [toList_render_binary, toList_render_index] at heq
      obtain ⟨-, hmore⟩ := hcollection.separates left hlexical'.1 _ _
        (closes_mark rfl (by decide) _)
        (closes_operator op' _) (List.cons.inj heq).2
      exact absurd (List.cons.inj hmore).1 (by decide)
  | call => exact absurd trivial hplain
  | bool b => cases b <;> simp [Expr.tokens, fixed] at hwords
  | _ => simp [Expr.tokens, fixed] at hwords

theorem Stmt.else_inj {no no' : Option (List Stmt)} (hlexical : Stmt.LexicalElse no)
    (hlexical' : Stmt.LexicalElse no')
    (h : ∀ block, no = some block → ∀ s ∈ block, Separates Stmt.Lexical Stmt.render s)
    {rest rest' : List Char} (hrest : Follows rest) (hrest' : Follows rest')
    (heq : (Stmt.renderElse no).toList ++ rest = (Stmt.renderElse no').toList ++ rest') :
    no = no' := by
  have hsome {block : List Stmt} {more rest : List Char}
    (hlexical : Stmt.LexicalElse (some block))
      (hrest : Follows rest) : rest ≠ (Stmt.renderElse (some block)).toList ++ more := by
    rintro rfl
    apply hrest.noElse
    rw [Stmt.lexesElse _ hlexical]
    rfl
  cases no with
  | none =>
      cases no' with
      | none => rfl
      | some block' => exact absurd heq (hsome hlexical' hrest)
  | some block =>
      cases no' with
      | none => exact absurd heq.symm (hsome hlexical hrest')
      | some block' =>
          simp only [Stmt.renderElse, String.toList_append, List.append_assoc] at heq
          obtain ⟨rfl, -⟩ := block_inj hlexical hlexical' (h block rfl)
            (List.append_cancel_left heq)
          rfl

theorem Expr.recognized_cond {condition : Expr} {yes : List Stmt} {no : Option (List Stmt)}
    (hlexical : (Expr.cond condition yes no).Lexical) (hcondition : condition.Distinct)
    (hyes : ∀ s ∈ yes, Separates Stmt.Lexical Stmt.render s)
    (hno : ∀ block, no = some block → ∀ s ∈ block, Separates Stmt.Lexical Stmt.render s) :
    (Expr.cond condition yes no).Recognized := by
  intro e' hlexical' hplain rest rest' hrest hrest' heq
  have hwords := (Expr.lexes _ hlexical).same_words (e'.lexes hlexical') hrest hrest' heq
  have htext (condition : Expr) (yes : List Stmt) (no : Option (List Stmt)) (rest : List Char) :
      (Expr.cond condition yes no).render.toList ++ rest =
        "if ".toList ++ (condition.render.toList ++
        ' ' :: ((braced (Stmt.renderEach yes)).toList ++
          ((Stmt.renderElse no).toList ++ rest))) := by
    simp [Expr.render]
  cases e' with
  | cond condition' yes' no' =>
      rw [htext, htext] at heq
      obtain ⟨rfl, hblocks⟩ := hcondition.separates condition' hlexical'.1 _ _ (closes_block _ _)
        (closes_block _ _) (List.append_cancel_left heq)
      obtain ⟨rfl, helse⟩ := block_inj hlexical.2.1 hlexical'.2.1 hyes (List.cons.inj hblocks).2
      obtain rfl := Stmt.else_inj hlexical.2.2 hlexical'.2.2 hno hrest hrest' helse
      rfl
  | call => exact absurd trivial hplain
  | bool b => cases b <;> simp [Expr.tokens, fixed] at hwords
  | _ => simp [Expr.tokens, fixed] at hwords

theorem Expr.recognized_fn {params : List String} {body : List Stmt}
    (hlexical : (Expr.fn () params body).Lexical)
    (hbody : ∀ s ∈ body, Separates Stmt.Lexical Stmt.render s) :
    (Expr.fn () params body).Recognized := by
  intro e' hlexical' hplain rest rest' hrest hrest' heq
  have hwords := (Expr.lexes _ hlexical).same_words (e'.lexes hlexical') hrest hrest' heq
  have htext (params : List String) (body : List Stmt) (rest : List Char) :
      (Expr.fn () params body).render.toList ++ rest = "fn(".toList ++
        ((commaSeparated (params.map id)).toList ++ ')' :: ' ' ::
          ((braced (Stmt.renderEach body)).toList ++ rest)) := by
    simp [Expr.render]
  cases e' with
  | fn params' body' =>
      rw [htext, htext] at heq
      obtain ⟨rfl, hblocks⟩ :=
        commaSeparated_inj (by decide) (fun _ h => h.opens) hlexical.1 hlexical'.1
        (fun name hname => separates_name (hlexical.1 name hname)) (List.append_cancel_left heq)
      obtain ⟨rfl, -⟩ := block_inj hlexical.2 hlexical'.2 hbody (List.cons.inj hblocks).2
      rfl
  | call => exact absurd trivial hplain
  | bool b => cases b <;> simp [Expr.tokens, fixed] at hwords
  | _ => simp [Expr.tokens, fixed] at hwords

theorem Expr.args_inj {c : Char} (hc : c ∈ [')', ']', '\x7d']) {es es' : List Expr}
    (hlexical : Expr.LexicalEach es) (hlexical' : Expr.LexicalEach es')
    (h : ∀ e ∈ es, e.Distinct) {rest rest' : List Char}
    (heq : (commaSeparated (es.map Expr.render)).toList ++ c :: rest =
      (commaSeparated (es'.map Expr.render)).toList ++ c :: rest') : es = es' ∧ rest = rest' :=
  commaSeparated_inj hc (fun _ => Expr.opens) (Expr.lexical_of_mem hlexical)
    (Expr.lexical_of_mem hlexical') (fun e he => (h e he).separates) heq

theorem Expr.recognized_array {elements : List Expr} (hlexical : (Expr.array elements).Lexical)
    (h : ∀ e ∈ elements, e.Distinct) : (Expr.array elements).Recognized := by
  intro e' hlexical' hplain rest rest' hrest hrest' heq
  have hwords := (Expr.lexes _ hlexical).same_words (e'.lexes hlexical') hrest hrest' heq
  have htext (es : List Expr) (rest : List Char) : (Expr.array es).render.toList ++ rest =
      '[' :: ((commaSeparated (es.map Expr.render)).toList ++ ']' :: rest) := by
    simp [Expr.render, Expr.renderEach_eq_map]
  cases e' with
  | array elements' =>
      rw [htext, htext] at heq
      obtain ⟨rfl, -⟩ := Expr.args_inj (by decide) hlexical hlexical' h (List.cons.inj heq).2
      rfl
  | call => exact absurd trivial hplain
  | bool b => cases b <;> simp [Expr.tokens, fixed] at hwords
  | _ => simp [Expr.tokens, fixed] at hwords

theorem Expr.recognized_hash {pairs : List (Expr × Expr)} (hlexical : (Expr.hash pairs).Lexical)
    (h : ∀ pair ∈ pairs, pair.1.Distinct ∧ pair.2.Distinct) : (Expr.hash pairs).Recognized := by
  intro e' hlexical' hplain rest rest' hrest hrest' heq
  have hwords := (Expr.lexes _ hlexical).same_words (e'.lexes hlexical') hrest hrest' heq
  have htext (pairs : List (Expr × Expr)) (rest : List Char) :
    (Expr.hash pairs).render.toList ++ rest =
      '\x7b' :: ((commaSeparated (pairs.map pairText)).toList ++ '\x7d' :: rest) := by
    simp [Expr.render, Expr.renderPairs_eq_map]
  cases e' with
  | hash pairs' =>
      rw [htext, htext] at heq
      obtain ⟨rfl, -⟩ := commaSeparated_inj (by decide) (fun _ h => h.opens)
        (Expr.pairLexical_of_mem hlexical) (Expr.pairLexical_of_mem hlexical')
        (fun pair hpair => separates_pair (h pair hpair).1 (h pair hpair).2) (List.cons.inj heq).2
      rfl
  | call => exact absurd trivial hplain
  | bool b => cases b <;> simp [Expr.tokens, fixed] at hwords
  | _ => simp [Expr.tokens, fixed] at hwords

/-- Two calls are told apart by what is called, and then by the arguments. -/
theorem Expr.distinct_call {callee : Expr} {args : List Expr} (hlexical : Expr.LexicalEach args)
    (hcallee : callee.Distinct) (hargs : ∀ e ∈ args, e.Distinct) :
    (Expr.call callee args).Distinct := by
  intro e' hlexical' rest rest' hrest hrest' heq
  have htext : (Expr.call callee args).render.toList ++ rest = callee.render.toList ++
      '(' :: ((commaSeparated (args.map Expr.render)).toList ++ ')' :: rest) := by
    simp [Expr.render, Expr.renderEach_eq_map]
  rw [htext] at heq
  obtain ⟨calls, rfl | rfl⟩ :=
    hcallee e' hlexical' _ _ (follows_mark rfl (by decide) _) hrest' heq
  · cases calls with
    | nil => exact ⟨[args], .inr rfl⟩
    | cons args' calls =>
        have hlexicalArgs' : Expr.LexicalEach args' :=
          (Expr.lexical_of_applied (e := .call callee args') hlexical').2
        rw [toList_render_applied, List.append_assoc] at heq
        have htexts : (commaSeparated (args.map Expr.render)).toList ++ ')' :: rest =
            (commaSeparated (args'.map Expr.render)).toList ++ ')' ::
              (callsText calls ++ rest') := by
          simpa [callsText] using List.append_cancel_left heq
        obtain ⟨rfl, -⟩ := Expr.args_inj (by decide) hlexical hlexicalArgs' hargs htexts
        exact ⟨calls, .inl rfl⟩
  · exact ⟨calls ++ [args], .inr (by simp [applied])⟩

end Expressions

section Statements

theorem Expr.separates_stmt {e : Expr} (hlexical : e.Lexical) (h : e.Distinct) :
    Separates Stmt.Lexical Stmt.render (.expr e) := by
  intro s' hlexical' rest rest' hrest hrest' heq
  have hwords := (Stmt.lexes (.expr e) hlexical).same_words (s'.lexes hlexical') hrest.toFollows
    hrest'.toFollows heq
  rcases s' with ⟨name, value⟩ | ⟨_ | value⟩ | e'
  · exact absurd hwords (e.tokens_ne hlexical (by decide) _ _)
  · exact absurd hwords (e.tokens_ne hlexical (by decide) _ _)
  · exact absurd hwords (e.tokens_ne hlexical (by decide) _ _)
  · obtain ⟨rfl, hrest⟩ := h.separates e' hlexical' rest rest' hrest hrest' heq
    exact ⟨rfl, hrest⟩

theorem Stmt.separates_bind {name : String} {value : Expr}
    (hlexical : (Stmt.bind name value).Lexical)
    (h : value.Distinct) : Separates Stmt.Lexical Stmt.render (.bind name value) := by
  intro s' hlexical' rest rest' hrest hrest' heq
  have hwords := (Stmt.lexes _ hlexical).same_words (s'.lexes hlexical') hrest.toFollows
    hrest'.toFollows heq
  rcases s' with ⟨name', value'⟩ | ⟨_ | value'⟩ | value'
  · have htexts : name.toList ++ ' ' :: '=' :: ' ' :: (value.render.toList ++ ';' :: rest) =
        name'.toList ++ ' ' :: '=' :: ' ' :: (value'.render.toList ++ ';' :: rest') := by
      simpa [Stmt.render] using heq
    obtain ⟨rfl, hvalues⟩ := separates_name hlexical.1 name' hlexical'.1 _ _ (closes_assign _)
      (closes_assign _) htexts
    simp only [List.cons.injEq, true_and] at hvalues
    obtain ⟨rfl, hbehind⟩ := h.separates value' hlexical'.2 _ _ (closes_mark rfl (by decide) _)
      (closes_mark rfl (by decide) _) hvalues
    exact ⟨rfl, (List.cons.inj hbehind).2⟩
  · simp [Stmt.render] at heq
  · simp [Stmt.render] at heq
  · exact absurd hwords.symm (value'.tokens_ne hlexical' (by decide) _ _)

theorem Stmt.separates_bareReturn : Separates Stmt.Lexical Stmt.render (.ret none) := by
  intro s' hlexical' rest rest' hrest hrest' heq
  have hwords := (Stmt.lexes (.ret none) trivial).same_words (s'.lexes hlexical') hrest.toFollows
    hrest'.toFollows heq
  rcases s' with ⟨name', value'⟩ | ⟨_ | value'⟩ | value'
  · simp [Stmt.render] at heq
  · exact ⟨rfl, List.append_cancel_left heq⟩
  · simp [Stmt.render] at heq
  · exact absurd hwords.symm (value'.tokens_ne hlexical' (by decide) _ _)

theorem Stmt.separates_return {value : Expr} (hlexical : (Stmt.ret (some value)).Lexical)
    (h : value.Distinct) :
    Separates Stmt.Lexical Stmt.render (.ret (some value)) := by
  intro s' hlexical' rest rest' hrest hrest' heq
  have hwords := (Stmt.lexes _ hlexical).same_words (s'.lexes hlexical') hrest.toFollows
    hrest'.toFollows heq
  rcases s' with ⟨name', value'⟩ | ⟨_ | value'⟩ | value'
  · simp [Stmt.render] at heq
  · simp [Stmt.render] at heq
  · have htexts : value.render.toList ++ ';' :: rest = value'.render.toList ++ ';' :: rest' := by
      simpa [Stmt.render] using heq
    obtain ⟨rfl, hbehind⟩ := h.separates value' hlexical' _ _ (closes_mark rfl (by decide) _)
      (closes_mark rfl (by decide) _) htexts
    exact ⟨rfl, (List.cons.inj hbehind).2⟩
  · exact absurd hwords.symm (value'.tokens_ne hlexical' (by decide) _ _)

end Statements

section Trees

mutual

/-- Every expression can be told from every other, up to calls. -/
theorem Expr.distinct : ∀ e : Expr, e.Lexical → e.Distinct
  | .ident _, h => (Expr.recognized_ident h).distinct
  | .int _, h => (Expr.recognized_int h).distinct
  | .string text, _ => (Expr.recognized_string text).distinct
  | .bool b, _ => (Expr.recognized_bool b).distinct
  | .unary _ operand, h => (Expr.recognized_unary h (operand.distinct h)).distinct
  | .binary left _ right, h =>
      (Expr.recognized_binary h (left.distinct h.1) (right.distinct h.2)).distinct
  | .cond condition yes no, h =>
      (Expr.recognized_cond h (condition.distinct h.1) (Stmt.separatesEach yes h.2.1)
        (Stmt.separatesElse no h.2.2)).distinct
  | .fn _ _ body, h => (Expr.recognized_fn h (Stmt.separatesEach body h.2)).distinct
  | .call callee args, h =>
      Expr.distinct_call h.2 (callee.distinct h.1) (Expr.distinctEach args h.2)
  | .array elements, h => (Expr.recognized_array h (Expr.distinctEach elements h)).distinct
  | .index collection position, h =>
      (Expr.recognized_index h (collection.distinct h.1) (position.distinct h.2)).distinct
  | .hash pairs, h => (Expr.recognized_hash h (Expr.distinctPairs pairs h)).distinct

theorem Expr.distinctEach : ∀ es : List Expr, Expr.LexicalEach es → ∀ e ∈ es, e.Distinct
  | [], _ => by simp
  | e :: es, h => by
      rw [List.forall_mem_cons]
      exact ⟨e.distinct h.1, Expr.distinctEach es h.2⟩

theorem Expr.distinctPairs : ∀ pairs : List (Expr × Expr), Expr.LexicalPairs pairs →
    ∀ pair ∈ pairs, pair.1.Distinct ∧ pair.2.Distinct
  | [], _ => by simp
  | (key, value) :: pairs, h => by
      rw [List.forall_mem_cons]
      exact ⟨⟨key.distinct h.1, value.distinct h.2.1⟩, Expr.distinctPairs pairs h.2.2⟩

theorem Stmt.separates : ∀ s : Stmt, s.Lexical → Separates Stmt.Lexical Stmt.render s
  | .bind _ value, h => Stmt.separates_bind h (value.distinct h.2)
  | .ret none, _ => Stmt.separates_bareReturn
  | .ret (some value), h => Stmt.separates_return h (value.distinct h)
  | .expr e, h => Expr.separates_stmt h (e.distinct h)

theorem Stmt.separatesEach : ∀ ss : List Stmt, Stmt.LexicalEach ss →
    ∀ s ∈ ss, Separates Stmt.Lexical Stmt.render s
  | [], _ => by simp
  | s :: ss, h => by
      rw [List.forall_mem_cons]
      exact ⟨s.separates h.1, Stmt.separatesEach ss h.2⟩

theorem Stmt.separatesElse : ∀ no : Option (List Stmt), Stmt.LexicalElse no →
    ∀ block, no = some block → ∀ s ∈ block, Separates Stmt.Lexical Stmt.render s
  | none, _ => by simp
  | some block, h => by
      rintro _ ⟨⟩
      exact Stmt.separatesEach block h

end

end Trees

/-- Trees with the same canonical text are the same, be they statements, expressions or blocks. -/
theorem eq_of_render_eq :
    (∀ s s' : Stmt, s.Lexical → s'.Lexical → s.render = s'.render → s = s') ∧
    (∀ e e' : Expr, e.Lexical → e'.Lexical → e.render = e'.render → e = e') ∧
    ∀ ss ss' : Block, Stmt.LexicalEach ss → Stmt.LexicalEach ss' →
      Block.render ss = Block.render ss' → ss = ss' := by
  refine ⟨fun s s' h h' heq => ?_, fun e e' h h' heq => ?_, fun ss ss' h h' heq => ?_⟩
  · exact (s.separates h s' h' [] [] closes_nil closes_nil (by rw [heq])).1
  · exact ((e.distinct h).separates e' h' [] [] closes_nil closes_nil (by rw [heq])).1
  · rw [Block.render, Block.render, ← Stmt.renderEach_eq_map, ← Stmt.renderEach_eq_map] at heq
    have htexts : (braced (Stmt.renderEach ss)).toList ++ [] =
        (braced (Stmt.renderEach ss')).toList ++ [] := by
      rw [heq]
    exact (block_inj h h' (Stmt.separatesEach ss h) htexts).1

/-- A branch on a branch, in which a call, two statements and an empty hash stand side by side. -/
theorem only_tree_of_text : ∃! s : Stmt,
    s.Lexical ∧ s.render = "if if a \x7b \x7d \x7b a((!b)) a (!b) \x7b\x7d \x7d" := by
  have ha : IsName "a" := by decide
  have hb : IsName "b" := by decide
  have hlexical : (Stmt.expr (.cond (.cond (.ident "a") [] none)
      [.expr (.call (.ident "a") [.unary .not (.ident "b")]), .expr (.ident "a"),
        .expr (.unary .not (.ident "b")), .expr (.hash [])] none)).Lexical := by
    simp [Stmt.Lexical, Expr.Lexical, Stmt.LexicalEach, Stmt.LexicalElse, Expr.LexicalEach,
      Expr.LexicalPairs, ha, hb]
  refine ⟨_, ⟨hlexical, by decide +kernel⟩, ?_⟩
  rintro s ⟨hs, htext⟩
  exact eq_of_render_eq.1 s _ hs hlexical (htext.trans (by decide +kernel))

end ScriptLang
