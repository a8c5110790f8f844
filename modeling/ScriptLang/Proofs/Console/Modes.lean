import ScriptLang.Console.Command
import ScriptLang.Proofs.Console.Lines
import ScriptLang.Proofs.Session.Splitting
import ScriptLang.Proofs.Token.Gaps

namespace ScriptLang

theorem Program.parse_of_words_eq {a b : String}
    (h : Token.words a.toList = Token.words b.toList) :
    Program.parse a = Program.parse b := by
  rw [Program.parse, Program.parse, Reading.ofSource, Reading.ofSource, h]

theorem Program.ne_nil_of_complete {source : String} {program : Program}
    (hparse : Program.parse source = .ok program)
    (hcomplete : Token.Complete (Token.words source.toList)) : program ≠ [] := by
  rintro rfl
  rw [Program.parse_eq_ok_iff_reads] at hparse
  obtain ⟨last, hlast, -⟩ := hcomplete.ended
  generalize Token.words source.toList = words at hparse hlast
  cases hparse
  cases hlast

namespace Session

/-- Texts that are programs, each of which gets to its end when it is evaluated in the session
that the ones before it have left.  It ends in a value, not in an error and not by returning. -/
inductive Completes (depth : Nat) : Session → List String → List Value → Session → Prop where
  | nil (session : Session) : Completes depth session [] [] session
  | cons {session last : Session} {text : String} {texts : List String} {program : Program}
      {value : Value} {values : List Value} {after : Store}
      (hparse : Program.parse text = .ok program)
      (heval : Block.eval depth session.frame (program.labelled session.fresh) session.store =
        .done value after)
      (hvalue : value.isSignal = false)
      (h : Completes depth (session.next program after) texts values last) :
      Completes depth session (text :: texts) (value :: values) last

namespace Completes

variable {depth enough : Nat} {session last : Session} {texts : List String} {values : List Value}

theorem of_le (h : Completes enough session texts values last) (hdepth : enough ≤ depth) :
    Completes depth session texts values last := by
  induction h with
  | nil session => exact .nil session
  | @cons session _ _ _ program _ _ _ hparse heval hvalue _ ih =>
      have hnode := Node.eval_of_le hdepth (.block (program.labelled session.fresh)) heval
      exact .cons hparse hnode hvalue ih

theorem length_eq (h : Completes depth session texts values last) :
    values.length = texts.length := by
  induction h with
  | nil => rfl
  | cons _ _ _ _ ih => rw [List.length_cons, List.length_cons, ih]

theorem plain (h : Completes depth session texts values last) :
    ∀ value ∈ values, value.isSignal = false := by
  induction h with
  | nil => simp
  | cons _ _ hvalue _ ih => exact List.forall_mem_cons.mpr ⟨hvalue, ih⟩

theorem dropLast (h : Completes depth session texts values last) :
    ∃ before, Completes depth session texts.dropLast values.dropLast before := by
  induction h with
  | nil session => exact ⟨session, .nil session⟩
  | @cons session _ _ _ _ _ _ _ hparse heval hvalue h ih =>
      cases h with
      | nil => exact ⟨session, .nil session⟩
      | cons =>
          obtain ⟨before, ih⟩ := ih
          exact ⟨before, .cons hparse heval hvalue ih⟩

end Completes

theorem step?_toUTF8 (depth : Nat) (session : Session) (source : String) :
    session.step? depth (.bytes source.toUTF8) = session.step? depth (.text source) := by
  simp only [step?, Input.read, Text.fromUTF8?_toUTF8]

end Session

namespace Console

theorem Output.followedBy_assoc (first second third : Output) :
    (first.followedBy second).followedBy third = first.followedBy (second.followedBy third) := by
  simp [Output.followedBy, String.append_assoc]

/-- The answers that values make: one line each, and nothing besides. -/
def answers (values : List Value) : Output :=
  ⟨String.join (values.map fun value => value.render ++ "\n"), "", 0⟩

theorem answers_cons (value : Value) (values : List Value) :
    answers (value :: values) = (Output.line value.render).followedBy (answers values) := by
  simp [answers, Output.line, Output.followedBy]

theorem answers_concat (values : List Value) (value : Value) :
    answers (values ++ [value]) = (answers values).followedBy (.line value.render) := by
  simp [answers, Output.line, Output.followedBy]

namespace Line

def writtenAll (lines : List Line) : String :=
  String.join (lines.map written)

theorem writtenAll_cons (line : Line) (lines : List Line) :
    writtenAll (line :: lines) = line.written ++ writtenAll lines :=
  String.join_cons

/-- A line that is something to evaluate, and all of it. -/
structure Entire (line : Line) : Prop where
  not_blank : Text.isBlankLine line.text = false
  complete : Token.Complete (Token.words line.text.toList)

namespace Entire

variable {line : Line}

theorem words_written (h : line.Entire) :
    Token.words line.written.toList = Token.words line.text.toList := by
  obtain ⟨last, hlast, hkind⟩ := h.complete.ended
  have hblank : Token.words (if line.carriage then "\r\n" else "\n").toList = [] := by
    split <;> exact Token.words_of_blank (by decide)
  rw [written, String.toList_append, Token.words_append hlast hkind, hblank, List.append_nil]

theorem exists_heard (h : line.Entire) : ∃ heard : String, Text.isBlankLine heard = false ∧
    Program.parse heard = Program.parse line.text ∧
      ∀ behind, linesOf (Text.bytes line.written ++ behind) =
        Text.bytes heard :: linesOf behind := by
  obtain ⟨heard, rfl | htext, hlines⟩ := line.exists_heard
  · exact ⟨line.text, h.not_blank, rfl, hlines⟩
  · obtain ⟨last, hlast, hkind⟩ := h.complete.ended
    have hchars : line.text.toList = heard.toList ++ ['\r'] := by
      rw [htext, String.toList_append]
      rfl
    have hblank : Text.isBlankLine line.text = Text.isBlankLine heard := by
      rw [Text.isBlankLine, hchars, List.all_append, ← Text.isBlankLine]
      exact Bool.and_true _
    have hwords : Token.words line.text.toList = Token.words heard.toList := by
      rw [hchars] at hlast ⊢
      exact Token.words_concat_separator rfl hlast (by simp [hkind])
    exact ⟨heard, hblank ▸ h.not_blank, Program.parse_of_words_eq hwords.symm, hlines⟩

end Entire

end Line

section Modes

variable {depth : Nat} {session last : Session} {lines : List Line} {values : List Value}

theorem replLines?_of_completes (hlines : ∀ line ∈ lines, line.Entire)
    (h : session.Completes depth (lines.map Line.text) values last) :
    replLines? depth session (linesOf (Text.bytes (Line.writtenAll lines))) =
      some (answers values) := by
  induction lines generalizing session values with
  | nil =>
      cases h
      rfl
  | cons line lines ih =>
      rw [List.forall_mem_cons] at hlines
      obtain ⟨heard, hblank, hheard, hcut⟩ := hlines.1.exists_heard
      cases h with
      | cons hparse heval hvalue h =>
          rw [← hheard] at hparse
          have hstep := Session.step?_of_block hparse heval hvalue
          rw [Line.writtenAll_cons, Text.bytes_append, hcut, answers_cons]
          simp [replLines?, Text.fromUTF8?_bytes, replLine?, hblank,
            hstep, ih hlines.2 h, respond]

/-- Lines that are put together are one program, which does what they do and ends with the last of
their values. -/
theorem exists_parse_of_completes (hlines : ∀ line ∈ lines, line.Entire)
    (h : session.Completes depth (lines.map Line.text) values last) : ∃ program,
      Program.parse (Line.writtenAll lines) = .ok program ∧
        ∀ start : Value, start.isSignal = false →
          Stmt.evalBlock (Value.call depth) session.frame (program.labelled session.fresh) start
              session.store = .done (values.getLast?.getD start) last.store := by
  induction lines generalizing session values with
  | nil =>
      cases h
      exact ⟨[], by decide +kernel, fun start _ => rfl⟩
  | cons line lines ih =>
      rw [List.forall_mem_cons] at hlines
      cases h with
      | @cons _ _ _ _ first value values after hparse heval hvalue h =>
          obtain ⟨others, hothers, hrest⟩ := ih hlines.2 h
          have hcomplete := hlines.1.complete
          have hfirst := Program.labelled_ne_nil (Program.ne_nil_of_complete hparse hcomplete)
          have hwritten := Program.parse_of_words_eq hlines.1.words_written
          refine ⟨first ++ others, ?_, ?_⟩
          · rw [Line.writtenAll_cons]
            rw [← hlines.1.words_written] at hcomplete
            exact Program.parse_append (hwritten.trans hparse) hcomplete hothers
          · intro start hstart
            rw [Block.eval, Stmt.evalBlock_of_ne_nil (hfirst _) .null start] at heval
            rw [Program.labelled_append, Stmt.evalBlock_append hstart, heval,
              Run.andThen_of_plain hvalue, List.getLast?_cons]
            exact hrest value hvalue

theorem perform?_run_of_completes (hlines : ∀ line ∈ lines, line.Entire)
    (h : Session.start.Completes depth (lines.map Line.text) values last) {value : Value}
    (hvalue : value ∈ values.getLast?) :
    Command.run.perform? depth (Line.writtenAll lines).toUTF8 = some (.line value.render) := by
  obtain ⟨program, hparse, heval⟩ := exists_parse_of_completes hlines h
  have hblock : Block.eval depth Session.start.frame (program.labelled Session.start.fresh)
      Session.start.store = .done value last.store := by
    rw [Block.eval, heval .null rfl, Option.mem_def.mp hvalue]
    rfl
  have hplain := h.plain value (List.mem_of_getLast? hvalue)
  rw [Command.perform?, Session.step?_toUTF8, Session.step?_of_block hparse hblock hplain]
  rfl

theorem repl?_of_completes (hlines : ∀ line ∈ lines, line.Entire)
    (h : Session.start.Completes depth (lines.map Line.text) values last) :
    repl? depth (Line.writtenAll lines).toUTF8 = some (greeting.followedBy (answers values)) := by
  rw [repl?, ← Text.bytes, replLines?_of_completes hlines h]
  rfl

end Modes

/-- Lines that are entered one by one get what they get as one program.  Each of them is a
complete program, and all are evaluated to their end.  What is printed for the last line is what
running all the lines at once prints, at every allowance that is enough for the lines; and behind
the greeting there is one answer for every line, and no complaint. -/
theorem repl_agrees_with_script {lines : List Line} (hne : lines ≠ [])
    (hlines : ∀ line ∈ lines, line.Entire) {enough : Nat} {values : List Value} {last : Session}
    (hcompletes : Session.start.Completes enough (lines.map Line.text) values last) {depth : Nat}
    (hdepth : enough ≤ depth) :
    (∃ before script,
      repl? depth (Line.writtenAll lines.dropLast).toUTF8 = some before ∧
      Command.run.perform? depth (Line.writtenAll lines).toUTF8 = some script ∧
      repl? depth (Line.writtenAll lines).toUTF8 = some (before.followedBy script)) ∧
    values.length = lines.length ∧
    repl? depth (Line.writtenAll lines).toUTF8 = some (greeting.followedBy (answers values)) := by
  have h := hcompletes.of_le hdepth
  have hlength : values.length = lines.length := by rw [h.length_eq, List.length_map]
  have hall := repl?_of_completes hlines h
  refine ⟨?_, hlength, hall⟩
  obtain ⟨earlier, value, rfl⟩ : ∃ earlier value, values = earlier ++ [value] := by
    have hvalues : values ≠ [] := by
      rintro rfl
      exact hne (List.length_eq_zero_iff.mp hlength.symm)
    exact ⟨_, _, (List.dropLast_concat_getLast hvalues).symm⟩
  obtain ⟨before, hbefore⟩ := h.dropLast
  rw [List.dropLast_concat, ← List.map_dropLast] at hbefore
  have hearlier := repl?_of_completes
    (fun line hline => hlines line (List.dropLast_subset lines hline)) hbefore
  have hvalue : value ∈ (earlier ++ [value]).getLast? := by simp
  have hscript := perform?_run_of_completes hlines h hvalue
  rw [answers_concat, ← Output.followedBy_assoc] at hall
  exact ⟨_, _, hearlier, hscript, hall⟩

/-- Lines in which a function is bound, then what it needs, and then it is called.  The second one
has a carriage return of its own. -/
def callLines : List Line :=
  [⟨"let f = fn(x) \x7b x + y \x7d;", true, by decide +kernel⟩,
    ⟨"let y = 2;\r", false, by decide +kernel⟩, ⟨"f(y);", true, by decide +kernel⟩]

theorem repl_agrees_with_script_on_call : ∃ before script values,
    repl? 1 (Line.writtenAll callLines.dropLast).toUTF8 = some before ∧
    Command.run.perform? 1 (Line.writtenAll callLines).toUTF8 = some script ∧
    repl? 1 (Line.writtenAll callLines).toUTF8 = some (before.followedBy script) ∧
    values.length = 3 ∧
    repl? 1 (Line.writtenAll callLines).toUTF8 = some (greeting.followedBy (answers values)) := by
  let body : Block := [.expr (.binary (.ident "x") .add (.ident "y"))]
  have hfirst : Program.parse "let f = fn(x) \x7b x + y \x7d;" =
      .ok [.bind "f" (.fn () ["x"] body)] := by decide +kernel
  have hsecond : Program.parse "let y = 2;\r" = .ok [.bind "y" (.int 2)] := by decide +kernel
  have hthird : Program.parse "f(y);" = .ok [.expr (.call (.ident "f") [.ident "y"])] := by
    decide +kernel
  have hcompletes : ∃ value last, Session.start.Completes 1 (callLines.map Line.text)
      [value, .integer 2, .integer 4] last :=
    ⟨_, _, .cons hfirst rfl rfl (.cons hsecond rfl rfl (.cons hthird rfl rfl (.nil _)))⟩
  have hlines : ∀ line ∈ callLines, line.Entire := by
    simp only [callLines, List.forall_mem_cons, List.not_mem_nil, false_imp_iff, implies_true,
      and_true]
    refine ⟨⟨by decide +kernel, ⟨⟨.semicolon, ";"⟩, ?_, rfl⟩, ?_⟩,
      ⟨by decide +kernel, ⟨⟨.semicolon, ";"⟩, ?_, rfl⟩, ?_⟩,
      ⟨by decide +kernel, ⟨⟨.semicolon, ";"⟩, ?_, rfl⟩, ?_⟩⟩
    all_goals decide +kernel
  obtain ⟨value, last, hcompletes⟩ := hcompletes
  obtain ⟨⟨before, script, hbefore, hscript, hall⟩, hlength, hanswers⟩ :=
    repl_agrees_with_script (List.cons_ne_nil _ _) hlines hcompletes (Nat.le_refl 1)
  exact ⟨before, script, _, hbefore, hscript, hall, hlength, hanswers⟩

end Console

end ScriptLang
