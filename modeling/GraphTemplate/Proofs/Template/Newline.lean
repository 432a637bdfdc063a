import GraphTemplate.Proofs.Template.Likeness
import GraphTemplate.Proofs.Template.TagGrammar

/-!
# Lines with their newlines

A line that ends with a newline is read like the same line without it.  The newline is in no tag, as
it is in no delimiter and in no name, so that it comes to stand in the text at the end of the line.
All tags are where they are without it.

The lines of a text are therefore nested in the same way as the same lines without newlines one byte
apart, and they fail at the same places.
-/

namespace GraphTemplate

/-- No delimiter goes on in the next line. -/
structure Delimiters.InLine (d : Delimiters) : Prop where
  left : '\n' ∉ d.left
  right : '\n' ∉ d.right
  marker : '\n' ∉ d.marker

/-! ### Tags before a newline -/

theorem Text.readIdentifier_newline (text : List Char) :
    readIdentifier (text ++ ['\n']) =
      (readIdentifier text).map fun found => (found.1, found.2 ++ ['\n']) := by
  have noPart : isIdentPart '\n' = false := by decide
  have split : ∀ rest : List Char, (rest ++ ['\n']).takeWhile isIdentPart = rest.takeWhile isIdentPart ∧
      (rest ++ ['\n']).dropWhile isIdentPart = rest.dropWhile isIdentPart ++ ['\n'] := by
    intro rest
    induction rest with
    | nil => simp [noPart]
    | cons c more ih =>
        by_cases part : isIdentPart c
        · simp [part, ih.1, ih.2]
        · simp [part]
  rcases text with _ | ⟨c, rest⟩
  · decide
  · rw [List.cons_append, readIdentifier, readIdentifier, (split rest).1, (split rest).2]
    split <;> rfl

namespace Tag

variable {d : Delimiters}

theorem eat_newline {pattern : List Char} (inLine : '\n' ∉ pattern) (text : List Char) :
    eat pattern (text ++ ['\n']) = (eat pattern text).map (· ++ ['\n']) := by
  fun_induction eat pattern text with
  | case1 text => rfl
  | case2 c pattern =>
      have different : c ≠ '\n' := fun same => inLine (same ▸ List.mem_cons_self)
      simp [eat, different]
  | case3 pattern c text ih =>
      rw [List.cons_append, eat, if_pos rfl]
      exact ih fun member => inLine (List.mem_cons_of_mem _ member)
  | case4 c pattern first text different =>
      rw [List.cons_append, eat, if_neg different]
      rfl

theorem readName_newline (text : List Char) : readName (text ++ ['\n']) =
    (readName text).map fun found => (found.1, found.2 ++ ['\n']) := by
  rw [readName, readName, Text.readIdentifier_newline, Option.map_map, Option.map_map]
  rfl

theorem readPath_newline (text : List Char) : readPath (text ++ ['\n']) =
    (readPath text).map fun found => (found.1, found.2 ++ ['\n']) := by
  fun_induction readPath text with
  | case1 after noName =>
      rw [List.cons_append, readPath_point, readName_newline, noName]
      rfl
  | case2 after name rest read ih =>
      rw [List.cons_append, readPath_point, readName_newline, read, Option.map_some,
        Option.bind_some, ih, Option.map_map, Option.map_map]
      rfl
  | case3 text noPoint =>
      rw [readPath]
      · rfl
      · rintro after same
        rcases text with _ | ⟨c, rest⟩
        · cases same
        · cases same
          exact noPoint rest rfl

/-- A tag is read from the text before a newline. -/
theorem read_newline (inLine : d.InLine) (text : List Char) : read d (text ++ ['\n']) =
    (read d text).map fun found => (found.1, found.2 ++ ['\n']) := by
  rw [read, read, eat_newline inLine.left]
  rcases eat d.left text with _ | inner
  · rfl
  · simp only [Option.map_some, Option.bind_eq_bind, Option.bind_some, eat_newline inLine.marker]
    rcases eat d.marker inner with _ | after
    · simp only [Option.map_none, readName_newline]
      rcases readName inner with _ | ⟨root, rest⟩
      · rfl
      · simp only [Option.map_some, Option.bind_some, eat_newline inLine.marker]
        rcases eat d.marker rest with _ | after
        · simp only [Option.map_none, readPath_newline]
          rcases readPath rest with _ | ⟨path, last⟩
          · rfl
          · simp only [Option.map_some, Option.bind_some, eat_newline inLine.right]
            cases eat d.right last <;> rfl
        · simp only [Option.map_some, eat_newline inLine.right]
          cases eat d.right after <;> rfl
    · simp only [Option.map_some, readName_newline]
      rcases readName after with _ | ⟨name, rest⟩
      · rfl
      · simp only [Option.map_some, Option.bind_some, eat_newline inLine.right]
        cases eat d.right rest <;> rfl

end Tag

namespace Token

/-- Puts a newline behind tokens: in the raw text at their end, or as such. -/
def endLine : List Token → List Token
  | [] => [raw ['\n']]
  | [raw text] => [raw (text ++ ['\n'])]
  | token :: rest => token :: endLine rest

theorem consRaw_endLine (c : Char) (tokens : List Token) :
    consRaw c (endLine tokens) = endLine (consRaw c tokens) := by
  rcases tokens with _ | ⟨text | content, _ | ⟨next, more⟩⟩ <;> rfl

/-- The tokens before a newline stay the same. -/
theorem scan_newline {d : Delimiters} (inLine : d.InLine) (text : List Char) :
    scan d (text ++ ['\n']) = endLine (scan d text) := by
  have beforeNewline := Tag.read_newline inLine
  fun_induction scan d text with
  | case1 =>
      have unread : Tag.read d [] = none := by
        rw [Option.eq_none_iff_forall_ne_some]
        rintro ⟨content, rest⟩ read
        cases Tag.length_lt_of_read read
      have unreadNewline : Tag.read d ['\n'] = none := by
        have same := beforeNewline []
        rwa [unread] at same
      rw [List.nil_append, scan_of_unread unreadNewline, scan]
      rfl
  | case2 c later content rest read ih =>
      have readBefore := beforeNewline (c :: later)
      rw [read] at readBefore
      rw [scan_of_read readBefore, ih]
      cases scan d rest <;> rfl
  | case3 c later unread ih =>
      have unreadBefore := beforeNewline (c :: later)
      rw [unread, List.cons_append, Option.map_none] at unreadBefore
      rw [List.cons_append, scan_of_unread unreadBefore, ih, consRaw_endLine]

end Token

/-! ### Lines and their parts -/

/-- The parts of a line, and the same with a newline behind them: in the text at their end, or as
such. -/
inductive Part.Ended : List Part → List Part → Prop where
  | nil : Ended [] [.text "\n"]
  | text (content : String) : Ended [.text content] [.text (content ++ "\n")]
  | cons (part : Part) {parts others : List Part} (later : Ended parts others) :
      Ended (part :: parts) (part :: others)

/-- The second line is the first with a newline at its end. -/
def Line.Ended (line other : Line) : Prop :=
  Part.Ended line.parts other.parts

inductive LineClass.Ended : LineClass → LineClass → Prop where
  | text (content : String) (span otherSpan : Span) :
      Ended (.text content span) (.text (content ++ "\n") otherSpan)
  | line {content other : Line} (ended : content.Ended other) : Ended (.line content) (.line other)
  | marker (content : Marker) : Ended (.marker content) (.marker content)
  | crowded (second : Span) : Ended (.crowded second) (.crowded second)

theorem Line.Ended.placeholders_eq {line other : Line} (ended : line.Ended other) :
    line.placeholders = other.placeholders := by
  unfold Ended at ended
  unfold placeholders
  generalize line.parts = parts, other.parts = others at ended
  induction ended with
  | nil => rfl
  | text content => rfl
  | cons part _ ih => cases part <;> simp [ih]

namespace Lexeme

variable (d : Delimiters)

theorem filterMap_marker?_endLine (tokens : List Token) (start : Nat) :
    (place d start (Token.endLine tokens)).filterMap (marker? d) =
      (place d start tokens).filterMap (marker? d) := by
  fun_induction Token.endLine tokens generalizing start with
  | case1 => rfl
  | case2 text => rfl
  | case3 token rest _ ih =>
      simp only [place, List.filterMap_cons, ih]

theorem ended_filterMap_part? (tokens : List Token) (start : Nat) :
    Part.Ended ((place d start tokens).filterMap (part? d))
      ((place d start (Token.endLine tokens)).filterMap (part? d)) := by
  fun_induction Token.endLine tokens generalizing start with
  | case1 => exact .nil
  | case2 text =>
      have joined : String.ofList (text ++ ['\n']) = String.ofList text ++ "\n" :=
        String.ofList_append
      have parts : ∀ content : List Char, (place d start [.raw content]).filterMap (part? d) =
          [.text (String.ofList content)] :=
        fun _ => rfl
      rw [parts, parts, joined]
      exact .text _
  | case3 token rest _ ih =>
      simp only [place, List.filterMap_cons]
      split
      · exact ih _
      · exact .cons _ (ih _)

end Lexeme

namespace LineClass

/-- A newline at the end of a line changes nothing else about the line. -/
theorem ended_ofLine {d : Delimiters} (inLine : d.InLine) (start : Nat) (text : List Char) :
    Ended (ofLine d ⟨start, text⟩) (ofLine d ⟨start, text ++ ['\n']⟩) := by
  have markers := Lexeme.filterMap_marker?_endLine d (Token.scan d text) start
  have parts := Lexeme.ended_filterMap_part? d (Token.scan d text) start
  rw [← Token.scan_newline inLine] at markers parts
  unfold ofLine Lexeme.ofLine
  dsimp only
  rw [markers]
  split
  · exact .crowded _
  · exact .marker _
  · have lines : Line.Ended
        ⟨(Lexeme.place d start (Token.scan d text)).filterMap (Lexeme.part? d),
          (⟨start, text⟩ : SourceLine).span⟩
        ⟨(Lexeme.place d start (Token.scan d (text ++ ['\n']))).filterMap (Lexeme.part? d),
          (⟨start, text ++ ['\n']⟩ : SourceLine).span⟩ :=
      parts
    rw [← lines.placeholders_eq]
    split
    · rw [String.ofList_append]
      exact .text _ _ _
    · exact .line lines

end LineClass

/-! ### Nesting -/

/-- A body, and the same with a newline at the end of each line. -/
def Body.Ended : Body → Body → Prop :=
  Body.Matches Eq Line.Ended fun text other => other = text ++ "\n"

theorem Body.Matches.reverseOnto {spans : Span → Span → Prop} {lines : Line → Line → Prop}
    {texts : String → String → Prop} {body other done otherDone : Body}
    (same : Body.Matches spans lines texts body other)
    (doneSame : Body.Matches spans lines texts done otherDone) :
    Body.Matches spans lines texts (body.reverseOnto done) (other.reverseOnto otherDone) := by
  induction same generalizing done otherDone with
  | nil => exact doneSame
  | text span otherSpan textSame _ ih => exact ih (.text span otherSpan textSame doneSame)
  | line lineSame _ ih => exact ih (.line lineSame doneSame)
  | loop element place inside _ _ ih => exact ih (.loop element place inside doneSame)

theorem Body.Ended.reverse {body other : Body} (ended : body.Ended other) :
    body.reverse.Ended other.reverse :=
  ended.reverseOnto .nil

structure OpenLoop.Ended (loop other : OpenLoop) : Prop where
  relation : loop.relation = other.relation
  element : loop.element = other.element
  marker : loop.marker = other.marker
  before : loop.before.Ended other.before

structure Nesting.Ended (nesting other : Nesting) : Prop where
  current : nesting.current.Ended other.current
  loops : List.Forall₂ OpenLoop.Ended nesting.loops other.loops

namespace Nesting

theorem Ended.add {nesting other : Nesting} {line otherLine : LineClass}
    (ended : nesting.Ended other) (lineEnded : line.Ended otherLine) :
    Tallies Eq Ended (nesting.add line) (other.add otherLine) := by
  cases lineEnded with
  | text content span otherSpan =>
      have current : (Body.text content span nesting.current).Ended
          (.text (content ++ "\n") otherSpan other.current) := by
        refine Body.Matches.text span otherSpan ?_ ended.current
        rfl
      exact .ok ⟨current, ended.loops⟩
  | line same => exact .ok ⟨.line same ended.current, ended.loops⟩
  | crowded second => exact .error rfl
  | marker content =>
      rcases content with ⟨opens, name, span⟩
      cases opens with
      | true =>
          simp only [Nesting.add]
          split
          · exact .error rfl
          · exact .ok ⟨.nil, .cons ⟨rfl, rfl, rfl, ended.current⟩ ended.loops⟩
      | false =>
          have loops := ended.loops
          simp only [Nesting.add]
          generalize nesting.loops = opened, other.loops = otherOpened at loops
          rcases loops with _ | ⟨first, outer⟩
          · exact .error rfl
          · simp only [← first.relation, ← first.element]
            split
            · exact .ok ⟨.loop _ ⟨rfl, rfl⟩ ended.current.reverse first.before, outer⟩
            · exact .error rfl

theorem Ended.foldlM {lines otherLines : List LineClass} {nesting other : Nesting}
    (each : List.Forall₂ LineClass.Ended lines otherLines) (ended : nesting.Ended other) :
    Tallies Eq Ended (lines.foldlM Nesting.add nesting) (otherLines.foldlM Nesting.add other) := by
  induction each generalizing nesting other with
  | nil => exact .ok ended
  | cons first _ ih =>
      rw [List.foldlM_cons, List.foldlM_cons]
      exact (ended.add first).bind fun _ _ => ih

theorem Ended.finish {nesting other : Nesting} (ended : nesting.Ended other) :
    Tallies Eq Body.Ended nesting.finish other.finish := by
  have loops := ended.loops
  simp only [Nesting.finish]
  generalize nesting.loops = opened, other.loops = otherOpened at loops
  rcases loops with _ | ⟨first, _⟩
  · exact .ok ended.current.reverse
  · exact .error (by rw [first.marker])

end Nesting

/-- Lines with and without newlines are nested into the same loops, or fail at the same place. -/
theorem Body.ended_ofLines? {lines otherLines : List LineClass}
    (each : List.Forall₂ LineClass.Ended lines otherLines) :
    Tallies Eq Body.Ended (ofLines? lines) (ofLines? otherLines) := by
  have start : Nesting.start.Ended Nesting.start := ⟨.nil, .nil⟩
  exact (Nesting.Ended.foldlM each start).bind fun _ _ => Nesting.Ended.finish

/-! ### The lines of a text -/

theorem Text.lines_append_newline {line : List Char} (inLine : '\n' ∉ line) (rest : List Char) :
    lines (line ++ '\n' :: rest) = (line ++ ['\n']) :: lines rest := by
  induction line with
  | nil => rw [List.nil_append, lines, if_pos rfl, List.nil_append]
  | cons c more ih =>
      rw [List.mem_cons, not_or] at inLine
      rw [List.cons_append, lines, if_neg (Ne.symm inLine.1), ih inLine.2]
      rfl

theorem Text.lines_flatMap_newline {texts : List (List Char)}
    (inLine : ∀ text ∈ texts, '\n' ∉ text) :
    lines (texts.flatMap (· ++ ['\n'])) = texts.map (· ++ ['\n']) := by
  induction texts with
  | nil => rfl
  | cons text rest ih =>
      rw [List.forall_mem_cons] at inLine
      rw [List.flatMap_cons, List.append_assoc, List.singleton_append,
        lines_append_newline inLine.1, ih inLine.2, List.map_cons]

/-- Lines one byte apart stand where the same lines with newlines stand one after the other. -/
theorem SourceLine.forall₂_ended_place {d : Delimiters} (inLine : d.InLine)
    (texts : List (List Char)) (start : Nat) :
    List.Forall₂ LineClass.Ended ((place 1 start texts).map (LineClass.ofLine d))
      ((place 0 start (texts.map (· ++ ['\n']))).map (LineClass.ofLine d)) := by
  induction texts generalizing start with
  | nil => exact .nil
  | cons text rest ih =>
      have next : start + Text.byteLength (text ++ ['\n']) + 0 =
          start + Text.byteLength text + 1 := by
        rw [Text.byteLength_append]
        rfl
      simp only [List.map_cons, place, next]
      exact .cons (LineClass.ended_ofLine inLine start text) (ih _)

end GraphTemplate
