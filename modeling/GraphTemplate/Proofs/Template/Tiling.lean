import GraphTemplate.Proofs.Template.Placement

/-!
# Tokens and lines in their places

The tokens of a line written one after the other are the line, and the lines of a text one after the
other are the text.  So every tag, and every name on it, covers a text that stands on one line of the
source, and never nothing.
-/

namespace GraphTemplate

/-- In a text that begins at a position the span covers some of the characters. -/
def Span.Within (span : Span) (start : Nat) (text : List Char) : Prop :=
  ∃ before inside after, text = before ++ inside ++ after ∧ inside ≠ [] ∧
    span = ofText (start + Text.byteLength before) inside

theorem Span.within_ofText {text : List Char} (nonempty : text ≠ []) (start : Nat) :
    (ofText start text).Within start text :=
  ⟨[], text, [], by simp, nonempty, rfl⟩

/-- What is covered in part of a text is covered in the whole. -/
theorem Span.Within.extend {span : Span} {start middle : Nat} {before text : List Char}
    (within : span.Within middle text) (begins : middle = start + Text.byteLength before)
    (after : List Char) : span.Within start (before ++ text ++ after) := by
  subst begins
  rcases within with ⟨front, inside, back, rfl, nonempty, rfl⟩
  refine ⟨before ++ front, inside, back ++ after, by simp, nonempty, ?_⟩
  rw [Text.byteLength_append, Nat.add_assoc]

theorem Span.Within.start_lt_stop {span : Span} {start : Nat} {text : List Char}
    (within : span.Within start text) : span.start < span.stop := by
  rcases within with ⟨before, inside, _, _, nonempty, rfl⟩
  have := Text.byteLength_pos nonempty
  simp only [ofText]
  omega

/-! ### Tokens -/

namespace Token

theorem flatMap_spell_consRaw (d : Delimiters) (c : Char) (tokens : List Token) :
    (consRaw c tokens).flatMap (spell d) = c :: tokens.flatMap (spell d) := by
  rcases tokens with _ | ⟨text | content, rest⟩ <;> simp [consRaw, spell]

/-- Nothing of a text is lost in its tokens. -/
theorem flatMap_spell_scan (d : Delimiters) (text : List Char) :
    (scan d text).flatMap (spell d) = text := by
  fun_induction scan d text with
  | case1 => rfl
  | case2 c later content rest read ih =>
      rw [List.flatMap_cons, ih]
      exact (Tag.eq_spell_append_of_read read).symm
  | case3 c later unread ih => rw [flatMap_spell_consRaw, ih]

theorem isProper_of_mem_scan {d : Delimiters} {text : List Char} {content : Tag}
    (member : tag content ∈ scan d text) : content.IsProper := by
  rcases exists_read member with ⟨_, _, read⟩
  exact Tag.isProper_of_read read

end Token

namespace Lexeme

variable {d : Delimiters}

/-- A piece is where the pieces before it end. -/
theorem exists_split_of_mem_place {tokens : List Token} {start : Nat} {lexeme : Lexeme}
    (member : lexeme ∈ place d start tokens) :
    ∃ before after, tokens = before ++ lexeme.token :: after ∧
      lexeme.span = Span.ofText (start + Text.byteLength (before.flatMap (Token.spell d)))
        (lexeme.token.spell d) := by
  induction tokens generalizing start with
  | nil => cases member
  | cons token rest ih =>
      rw [place, List.mem_cons] at member
      rcases member with rfl | later
      · exact ⟨[], rest, rfl, rfl⟩
      · rcases ih later with ⟨before, after, rfl, place⟩
        refine ⟨token :: before, after, rfl, ?_⟩
        rw [place, List.flatMap_cons, Text.byteLength_append, ← Nat.add_assoc]
        rfl

/-- The bytes of a tag and of the names on it. -/
def spans (d : Delimiters) (lexeme : Lexeme) : List Span :=
  match lexeme.token with
  | .raw _ => []
  | .tag _ => lexeme.span :: (lexeme.names d).map Ident.span

end Lexeme

theorem Ident.within_place {name : String} (identifier : Text.IsIdentifier name.toList)
    (start : Nat) : (place start name).span.Within start name.toList := by
  apply Span.within_ofText
  intro empty
  rw [empty] at identifier
  exact identifier

theorem Ident.within_placePath {path : List String} {start : Nat} {ident : Ident}
    (identifiers : ∀ name ∈ path, Text.IsIdentifier name.toList)
    (member : ident ∈ placePath start path) : ident.span.Within start (Tag.spellPath path) := by
  induction path generalizing start with
  | nil => cases member
  | cons name rest ih =>
      rw [List.forall_mem_cons] at identifiers
      rw [placePath, List.mem_cons] at member
      have split : Tag.spellPath (name :: rest) = ['.'] ++ name.toList ++ Tag.spellPath rest := by
        simp [Tag.spellPath]
      rw [split]
      rcases member with rfl | later
      · exact (within_place identifiers.1 (start + 1)).extend rfl _
      · have begins : (place (start + 1) name).span.stop =
            start + Text.byteLength (['.'] ++ name.toList) := by
          rw [Text.byteLength_append, ← Nat.add_assoc]
          rfl
        have behind := (ih identifiers.2 later).extend begins []
        simpa using behind

/-- The names on a tag stand in its written form. -/
theorem Lexeme.within_names {d : Delimiters} {content : Tag} (proper : content.IsProper)
    {span : Span} {ident : Ident} (member : ident ∈ names d ⟨.tag content, span⟩) :
    ident.span.Within span.start (content.spell d) := by
  cases content with
  | opening name =>
      rw [names_opening, List.mem_singleton] at member
      rw [member]
      exact (Ident.within_place (proper name List.mem_cons_self) _).extend rfl d.right
  | closing name =>
      have only : names d ⟨.tag (.closing name), span⟩ =
          [Ident.place (span.start + Text.byteLength d.left) name] := rfl
      rw [only, List.mem_singleton] at member
      rw [member, Tag.spell, List.append_assoc]
      exact (Ident.within_place (proper name List.mem_cons_self) _).extend rfl (d.marker ++ d.right)
  | placeholder root path =>
      have identifiers : ∀ name ∈ path, Text.IsIdentifier name.toList :=
        fun name inPath => proper name (List.mem_cons_of_mem _ inPath)
      rw [names_placeholder, List.mem_cons] at member
      rw [Tag.spell]
      rcases member with rfl | later
      · rw [List.append_assoc]
        exact (Ident.within_place (proper root List.mem_cons_self) _).extend rfl
          (Tag.spellPath path ++ d.right)
      · exact (Ident.within_placePath identifiers later).extend rfl d.right

/-- A tag and the names on it stand on the line on which the tag is. -/
theorem Lexeme.within_of_mem_spans {d : Delimiters} {start : Nat} {text : List Char}
    {lexeme : Lexeme} {span : Span} (member : lexeme ∈ ofLine d start text)
    (inside : span ∈ lexeme.spans d) : span.Within start text := by
  rcases lexeme with ⟨_ | content, whole⟩
  · cases inside
  · rcases exists_split_of_mem_place member with ⟨before, after, split, place⟩
    have scanned : .tag content ∈ Token.scan d text := by
      rw [split]
      simp
    have proper := Token.isProper_of_mem_scan scanned
    have written : text = before.flatMap (Token.spell d) ++ content.spell d ++
        after.flatMap (Token.spell d) := by
      rw [← Token.flatMap_spell_scan d text, split]
      simp [Token.spell]
    have onTag : span.Within whole.start (content.spell d) := by
      rcases List.mem_cons.mp inside with rfl | named
      · rw [show span = _ from place]
        exact Span.within_ofText (Tag.spell_ne_nil d content) _
      · rcases List.mem_map.mp named with ⟨ident, identMem, rfl⟩
        exact within_names proper identMem
    rw [written]
    exact onTag.extend (congrArg Span.start place) _

/-! ### Lines -/

/-- The line stands in a source at its position. -/
def SourceLine.StandsIn (line : SourceLine) (source : List Char) : Prop :=
  ∃ before after, source = before ++ line.text ++ after ∧ line.start = Text.byteLength before

theorem SourceLine.exists_split_of_mem_place (between : List Char) {start : Nat}
    {texts : List (List Char)} {line : SourceLine}
    (member : line ∈ place (Text.byteLength between) start texts) :
    ∃ front back, texts = front ++ line.text :: back ∧
      line.start = start + Text.byteLength (front.flatMap (· ++ between)) := by
  induction texts generalizing start with
  | nil => cases member
  | cons text rest ih =>
      rw [place, List.mem_cons] at member
      rcases member with rfl | later
      · exact ⟨[], rest, rfl, rfl⟩
      · rcases ih later with ⟨front, back, rfl, begins⟩
        refine ⟨text :: front, back, rfl, ?_⟩
        rw [begins, List.flatMap_cons, Text.byteLength_append, Text.byteLength_append]
        omega

/-- The lines of a text in their places. -/
def SourceLine.ofText (source : String) : List SourceLine :=
  place 0 0 (Text.lines source.toList)

/-- Lines in their places in the text that joins them with newlines. -/
def SourceLine.ofLines (lines : List String) : List SourceLine :=
  place 1 0 (lines.map String.toList)

theorem SourceLine.standsIn_text {source : String} {line : SourceLine}
    (member : line ∈ ofText source) : line.StandsIn source.toList := by
  rcases exists_split_of_mem_place [] member with ⟨front, back, split, begins⟩
  refine ⟨front.flatten, back.flatten, ?_, by simpa [List.flatMap_id'] using begins⟩
  rw [← Text.flatten_lines source.toList, split]
  simp

theorem intercalate_append_cons {α : Type} (between text : List α) (front back : List (List α)) :
    between.intercalate (front ++ text :: back) =
      front.flatMap (· ++ between) ++ between.intercalate (text :: back) := by
  induction front with
  | nil => rfl
  | cons first rest ih =>
      have nonempty : rest ++ text :: back ≠ [] := by simp
      rw [List.cons_append, List.intercalate_cons_of_ne_nil nonempty, ih]
      simp

theorem SourceLine.standsIn_lines {lines : List String} {line : SourceLine}
    (member : line ∈ ofLines lines) :
    line.StandsIn ("\n".intercalate lines).toList := by
  rcases exists_split_of_mem_place ['\n'] member with ⟨front, back, split, begins⟩
  rw [Nat.zero_add] at begins
  have source : ("\n".intercalate lines).toList = ['\n'].intercalate (lines.map String.toList) :=
    String.toList_intercalate
  rw [source, split, intercalate_append_cons]
  rcases back with _ | ⟨next, more⟩
  · exact ⟨_, [], by simp, begins⟩
  · exact ⟨_, ['\n'] ++ ['\n'].intercalate (next :: more), by simp, begins⟩

end GraphTemplate
