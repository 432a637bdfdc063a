import GraphTemplate.Proofs.Template.Tiling
import Mathlib.Data.List.Chain

/-!
# Cutting a line piece by piece

A lexer goes through a line from left to right and gives one piece at a call.  It looks for the left
delimiter, tries to read a tag wherever that occurs, and goes on one character later where there is
none; raw text in front of a tag is given first, and the tag is read again at the next call.

However the delimiters overlap, the pieces cover the line without a gap, a tag reaches as far as it is
read, and raw text neither holds the beginning of a tag nor stands beside other raw text.  There is
only one way to cut a line like this, and the tokens of the line are cut this way.
-/

namespace GraphTemplate

/-! ### Text in which no tag begins -/

namespace Tag

/-- No tag begins in a text that another follows on the same line. -/
def Untagged (d : Delimiters) (text after : List Char) : Prop :=
  ∀ skipped here, text = skipped ++ here → here ≠ [] → read d (here ++ after) = none

variable {d : Delimiters}

theorem untagged_nil (after : List Char) : Untagged d [] after := by
  intro skipped here split more
  exact absurd (List.append_eq_nil_iff.mp split.symm).2 more

theorem untagged_cons_iff {c : Char} {text after : List Char} :
    Untagged d (c :: text) after ↔ read d (c :: text ++ after) = none ∧ Untagged d text after := by
  constructor
  · intro untagged
    refine ⟨untagged [] _ rfl (List.cons_ne_nil c text), ?_⟩
    intro skipped here split more
    exact untagged (c :: skipped) here (congrArg (c :: ·) split) more
  · rintro ⟨unread, untagged⟩ skipped here split more
    rcases skipped with _ | ⟨first, skipped⟩
    · rw [List.nil_append] at split
      rw [← split]
      exact unread
    · exact untagged skipped here (List.tail_eq_of_cons_eq split) more

theorem Untagged.append {front back after : List Char} (inFront : Untagged d front (back ++ after))
    (inBack : Untagged d back after) : Untagged d (front ++ back) after := by
  induction front with
  | nil => exact inBack
  | cons c front ih =>
      rw [untagged_cons_iff] at inFront
      refine untagged_cons_iff.mpr ⟨?_, ih inFront.2⟩
      simpa using inFront.1

theorem read_eq_none_of_eat {text : List Char} (without : eat d.left text = none) :
    read d text = none := by
  simp [read, without]

/-- A tag in a text: what is in front of it, the text from the tag on, the tag, and what follows. -/
structure Occurrence where
  before : List Char
  here : List Char
  content : Tag
  after : List Char

end Tag

/-! ### The lexer -/

/-- A line that is being cut: the position up to which it has been, and what is left of it. -/
structure Lexer where
  cursor : Nat
  rest : List Char

namespace Lexer

variable {d : Delimiters}

/-- What is in front of the first occurrence of a pattern, and the text from there on. -/
def find? (pattern : List Char) : List Char → Option (List Char × List Char)
  | [] => none
  | c :: text =>
      if (Tag.eat pattern (c :: text)).isSome then some ([], c :: text)
      else (find? pattern text).map fun found => (c :: found.1, found.2)

theorem eq_append_of_find? {pattern text before here : List Char}
    (found : find? pattern text = some (before, here)) : text = before ++ here ∧ here ≠ [] := by
  induction text generalizing before with
  | nil => cases found
  | cons c text ih =>
      rw [find?] at found
      split at found
      · cases found
        exact ⟨rfl, List.cons_ne_nil c text⟩
      · rcases Option.map_eq_some_iff.mp found with ⟨⟨front, rest⟩, later, same⟩
        cases same
        exact ⟨congrArg (c :: ·) (ih later).1, (ih later).2⟩

/-- In front of the first left delimiter, or of the end of the line, no tag begins. -/
theorem untagged_of_find? (text : List Char) :
    match find? d.left text with
    | some (before, here) => Tag.Untagged d before here
    | none => Tag.Untagged d text [] := by
  induction text with
  | nil => exact Tag.untagged_nil []
  | cons c text ih =>
      rw [find?]
      by_cases begins : (Tag.eat d.left (c :: text)).isSome
      · rw [if_pos begins]
        exact Tag.untagged_nil _
      · rw [if_neg begins]
        have unread := Tag.read_eq_none_of_eat (Option.not_isSome_iff_eq_none.mp begins)
        rcases found : find? d.left text with _ | ⟨before, here⟩
        · rw [found] at ih
          exact Tag.untagged_cons_iff.mpr ⟨by simpa using unread, ih⟩
        · rw [found] at ih
          refine Tag.untagged_cons_iff.mpr ⟨?_, ih⟩
          rw [(eq_append_of_find? found).1] at unread
          exact unread

/-- The first tag of a text. -/
def firstTag? (d : Delimiters) (text : List Char) : Option Tag.Occurrence :=
  match _found : find? d.left text with
  | none => none
  | some (_, []) => none
  | some (before, c :: later) =>
      match Tag.read d (c :: later) with
      | some (content, after) => some ⟨before, c :: later, content, after⟩
      | none => (firstTag? d later).map fun next => { next with before := before ++ c :: next.before }
termination_by text.length
decreasing_by
  rw [(eq_append_of_find? _found).1, List.length_append, List.length_cons]
  omega

/-- What the search for a tag comes to: the first place of the text that begins one, or none. -/
theorem firstTag?_spec (text : List Char) :
    match firstTag? d text with
    | some found => text = found.before ++ found.here ∧
        Tag.read d found.here = some (found.content, found.after) ∧
        Tag.Untagged d found.before found.here
    | none => Tag.Untagged d text [] := by
  fun_induction firstTag? d text with
  | case1 text absent =>
      have untagged := untagged_of_find? (d := d) text
      rw [absent] at untagged
      exact untagged
  | case2 text before found => exact absurd rfl (eq_append_of_find? found).2
  | case3 text before c later found content after read =>
      have untagged := untagged_of_find? (d := d) text
      rw [found] at untagged
      exact ⟨(eq_append_of_find? found).1, read, untagged⟩
  | case4 text before c later found unread ih =>
      have untagged := untagged_of_find? (d := d) text
      rw [found] at untagged
      have split := (eq_append_of_find? found).1
      rcases next : firstTag? d later with _ | ⟨between, here, content, after⟩
      · rw [next] at ih
        rw [split]
        exact Tag.Untagged.append (by simpa using untagged)
          (Tag.untagged_cons_iff.mpr ⟨by simpa using unread, ih⟩)
      · -- The delimiter that begins no tag is passed by one character only, so what is skipped is
        -- the text before it, this character, and what the search skips from there.
        rw [next] at ih
        rcases ih with ⟨laterSplit, read, untaggedLater⟩
        simp only at laterSplit read untaggedLater
        subst laterSplit
        refine ⟨by simp [split], read, ?_⟩
        exact Tag.Untagged.append untagged (Tag.untagged_cons_iff.mpr ⟨unread, untaggedLater⟩)

/-- Gives the next piece of a line, and goes on behind it. -/
def emit (d : Delimiters) (lexer : Lexer) (token : Token) (rest : List Char) : Lexeme × Lexer :=
  let span := Span.ofText lexer.cursor (token.spell d)
  (⟨token, span⟩, ⟨span.stop, rest⟩)

/-- The next piece of a line, and the line behind it. -/
def next? (d : Delimiters) (lexer : Lexer) : Option (Lexeme × Lexer) :=
  match lexer.rest with
  | [] => none
  | c :: later =>
      match firstTag? d (c :: later) with
      | none => some (lexer.emit d (.raw (c :: later)) [])
      | some ⟨[], _, content, after⟩ => some (lexer.emit d (.tag content) after)
      | some ⟨before, here, _, _⟩ => some (lexer.emit d (.raw before) here)

end Lexer

def Token.isRaw : Token → Bool
  | raw _ => true
  | tag _ => false

/-- What part of a line a token is, in view of what follows it: a tag reaches exactly as far as it is
read there, and raw text is itself and begins no tag anywhere. -/
def Token.CutsOff (d : Delimiters) (inside after : List Char) : Token → Prop
  | raw content => content = inside ∧ Tag.Untagged d inside after
  | tag content => Tag.read d (inside ++ after) = some (content, after)

theorem Token.CutsOff.spell_eq {d : Delimiters} {inside after : List Char} {token : Token}
    (cutsOff : token.CutsOff d inside after) : token.spell d = inside := by
  cases token with
  | raw content => exact cutsOff.1
  | tag content =>
      exact (List.append_cancel_right (Tag.eq_spell_append_of_read cutsOff)).symm

namespace Lexer

variable {d : Delimiters} {lexer behind : Lexer} {lexeme : Lexeme}

theorem next?_eq_none_iff : lexer.next? d = none ↔ lexer.rest = [] := by
  unfold next?
  split
  · rename_i nothing
    simp [nothing]
  · rename_i c later more
    rw [more]
    split <;> simp

/-- What a call does: it gives a piece of the rest of the line, and where this is raw text, a tag or the
end of the line follows. -/
theorem exists_of_next? (yields : lexer.next? d = some (lexeme, behind)) :
    ∃ inside, lexer.rest = inside ++ behind.rest ∧ inside ≠ [] ∧
      lexeme.span = Span.ofText lexer.cursor inside ∧ behind.cursor = lexeme.span.stop ∧
      lexeme.token.CutsOff d inside behind.rest ∧
      (lexeme.token.isRaw → behind.rest = [] ∨ (Tag.read d behind.rest).isSome) := by
  unfold next? at yields
  split at yields
  · cases yields
  · rename_i c later more
    rw [more]
    have search := firstTag?_spec (d := d) (c :: later)
    split at yields
    · rename_i absent
      rw [absent] at search
      cases yields
      exact ⟨c :: later, by simp, List.cons_ne_nil c later, rfl, rfl, ⟨rfl, search⟩,
        fun _ => Or.inl rfl⟩
    · rename_i here content after found
      rw [found] at search
      cases yields
      rcases search with ⟨split, read, _⟩
      rw [List.nil_append] at split
      simp only at split read
      have written := Tag.eq_spell_append_of_read read
      refine ⟨content.spell d, split.trans written, Tag.spell_ne_nil d content, rfl, rfl, ?_, ?_⟩
      · rw [written] at read
        exact read
      · intro impossible
        cases impossible
    · rename_i before here content after notFirst found
      rw [found] at search
      cases yields
      rcases search with ⟨split, read, untagged⟩
      have nonempty : before ≠ [] := by
        rintro rfl
        exact notFirst rfl
      refine ⟨before, split, nonempty, rfl, rfl, ⟨rfl, untagged⟩, ?_⟩
      intro _
      exact Or.inr (Option.isSome_of_eq_some read)

theorem length_rest_lt_of_next? (yields : lexer.next? d = some (lexeme, behind)) :
    behind.rest.length < lexer.rest.length := by
  rcases exists_of_next? yields with ⟨inside, split, nonempty, _⟩
  have := List.length_pos_iff.mpr nonempty
  rw [split, List.length_append]
  omega

/-- The pieces that a lexer gives until the line is used up. -/
def toList (d : Delimiters) (lexer : Lexer) : List Lexeme :=
  match _yields : lexer.next? d with
  | none => []
  | some (lexeme, behind) => lexeme :: behind.toList d
termination_by lexer.rest.length
decreasing_by exact length_rest_lt_of_next? _yields

end Lexer

/-! ### Tilings -/

/-- Two splits of a text: what is shorter is the beginning of what is longer. -/
theorem Text.exists_eq_append_of_byteLength_le {front rest inside after : List Char}
    (same : front ++ rest = inside ++ after)
    (le : Text.byteLength inside ≤ Text.byteLength front) : ∃ more, front = inside ++ more := by
  rcases List.append_eq_append_iff.mp same with ⟨more, longer, _⟩ | ⟨more, split, _⟩
  · have nothing : more = [] := by
      by_contra more
      have := Text.byteLength_pos more
      rw [longer, Text.byteLength_append] at le
      omega
    exact ⟨[], by simp [longer, nothing]⟩
  · exact ⟨more, split⟩

namespace Lexeme

/-- Pieces that cover the bytes from a start to a stop one after the other. -/
def Joined (start stop : Nat) : List Lexeme → Prop
  | [] => start = stop
  | lexeme :: rest => lexeme.span.start = start ∧ Joined lexeme.span.stop stop rest

/-- A way to cut a line that begins at a position into pieces: they cover the line without gaps, each
is what its token says of at least one character, and no two pieces of raw text meet. -/
structure Tiling (d : Delimiters) (start : Nat) (text : List Char) (lexemes : List Lexeme) :
    Prop where
  joined : Joined start (start + Text.byteLength text) lexemes
  pieces : ∀ lexeme ∈ lexemes, ∃ before inside after, text = before ++ inside ++ after ∧
    inside ≠ [] ∧ lexeme.span = Span.ofText (start + Text.byteLength before) inside ∧
    lexeme.token.CutsOff d inside after
  apart : lexemes.IsChain fun left right => ¬ (left.token.isRaw ∧ right.token.isRaw)

variable {d : Delimiters} {start : Nat}

theorem Joined.le_start {stop : Nat} {lexemes : List Lexeme} {lexeme : Lexeme}
    (joined : Joined start stop lexemes)
    (forward : ∀ lexeme ∈ lexemes, lexeme.span.start ≤ lexeme.span.stop)
    (member : lexeme ∈ lexemes) : start ≤ lexeme.span.start := by
  induction lexemes generalizing start with
  | nil => cases member
  | cons first rest ih =>
      rcases joined with ⟨begins, further⟩
      rw [List.forall_mem_cons] at forward
      rcases List.mem_cons.mp member with rfl | later
      · exact Nat.le_of_eq begins.symm
      · have behind := ih further forward.2 later
        omega

theorem tiling_nil : Tiling d start [] [] where
  joined := rfl
  pieces := by
    intro lexeme member
    cases member
  apart := .nil

theorem Tiling.cons {inside after : List Char} {lexeme : Lexeme} {rest : List Lexeme}
    (nonempty : inside ≠ []) (span : lexeme.span = Span.ofText start inside)
    (cutsOff : lexeme.token.CutsOff d inside after)
    (further : Tiling d lexeme.span.stop after rest)
    (apart : ∀ next ∈ rest.head?, ¬ (lexeme.token.isRaw ∧ next.token.isRaw)) :
    Tiling d start (inside ++ after) (lexeme :: rest) where
  joined := by
    have joined := further.joined
    rw [span] at joined
    rw [Text.byteLength_append, ← Nat.add_assoc]
    exact ⟨by rw [span, Span.ofText], by rw [span]; exact joined⟩
  pieces := by
    intro other member
    rcases List.mem_cons.mp member with rfl | later
    · exact ⟨[], inside, after, rfl, nonempty, span, cutsOff⟩
    · rcases further.pieces other later with
        ⟨before, inner, behind, rfl, innerNonempty, innerSpan, innerCutsOff⟩
      refine ⟨inside ++ before, inner, behind, by simp, innerNonempty, ?_, innerCutsOff⟩
      rw [innerSpan, span, Text.byteLength_append, ← Nat.add_assoc]
      rfl
  apart := List.isChain_cons.mpr ⟨apart, further.apart⟩

/-- The first piece of a tiling is the beginning of the line, and the others are a tiling of what
follows. -/
theorem Tiling.uncons {text : List Char} {lexeme : Lexeme} {rest : List Lexeme}
    (tiling : Tiling d start text (lexeme :: rest)) :
    ∃ inside after, text = inside ++ after ∧ inside ≠ [] ∧
      lexeme.span = Span.ofText start inside ∧ lexeme.token.CutsOff d inside after ∧
      Tiling d lexeme.span.stop after rest ∧
      ∀ next ∈ rest.head?, ¬ (lexeme.token.isRaw ∧ next.token.isRaw) := by
  rcases tiling with ⟨⟨begins, joined⟩, pieces, apart⟩
  rcases List.isChain_cons.mp apart with ⟨apartFirst, apartRest⟩
  rcases pieces lexeme List.mem_cons_self with
    ⟨before, inside, after, rfl, nonempty, span, cutsOff⟩
  have first : before = [] := by
    by_contra more
    have := Text.byteLength_pos more
    rw [span] at begins
    simp only [Span.ofText] at begins
    omega
  subst first
  rw [List.nil_append] at joined pieces ⊢
  refine ⟨inside, after, rfl, nonempty, span, cutsOff, ⟨?_, ?_, apartRest⟩, apartFirst⟩
  · rw [Text.byteLength_append, ← Nat.add_assoc] at joined
    rw [span] at joined ⊢
    exact joined
  · intro other member
    have forward : ∀ other ∈ rest, other.span.start ≤ other.span.stop := by
      intro other member
      rcases pieces other (List.mem_cons_of_mem _ member) with ⟨_, _, _, _, _, span, _⟩
      rw [span]
      exact Nat.le_add_right _ _
    rcases pieces other (List.mem_cons_of_mem _ member) with
      ⟨front, inner, behind, split, innerNonempty, innerSpan, innerCutsOff⟩
    -- Every other piece starts where the first one stops or later, so it lies in what follows.
    have behindFirst : Text.byteLength inside ≤ Text.byteLength front := by
      have le := joined.le_start forward member
      rw [span, innerSpan] at le
      simp only [Span.ofText, Text.byteLength_nil] at le
      omega
    rw [List.append_assoc] at split
    rcases Text.exists_eq_append_of_byteLength_le split.symm behindFirst with ⟨more, rfl⟩
    refine ⟨more, inner, behind, ?_, innerNonempty, ?_, innerCutsOff⟩
    · simpa using split
    · rw [innerSpan, span, Text.byteLength_append, ← Nat.add_assoc]
      rfl

end Lexeme

/-- Raw text in front of a tag, or of the end of a line, is one token. -/
theorem Token.scan_of_untagged {d : Delimiters} {inside after : List Char} (nonempty : inside ≠ [])
    (untagged : Tag.Untagged d inside after)
    (apart : ∀ token ∈ (scan d after).head?, ¬ token.isRaw) :
    scan d (inside ++ after) = raw inside :: scan d after := by
  induction inside with
  | nil => exact absurd rfl nonempty
  | cons c inside ih =>
      rw [Tag.untagged_cons_iff] at untagged
      have unread : Tag.read d (c :: (inside ++ after)) = none := untagged.1
      rw [List.cons_append, scan_of_unread unread]
      by_cases more : inside = []
      · subst more
        rw [List.nil_append]
        generalize scan d after = tokens at apart
        rcases tokens with _ | ⟨text | content, rest⟩
        · rfl
        · exact absurd rfl (apart (raw text) rfl)
        · rfl
      · rw [ih more untagged.2]
        rfl

/-- There is only one way to cut a line. -/
theorem Lexeme.Tiling.eq_ofLine {d : Delimiters} {start : Nat} {text : List Char}
    {lexemes : List Lexeme} (tiling : Tiling d start text lexemes) :
    lexemes = ofLine d start text := by
  induction lexemes generalizing start text with
  | nil =>
      have nothing : text = [] := by
        by_contra more
        have := Text.byteLength_pos more
        have joined : start = start + Text.byteLength text := tiling.joined
        omega
      rw [nothing, ofLine, Token.scan, place]
  | cons lexeme rest ih =>
      rcases tiling.uncons with ⟨inside, after, rfl, nonempty, span, cutsOff, further, apart⟩
      have following := ih further
      rcases lexeme with ⟨token, place⟩
      have spelled := cutsOff.spell_eq
      have scanned : Token.scan d (inside ++ after) = token :: Token.scan d after := by
        cases token with
        | tag content => exact Token.scan_of_read cutsOff
        | raw content =>
            rcases cutsOff with ⟨rfl, untagged⟩
            apply Token.scan_of_untagged nonempty untagged
            -- If the tokens of what follows began with raw text, so would the rest of the tiling.
            intro token member isRaw
            rw [following, ofLine] at apart
            generalize Token.scan d after = tokens at apart member
            rcases tokens with _ | ⟨first, others⟩
            · cases member
            · cases member
              exact apart _ rfl ⟨rfl, isRaw⟩
      rw [following, ofLine, ofLine, scanned, Lexeme.place, spelled, ← span]

namespace Lexer

variable {d : Delimiters}

/-- A piece of raw text is not followed by another. -/
theorem not_isRaw_of_read {lexer behind : Lexer} {lexeme : Lexeme}
    (begins : (Tag.read d lexer.rest).isSome) (yields : lexer.next? d = some (lexeme, behind)) :
    ¬ lexeme.token.isRaw := by
  rcases exists_of_next? yields with ⟨inside, split, nonempty, _, _, cutsOff, _⟩
  rcases lexeme with ⟨content | content, span⟩
  · have unread := cutsOff.2 [] inside rfl nonempty
    rw [split, unread] at begins
    cases begins
  · exact Bool.false_ne_true

theorem tiling_toList (lexer : Lexer) :
    Lexeme.Tiling d lexer.cursor lexer.rest (lexer.toList d) := by
  fun_induction toList d lexer with
  | case1 lexer finished =>
      rw [next?_eq_none_iff.mp finished]
      exact Lexeme.tiling_nil
  | case2 lexer lexeme behind yields ih =>
      rcases exists_of_next? yields with
        ⟨inside, split, nonempty, span, begins, cutsOff, tagFollows⟩
      rw [begins] at ih
      rw [split]
      apply Lexeme.Tiling.cons nonempty span cutsOff ih
      rintro next member ⟨isRaw, nextRaw⟩
      rw [toList] at member
      split at member
      · cases member
      · rename_i following after more
        cases member
        rcases tagFollows isRaw with nothing | read
        · rw [next?_eq_none_iff.mpr nothing] at more
          cases more
        · exact not_isRaw_of_read read more nextRaw

/-- Whatever the delimiters are, calling the lexer until the line is used up gives the tokens of the
line, and these are the only pieces that cover it in order and without a gap, each with at least one
character, so that a tag ends where reading it ends, no tag begins inside raw text, and raw texts do
not meet. -/
theorem tiling_iff_eq_toList (d : Delimiters) (start : Nat) (text : List Char) :
    toList d ⟨start, text⟩ = Lexeme.ofLine d start text ∧
      ∀ lexemes, Lexeme.Tiling d start text lexemes ↔ lexemes = toList d ⟨start, text⟩ := by
  have tiling : Lexeme.Tiling d start text (toList d ⟨start, text⟩) := tiling_toList ⟨start, text⟩
  have same := tiling.eq_ofLine
  refine ⟨same, ?_⟩
  intro lexemes
  constructor
  · intro other
    exact other.eq_ofLine.trans same.symm
  · rintro rfl
    exact tiling

end Lexer

end GraphTemplate
