import GraphTemplate.Text.Identifier
import GraphTemplate.Text.WidthTable

/-!
# Column width

The number of columns a text takes on a terminal.  Most characters have a width of their own:
`baseWidth`.  Some sequences are drawn as one sign: emoji with selectors, modifiers and joiners,
flags, and ligatures of several scripts.  The text is therefore measured from its end to its start,
and `Context` records what stands to the right of a character as far as it can join with it.

A line end takes no column, whether it is written with a carriage return or without; every other
control character takes one.
-/

namespace GraphTemplate

namespace Text

/-- What begins to the right of a character and may still draw it in. -/
inductive Sign where
  | plain
  | lineFeed
  | skinTone
  /-- One flag letter, or several of them. -/
  | flagLetter
  | flagLetters
  | emoji
  /-- A joiner before an emoji, and a keycap before that. -/
  | joinedEmoji
  | joinedKeycap
  /-- Flag letters before a joined emoji: one, an even number, a greater odd number. -/
  | joinedFlagLetter
  | joinedFlagEven
  | joinedFlagOdd
  /-- The end of a tag sequence before a joined emoji, then its letters or digits from the right. -/
  | tagEnd
  | tagLetters (count : Nat)
  | tagDigits (count : Nat)
  | arabicAlef
  /-- Letters that make a ligature through a joiner, and whether the joiner has been seen. -/
  | hebrewLamed (joined : Bool)
  | bugineseYa (joined : Bool)
  | bugineseVowelYa
  | tifinaghConsonant (joined : Bool)
  | tifinaghJoiner
  | lisuTone
  | orkhonI (joined : Bool)
  | khmerLetter
deriving DecidableEq, Repr

namespace Sign

/-- Ignorable marks inside the ligature do not break it. -/
def isTransparent : Sign → Bool
  | hebrewLamed _ | bugineseYa _ | bugineseVowelYa | tifinaghConsonant _ | tifinaghJoiner
  | lisuTone | orkhonI _ | khmerLetter => true
  | _ => false

/-- The sign belongs to a ligature of letters, which a variation selector does not break. -/
def isLigature (sign : Sign) : Bool :=
  sign == arabicAlef || sign.isTransparent

/-- The sign is a joiner that waits for an emoji to its left. -/
def awaitsEmoji : Sign → Bool
  | joinedEmoji | joinedKeycap => true
  | _ => false

/-- The sign after a joiner to its left. -/
def join : Sign → Sign
  | hebrewLamed _ => hebrewLamed true
  | bugineseYa _ => bugineseYa true
  | tifinaghConsonant _ => tifinaghConsonant true
  | orkhonI _ => orkhonI true
  | sign => sign

end Sign

/-- What stands to the right of a character: a sign, and a pending selector of a form. -/
structure Context where
  sign : Sign := .plain
  asText : Bool := false
  asEmoji : Bool := false
deriving DecidableEq, Repr

namespace Context

def of (sign : Sign) : Context :=
  { sign := sign }

/-- A selector of the emoji form stands before the context. -/
def selectEmoji (next : Context) : Context :=
  if next.sign.isLigature then { next with asEmoji := true }
  else if next.sign.awaitsEmoji then { sign := next.sign, asEmoji := true }
  else { asEmoji := true }

/-- A selector of the text form stands before the context. -/
def selectText (next : Context) : Context :=
  if next.sign.isLigature then { next with asText := true } else { asText := true }

/-- The selector of the emoji form found no character to act on. -/
def dropEmoji (next : Context) : Context :=
  if ! next.asEmoji then next
  else if next.sign.isLigature then { next with asEmoji := false }
  else {}

/-- The selector of the text form found no character to act on. -/
def dropText (next : Context) : Context :=
  { next with asText := false }

end Context

/-- The code point of the character lies between two others. -/
def isBetween (low high : Nat) (c : Char) : Bool :=
  low ≤ c.toNat && c.toNat ≤ high

def isFlagLetter (c : Char) : Bool :=
  isBetween 0x1F1E6 0x1F1FF c

def isSkinTone (c : Char) : Bool :=
  isBetween 0x1F3FB 0x1F3FF c

def isEmoji (c : Char) : Bool :=
  inRanges emojiRanges c.toNat

def hasEmojiForm (c : Char) : Bool :=
  inRanges variationBaseRanges c.toNat

/-- The character is an emoji by default and has a narrower text form. -/
def hasNarrowTextForm (c : Char) : Bool :=
  isEmoji c && hasEmojiForm c && ! isBetween 0x1F200 0x1F2FF c

/-- An Arabic letter of the joining group of alef. -/
def isArabicAlef (c : Char) : Bool :=
  [0x622, 0x623, 0x625, 0x627, 0x671, 0x672, 0x673, 0x675, 0x773, 0x774].contains c.toNat ||
    isBetween 0x870 0x882 c

/-- An Arabic letter of the joining group of lam. -/
def isArabicLam (c : Char) : Bool :=
  [0x644, 0x76A, 0x8A6, 0x8C7].contains c.toNat || isBetween 0x6B5 0x6B8 c

/-- A Khmer letter with a subscript form. -/
def isKhmerLetter (c : Char) : Bool :=
  inRanges [(0x1780, 0x1782), (0x1784, 0x1787), (0x1789, 0x178C), (0x178E, 0x1793),
    (0x1795, 0x1798), (0x179B, 0x179D), (0x17A0, 0x17A0), (0x17A2, 0x17A2), (0x17A7, 0x17A7),
    (0x17AB, 0x17AC), (0x17AF, 0x17AF)] c.toNat

def isTifinaghConsonant (c : Char) : Bool :=
  isBetween 0x2D31 0x2D65 c || c.toNat == 0x2D6F

/-- An ignorable mark, which may stand inside a ligature. -/
def isIgnorableMark (c : Char) : Bool :=
  inRanges [(0x034F, 0x034F), (0x17B4, 0x17B5), (0x180B, 0x180D), (0x180F, 0x180F),
    (0xFE00, 0xFE0F), (0xE0100, 0xE01EF)] c.toNat

/-- The columns of a character that stands alone. -/
def baseWidth (c : Char) : Nat :=
  if c.toNat ≤ 0xA0 then 1
  else if c.toNat = 0x17D8 then 3
  else if inRanges zeroWidthRanges c.toNat then 0
  else if inRanges doubleWidthRanges c.toNat then 2
  else 1

/-- The sign that a character begins when it is joined with nothing to its right. -/
def baseSign (c : Char) : Sign :=
  if isEmoji c then .emoji
  else if isSkinTone c then .skinTone
  else if isFlagLetter c then .flagLetter
  else if isArabicAlef c then .arabicAlef
  else if isKhmerLetter c then .khmerLetter
  else if isTifinaghConsonant c then .tifinaghConsonant false
  else match c.toNat with
    | 0x5DC => .hebrewLamed false
    | 0x1A10 => .bugineseYa false
    | 0xA4FC | 0xA4FD => .lisuTone
    | 0x10C03 => .orkhonI false
    | _ => .plain

/-- The character has no width and lets Arabic letters join across it. -/
def isTransparentMark (c : Char) : Bool :=
  baseWidth c == 0 && ! inRanges joinBreakingRanges c.toNat

/-- The change of width and the sign when a character joins with what stands to its right. -/
def joinedStep? (c : Char) (sign : Sign) : Option (Int × Sign) :=
  match sign with
  | .arabicAlef =>
      if isArabicLam c then some (0, .plain)
      else if isTransparentMark c then some (0, .arabicAlef)
      else none
  | .hebrewLamed true => if c.toNat = 0x5D0 then some (0, .plain) else none
  | .khmerLetter => if c.toNat = 0x17D2 then some (-1, .plain) else none
  | .bugineseYa true => if c.toNat = 0x1A17 then some (0, .bugineseVowelYa) else none
  | .bugineseVowelYa => if c.toNat = 0x1A15 then some (0, .plain) else none
  | .tifinaghConsonant joined =>
      if c.toNat = 0x2D7F then some (1, .tifinaghJoiner)
      else if joined && isTifinaghConsonant c then some (0, .plain)
      else none
  | .tifinaghJoiner => if isTifinaghConsonant c then some (-1, .plain) else none
  | .lisuTone => if isBetween 0xA4F8 0xA4FB c then some (0, .plain) else none
  | .orkhonI true => if c.toNat = 0x10C32 then some (0, .plain) else none
  | .skinTone =>
      if inRanges modifierBaseRanges c.toNat then some (0, .emoji)
      else if c.toNat = 0x200D then some (0, .joinedEmoji)
      else none
  | .flagLetter => if isFlagLetter c then some (1, .flagLetters) else none
  | .flagLetters =>
      if isFlagLetter c then some (1, .flagLetters)
      else if c.toNat = 0x200D then some (0, .joinedEmoji)
      else none
  | .emoji => if c.toNat = 0x200D then some (0, .joinedEmoji) else none
  | .joinedEmoji =>
      if c.toNat = 0x20E3 then some (0, .joinedKeycap)
      else if isFlagLetter c then some (1, .joinedFlagLetter)
      else if isSkinTone c then some (0, .skinTone)
      else if c.toNat = 0xE007F then some (0, .tagEnd)
      else if isEmoji c then some (0, .emoji)
      else none
  | .joinedFlagLetter => if isFlagLetter c then some (-1, .joinedFlagEven) else none
  | .joinedFlagEven =>
      if isFlagLetter c then some (3, .joinedFlagOdd)
      else if c.toNat = 0x200D then some (0, .joinedEmoji)
      else none
  | .joinedFlagOdd =>
      if isFlagLetter c then some (-1, .joinedFlagEven)
      else if c.toNat = 0x200D then some (0, .joinedEmoji)
      else none
  | .tagEnd =>
      if isBetween 0xE0061 0xE007A c then some (0, .tagLetters 1)
      else if isBetween 0xE0030 0xE0039 c then some (0, .tagDigits 1)
      else none
  | .tagLetters count =>
      if isBetween 0xE0061 0xE007A c && count < 6 then some (0, .tagLetters (count + 1))
      else if isBetween 0xE0030 0xE0039 c && count < 5 then some (0, .tagDigits 1)
      else if c.toNat = 0x1F3F4 && 3 ≤ count then some (0, .emoji)
      else none
  | .tagDigits count =>
      if isBetween 0xE0030 0xE0039 c && count < 3 then some (0, .tagDigits (count + 1))
      else if c.toNat = 0x1F3F4 && count = 3 then some (0, .emoji)
      else none
  | _ => none

/-- The columns that a character adds to what stands to its right, and the context it leaves for
the character to its left. -/
def columnStep (c : Char) (next : Context) : Int × Context :=
  if next.asEmoji && hasEmojiForm c then
    (if next.sign.awaitsEmoji then 0 else 2, .of .emoji)
  else
    let next := next.dropEmoji
    if c.toNat ≤ 0xA0 then
      if c = '\n' then (0, .of .lineFeed)
      else if c = '\r' && next == .of .lineFeed then (0, {})
      else (1, {})
    else if c.toNat = 0xFE0F then (0, next.selectEmoji)
    else if c.toNat = 0xFE0E then (0, next.selectText)
    else if next.asText && hasNarrowTextForm c then (1, {})
    else
      let next := next.dropText
      if next.sign.isTransparent && c.toNat = 0x200D then (0, .of next.sign.join)
      else if next.sign.isTransparent && isIgnorableMark c then (0, next)
      else match joinedStep? c next.sign with
        | some (columns, sign) => (columns, .of sign)
        | none => (baseWidth c, .of (baseSign c))

def width (text : List Char) : Nat :=
  (text.foldr (fun c (sum : Int × Context) =>
    let step := columnStep c sum.2
    (sum.1 + step.1, step.2)) (0, {})).1.toNat

end Text

end GraphTemplate
