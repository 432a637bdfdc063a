import GraphTemplate.Template.Tag
import GraphTemplate.Text.Span

/-!
# Tokens

A line is cut into tags and the raw text between them, by taking tags from left to right wherever
one begins.  Tokens carry no positions; since a token is as long as its written form, `Lexeme.place`
finds them again.
-/

namespace GraphTemplate

inductive Token where
  | raw (text : List Char)
  | tag (content : Tag)
deriving DecidableEq, Repr

namespace Token

def spell (d : Delimiters) : Token → List Char
  | raw text => text
  | tag content => content.spell d

/-- Puts a character of raw text in front of tokens. -/
def consRaw (c : Char) : List Token → List Token
  | raw text :: rest => raw (c :: text) :: rest
  | tokens => raw [c] :: tokens

def scan (d : Delimiters) (text : List Char) : List Token :=
  match text with
  | [] => []
  | c :: later =>
      match _found : Tag.read d (c :: later) with
      | some (content, rest) => tag content :: scan d rest
      | none => consRaw c (scan d later)
termination_by text.length
decreasing_by
  · exact Tag.length_lt_of_read _found
  · simp

end Token

/-- A piece of a template with the bytes it covers. -/
structure Lexeme where
  token : Token
  span : Span
deriving DecidableEq, Repr

namespace Lexeme

/-- Places tokens one after the other from a position on. -/
def place (d : Delimiters) (start : Nat) : List Token → List Lexeme
  | [] => []
  | token :: rest =>
      let span := Span.ofText start (token.spell d)
      ⟨token, span⟩ :: place d span.stop rest

def ofLine (d : Delimiters) (start : Nat) (text : List Char) : List Lexeme :=
  place d start (Token.scan d text)

end Lexeme

/-- A name in a template with the bytes it covers. -/
structure Ident where
  name : String
  span : Span
deriving DecidableEq, Repr

namespace Ident

def place (start : Nat) (name : String) : Ident :=
  ⟨name, Span.ofText start name.toList⟩

/-- The further names of a path, the first of whose points is at a position. -/
def placePath (start : Nat) : List String → List Ident
  | [] => []
  | name :: rest =>
      let ident := place (start + 1) name
      ident :: placePath ident.span.stop rest

end Ident

end GraphTemplate
