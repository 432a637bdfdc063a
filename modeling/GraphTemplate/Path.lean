/-!
# Paths

A path leads from the root of a tree to one of its nodes.  A *concrete* path is made of keys and
indexes and leads to one node.  A *canonical* path is made of keys and wildcards and stands for all
concrete paths that differ from it only in their indexes: it covers them.
-/

namespace GraphTemplate

/-- One step of a path. -/
inductive Segment where
  | key (name : String)
  | index (position : Nat)
  | any
deriving DecidableEq, Repr

namespace Segment

def key? : Segment → Option String
  | key name => some name
  | _ => none

/-- A segment in the text of a path; the wildcard is a star. -/
def text : Segment → String
  | key name => name
  | index position => toString position
  | any => "*"

/-- The wildcard covers every index, and every segment covers itself. -/
def covers : Segment → Segment → Bool
  | any, index _ => true
  | pattern, segment => pattern == segment

/-- The segment with the position of an index forgotten. -/
def erase : Segment → Segment
  | index _ => any
  | segment => segment

end Segment

/-- Steps from a root, outermost first. -/
abbrev Path := List Segment

namespace Path

def ofKeys (keys : List String) : Path :=
  keys.map Segment.key

def join (path : Path) (segment : Segment) : Path :=
  path ++ [segment]

def keys (path : Path) : List String :=
  path.filterMap Segment.key?

/-- The key of the last segment, if that is a key. -/
def lastKey? (path : Path) : Option String :=
  path.getLast?.bind Segment.key?

def text (path : Path) : String :=
  ".".intercalate (path.map Segment.text)

/-- A canonical path covers the concrete paths of the same length that it covers step by step. -/
def covers : Path → Path → Bool
  | [], [] => true
  | pattern :: patterns, segment :: segments =>
      pattern.covers segment && covers patterns segments
  | _, _ => false

/-- The path with the positions of its indexes forgotten. -/
def erase (path : Path) : Path :=
  path.map Segment.erase

end Path

end GraphTemplate
