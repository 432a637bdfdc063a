import GraphTemplate.Error.Excerpt
import GraphTemplate.Fault
import GraphTemplate.Text.Width

/-!
# Errors

An error is a fault and, if it concerns a template, the place in the source of the template.  It is
shown in one line with byte positions, or with an excerpt of the source that underlines the place.
-/

namespace GraphTemplate

/-- A fault at a place of a template whose source is understood. -/
structure LocatedFault where
  fault : Fault
  span : Span
deriving DecidableEq, Repr

structure Place where
  source : String
  span : Span
deriving DecidableEq, Repr

/-- A fault and where it lies. -/
structure Error where
  fault : Fault
  place : Option Place
deriving DecidableEq, Repr

namespace Error

def ofFault (fault : Fault) : Error :=
  ⟨fault, none⟩

def ofLocated (source : String) (located : LocatedFault) : Error :=
  ⟨located.fault, some ⟨source, located.span⟩⟩

def message (error : Error) : String :=
  match error.place with
  | none => error.fault.message
  | some place =>
      s!"{error.fault.message} between bytes {place.span.start} and {place.span.stop}"

def pretty (error : Error) : String :=
  match error.place with
  | none => error.fault.message
  | some place =>
      String.ofList
        (excerpt Text.width error.fault.message.toList place.source.toList place.span)

end Error

end GraphTemplate
