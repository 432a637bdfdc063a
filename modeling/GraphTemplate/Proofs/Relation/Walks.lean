import GraphTemplate.Proofs.Relation.Elements

/-!
# Walks call by call

A walk is a stack of elements that are partly done, and each call takes it on to its next item.  The
items are what the chain leads to, depth first, up to the first error; from then on no call gets
anything.  A chain in two parts is walked by walking the second part from each object at which a walk
of the first arrives.
-/

namespace GraphTemplate

section

variable {ε α β : Type}

/-- Only the first error of the beginning matters. -/
theorem cutAfterError_append_left (items others : List (Except ε α)) :
    cutAfterError (cutAfterError items ++ others) = cutAfterError (items ++ others) := by
  induction items with
  | nil => rfl
  | cons item rest ih =>
      cases item with
      | ok value => simp only [cutAfterError, List.cons_append, ih]
      | error fault => rfl

/-- What follows may be cut first. -/
theorem cutAfterError_append_congr (items : List (Except ε α)) {others more : List (Except ε α)}
    (same : cutAfterError others = cutAfterError more) :
    cutAfterError (items ++ others) = cutAfterError (items ++ more) := by
  induction items with
  | nil => exact same
  | cons item rest ih =>
      cases item with
      | ok value => simp only [cutAfterError, List.cons_append, ih]
      | error fault => rfl

/-- If errors are passed on, it does not matter whether the items, and what each of them leads to, are
cut before or after. -/
theorem cutAfterError_flatMap (items : List (Except ε α))
    {each : Except ε α → List (Except ε β)}
    (passes : ∀ fault, each (.error fault) = [.error fault]) :
    cutAfterError ((cutAfterError items).flatMap fun item => cutAfterError (each item)) =
      cutAfterError (items.flatMap each) := by
  induction items with
  | nil => rfl
  | cons item rest ih =>
      cases item with
      | ok value =>
          simp only [cutAfterError, List.flatMap_cons, cutAfterError_append_left]
          exact cutAfterError_append_congr _ ih
      | error fault => simp [cutAfterError, passes]

end

/-- Where a chain leads from an item that was reached, given where it leads from an object: from a value
nowhere, which is an error unless the chain ends there, and an error stays. -/
def Node.onward (chain : List String) (lead : Object → List (Except Fault Node)) :
    Except Fault Node → List (Except Fault Node)
  | .ok (.object o) => lead o
  | .ok (.value content) =>
      match chain with
      | [] => [.ok (.value content)]
      | next :: _ => [.error (.noAttributes next content.kind)]
  | .error fault => [.error fault]

/-- A chain in two parts leads where its second part leads from what its first part leads to. -/
theorem Object.reach_append (front back : List String) (o : Object) :
    o.reach (front ++ back) = (o.reach front).flatMap (Node.onward back (reach back)) := by
  induction front generalizing o with
  | nil => simp [reach, Node.onward]
  | cons name rest ih =>
      simp only [List.cons_append, reach]
      split
      · rename_i elements found
        rw [List.flatMap_assoc]
        exact List.flatMap_congr fun element _ => ih element
      · rename_i inner found
        exact ih inner
      · rename_i content found
        cases rest <;> cases back <;> simp [Node.onward]
      · simp [Node.onward]

namespace Walker

/-- The answer to a call, and the walk after it.  A walk without a next item has nothing pending any
more. -/
def call (walker : Walker) : Option (Except Fault Node) × Walker :=
  match walker.next? with
  | some (item, after) => (some item, after)
  | none => (none, ⟨[]⟩)

/-- The answer to a call that a number of others come before. -/
def answer? : Nat → Walker → Option (Except Fault Node)
  | 0, walker => walker.call.1
  | earlier + 1, walker => answer? earlier walker.call.2

theorem answer?_eq_getElem? (walker : Walker) (earlier : Nat) :
    walker.answer? earlier = (cutAfterError walker.ahead)[earlier]? := by
  induction earlier generalizing walker with
  | zero =>
      rw [answer?, call, cutAfterError_ahead]
      split <;> simp_all
  | succ earlier ih =>
      rw [answer?, ih, call, cutAfterError_ahead walker]
      split <;> simp_all [ahead, cutAfterError]

/-- To walk a chain from an item is to go where it leads from there, up to the first error. -/
theorem onward_toList (chain : List String) (item : Except Fault Node) :
    Node.onward chain (fun o => (start o chain).toList) item =
      cutAfterError (Node.onward chain (Object.reach chain) item) := by
  cases item with
  | error fault => rfl
  | ok node =>
      cases node with
      | object o => exact toList_start o chain
      | value content => cases chain <;> rfl

/-- A walk yields everything that its chain leads to from the root, depth first and up to the first
error: each call gets the item at its turn, and calls beyond the last item get nothing.  To walk two
chains in a row is to walk the second from every object that the first leads to. -/
theorem start_yields_reach (root : Object) :
    (∀ chain, (start root chain).toList = cutAfterError (root.reach chain)) ∧
    (∀ chain earlier,
      (start root chain).answer? earlier = (cutAfterError (root.reach chain))[earlier]?) ∧
    ∀ front back, (start root (front ++ back)).toList =
      cutAfterError ((start root front).toList.flatMap
        (Node.onward back fun o => (start o back).toList)) := by
  refine ⟨toList_start root, ?_, ?_⟩
  · intro chain earlier
    rw [answer?_eq_getElem?, ← toList_eq_cutAfterError_ahead, toList_start]
  · intro front back
    have passes : ∀ fault, Node.onward back (Object.reach back) (.error fault) = [.error fault] :=
      fun _ => rfl
    have walked : (Node.onward back fun o => (start o back).toList) =
        fun item => cutAfterError (Node.onward back (Object.reach back) item) :=
      funext (onward_toList back)
    rw [toList_start, toList_start, Object.reach_append, walked, cutAfterError_flatMap _ passes]

end Walker

end GraphTemplate
