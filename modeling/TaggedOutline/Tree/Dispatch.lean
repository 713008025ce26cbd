import TaggedOutline.Handler

/-!
# Dispatch

The handler of a node is looked for from its parent up to the root.  Each node on the way is asked
for a handler of the tag: the overrides set on it, then the table of its own handler, then the
table of the registry for its tag.  If none has one, the handler that the registry has for the tag
applies, and else the generic one.  What is found is kept on the node, so later overrides do not
change it.
-/

namespace TaggedOutline

namespace Registry

/-- The nearest handler of a tag on a way up, with the handlers of the nodes on it looked up by
`resolve`. -/
def inherit (r : Registry) (resolve : Tree Handler → NodeId → Handler × Tree Handler)
    (tag : Text) : List NodeId → Tree Handler → Option Handler × Tree Handler
  | [], t => (none, t)
  | id :: above, t =>
    match t.node? id with
    | none => (none, t)
    | some node =>
      match node.overrides.lookup tag with
      | some h => (some h, t)
      | none =>
        let (own, t) := resolve t id
        match own.beneath.lookup tag with
        | some h => (some h, t)
        | none =>
          match r.handlerBeneath? node.tag tag with
          | some h => (some h, t)
          | none => r.inherit resolve tag above t

/-- The handler of a node, looked for at most a number of nodes high. -/
def resolveWithin (r : Registry) : Nat → Tree Handler → NodeId → Handler × Tree Handler
  | 0, t, _ => (.generic, t)
  | height + 1, t, id =>
    match t.node? id with
    | none => (.generic, t)
    | some node =>
      match node.handler with
      | some h => (h, t)
      | none =>
        let (found, t) := r.inherit (r.resolveWithin height) node.tag (t.ancestors id) t
        let h := found.getD ((r.handler? node.tag).getD .generic)
        (h, t.update id fun n => { n with handler := some h })

/-- The handler of a node, and the tree that remembers it. -/
def resolve (r : Registry) (t : Tree Handler) (id : NodeId) : Handler × Tree Handler :=
  r.resolveWithin (id + 1) t id

end Registry

end TaggedOutline
