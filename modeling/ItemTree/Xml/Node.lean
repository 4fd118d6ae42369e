/-!
# Nodes of an export

A `Node` has a tag, attributes in strictly ascending order of their names, and children. Names are compared by code
points.
-/

namespace ItemTree

/-- names with values -/
abbrev Attributes := List (String × String)

namespace Attributes

/-- the value of a name, added or replaced; ascending names stay ascending -/
def insert (name value : String) : Attributes → Attributes
  | [] => [(name, value)]
  | (n, v) :: rest =>
    if name < n then (name, value) :: (n, v) :: rest
    else if name = n then (name, value) :: rest
    else (n, v) :: insert name value rest

/-- names strictly ascend -/
def Canonical (as : Attributes) : Prop := as.Pairwise fun a b => a.1 < b.1

end Attributes

structure Node where
  tag : String := ""
  attributes : Attributes := []
  children : List Node := []
  deriving Repr

namespace Node

/-- sets an attribute, replacing the value the name had -/
def set (n : Node) (name value : String) : Node := { n with attributes := Attributes.insert name value n.attributes }

def get? (n : Node) (name : String) : Option String := n.attributes.lookup name

/-- adds a child at the end -/
def push (n : Node) (child : Node) : Node := { n with children := n.children ++ [child] }

/-- the first child with a tag -/
def child? (n : Node) (tag : String) : Option Node := n.children.find? fun c => c.tag == tag

mutual
/-- number of nodes, the root included -/
def count : Node → Nat
  | ⟨_, _, children⟩ => 1 + countAll children
def countAll : List Node → Nat
  | [] => 0
  | n :: ns => n.count + countAll ns
end

mutual
/-- equality of nodes decided from the root down -/
def decEq : (a b : Node) → Decidable (a = b)
  | ⟨t, as, cs⟩, ⟨u, bs, ds⟩ =>
    if ht : t = u then
      if ha : as = bs then
        match decEqAll cs ds with
        | isTrue hc => isTrue (by rw [ht, ha, hc])
        | isFalse hc => isFalse fun h => hc (Node.mk.inj h).2.2
      else isFalse fun h => ha (Node.mk.inj h).2.1
    else isFalse fun h => ht (Node.mk.inj h).1
def decEqAll : (as bs : List Node) → Decidable (as = bs)
  | [], [] => isTrue rfl
  | [], _ :: _ => isFalse nofun
  | _ :: _, [] => isFalse nofun
  | a :: as, b :: bs =>
    match decEq a b, decEqAll as bs with
    | isTrue ha, isTrue hs => isTrue (by rw [ha, hs])
    | isFalse ha, _ => isFalse fun h => ha (List.cons.inj h).1
    | _, isFalse hs => isFalse fun h => hs (List.cons.inj h).2
end

instance : DecidableEq Node := decEq

mutual
/-- attribute names ascend at every depth -/
def Canonical : Node → Prop
  | ⟨_, as, children⟩ => as.Canonical ∧ CanonicalAll children
def CanonicalAll : List Node → Prop
  | [] => True
  | n :: ns => n.Canonical ∧ CanonicalAll ns
end

end Node

end ItemTree
