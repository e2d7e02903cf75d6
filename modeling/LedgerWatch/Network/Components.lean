import LedgerWatch.Network.Graph

/-!
Connected components among chosen actors. The walk keeps a stack of actors to visit and the actors
that have not been reached yet. An actor moves from the one to the other once, so the walk ends.
-/

namespace LedgerWatch.Network

/-- Puts each candidate that has not been reached onto the stack. -/
def reach : List Actor → List Actor × List Actor → List Actor × List Actor
  | [], state => state
  | a :: as, (stack, unreached) =>
    if a ∈ unreached then reach as (a :: stack, unreached.erase a)
    else reach as (stack, unreached)

theorem length_reach (candidates : List Actor) (stack unreached : List Actor) :
    (reach candidates (stack, unreached)).1.length +
      (reach candidates (stack, unreached)).2.length = stack.length + unreached.length := by
  induction candidates generalizing stack unreached with
  | nil => rfl
  | cons a as ih =>
    unfold reach
    split
    · rename_i h
      rw [ih, List.length_erase_of_mem h, List.length_cons]
      have := List.length_pos_of_mem h
      omega
    · rw [ih]

namespace Graph

/-- The actors visited from a stack, in order, and those that stay unreached. -/
def visit (g : Graph) (stack unreached : List Actor) : List Actor × List Actor :=
  match stack with
  | [] => ([], unreached)
  | a :: rest =>
    let state := reach (g.neighbors a) (rest, unreached)
    have := length_reach (g.neighbors a) rest unreached
    let (visited, left) := visit g state.1 state.2
    (a :: visited, left)
termination_by stack.length + unreached.length
decreasing_by simp only [List.length_cons]; omega

/-- The components that begin with the unreached ones among some actors. -/
def componentsFrom (g : Graph) : List Actor → List Actor → List (List Actor)
  | [], _ => []
  | a :: as, unreached =>
    if a ∈ unreached then
      let (component, left) := g.visit [a] (unreached.erase a)
      component :: componentsFrom g as left
    else componentsFrom g as unreached

/-- The connected components of the network among `members` only, by their least actors. -/
def components (g : Graph) (members : List Actor) : List (List Actor) :=
  let members := Sorted.distinct members
  g.componentsFrom members members

end Graph

end LedgerWatch.Network
