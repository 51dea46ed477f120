import DotGraph.Store

/-!
Links between bodies.  A body links to the subgraphs in its statement list and to those at the
ends of its edges; whatever it links to is written whenever it is written.
-/

namespace DotGraph

def Vertex.links : Vertex → List SubgraphId
  | node _ => []
  | subgraph s => [s]

def Clause.links : Clause → List SubgraphId
  | edge e => e.tail.links ++ e.head.links
  | _ => []

namespace Store

def memberLinks (σ : Store) : Member → List SubgraphId
  | .subgraph s => [s]
  | .statement i => ((σ.statement? i).map fun s => s.clause.links).getD []

/-- The subgraphs that a body links to, in the order of its statements. -/
def links (σ : Store) (b : BodyRef) : List SubgraphId :=
  (σ.members b).flatMap σ.memberLinks

/-- The link relation as a proposition. -/
def Linked (σ : Store) (b : BodyRef) (s : SubgraphId) : Prop :=
  s ∈ σ.links b

def subgraphIds (σ : Store) : List SubgraphId :=
  (List.range σ.subgraphs.size).map SubgraphId.mk

/-- Searches from the bodies on the work list for the target.  Each subgraph is opened once,
when it leaves the list of those not seen yet. -/
def searchLinks (σ : Store) (target : BodyRef) (unseen : List SubgraphId) :
    List SubgraphId → Bool
  | [] => false
  | current :: work =>
    if .subgraph current = target then true
    else if _h : current ∈ unseen then
      searchLinks σ target (unseen.erase current) (σ.links (.subgraph current) ++ work)
    else searchLinks σ target unseen work
termination_by work => (unseen.length, work.length)
decreasing_by
  · have := List.length_erase_of_mem _h
    have := List.length_pos_of_mem _h
    apply Prod.Lex.left
    omega
  · apply Prod.Lex.right
    simp

/-- Whether writing a subgraph comes to write a body. -/
def renders (σ : Store) (s : SubgraphId) (b : BodyRef) : Bool :=
  σ.searchLinks b σ.subgraphIds [s]

theorem mem_subgraphIds (σ : Store) (s : SubgraphId) :
    s ∈ σ.subgraphIds ↔ s.index < σ.subgraphs.size := by
  cases s
  simp [subgraphIds]

end Store

end DotGraph
