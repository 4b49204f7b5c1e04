-- The graph of references. A node reads from other nodes, some of which
-- are nodes of the graph themselves. The order of evaluation takes a node
-- after the nodes it reads from; nodes on a cycle, and all that read from
-- one, stay blocked.
import Worksheet.OrderedMap

namespace Worksheet

/-! ## The graph -/

/-- Nodes in the order of their first registration, with the nodes that
each one reads from, and for any node its readers. -/
structure ReferenceGraph (α : Type) where
  reads : OrderedMap α (List α)
  readers : OrderedMap α (List α)

/-- The list with only the first of equal members. -/
def firstOnly {α : Type} [DecidableEq α] : List α → List α
  | [] => []
  | a :: rest => a :: (firstOnly rest).filter fun b => !decide (b = a)

namespace ReferenceGraph

variable {α : Type} [DecidableEq α]

/-- The graph without nodes. -/
def empty : ReferenceGraph α := ⟨OrderedMap.empty, OrderedMap.empty⟩

/-- The registered nodes, oldest first. -/
def nodes (g : ReferenceGraph α) : List α := g.reads.keys

/-- The nodes that a node reads from. -/
def readsOf (g : ReferenceGraph α) (n : α) : List α := (g.reads.get? n).getD []

/-- The nodes that read from a node. -/
def readersOf (g : ReferenceGraph α) (n : α) : List α := (g.readers.get? n).getD []

/-- Adds a reader to the readers of a node, once. -/
def addReader (readers : OrderedMap α (List α)) (n reader : α) : OrderedMap α (List α) :=
  let old := (readers.get? n).getD []
  readers.insert n (if decide (reader ∈ old) then old else old ++ [reader])

/-- Registers a node with the nodes it reads from. A second registration
replaces what it reads from; the readers that were known stay known. -/
def register (g : ReferenceGraph α) (n : α) (reads : List α) : ReferenceGraph α :=
  let reads := firstOnly reads
  ⟨g.reads.insert n reads,
    reads.foldl (fun readers r => addReader readers r n) g.readers⟩

/-! ## Order of evaluation -/

/-- The number of registered nodes that a node reads from. -/
def waitsFor (g : ReferenceGraph α) (n : α) : Nat :=
  ((g.readsOf n).filter fun r => decide (r ∈ g.nodes)).length

/-- What is left of that number when some nodes are done. -/
def waiting (g : ReferenceGraph α) (done : List α) (n : α) : Int :=
  (g.waitsFor n : Int) - ((done.filter fun d => decide (n ∈ g.readersOf d)).length : Int)

/-- The readers of the last node done that wait for nothing any more, in
the order of registration. -/
def released (g : ReferenceGraph α) (done : List α) (last : α) : List α :=
  g.nodes.filter fun n =>
    decide (n ∈ g.readersOf last) && g.waiting (done ++ [last]) n == 0

/-- Takes the first node of the queue, and puts the nodes that it releases
at the end. There are no more steps than nodes. -/
def settle (g : ReferenceGraph α) : Nat → List α → List α → List α
  | 0, _, done => done
  | _, [], done => done
  | steps + 1, n :: queue, done =>
    settle g steps (queue ++ g.released done n) (done ++ [n])

/-- The nodes that can be evaluated, each after those it reads from. -/
def order (g : ReferenceGraph α) : List α :=
  g.settle g.nodes.length (g.nodes.filter fun n => g.waitsFor n == 0) []

/-- The nodes on a cycle, or reading from one. -/
def blocked (g : ReferenceGraph α) : List α :=
  let done := g.order
  g.nodes.filter fun n => !decide (n ∈ done)

/-- The order of all nodes, or the blocked nodes if there are any. -/
def fullOrder (g : ReferenceGraph α) : Except (List α) (List α) :=
  if g.blocked.isEmpty then .ok g.order else .error g.blocked

/-! ## Cycles -/

/-- Adds the readers of the newest nodes, round by round. -/
def spread (g : ReferenceGraph α) : Nat → List α → List α → List α
  | 0, reached, _ => reached
  | rounds + 1, reached, newest =>
    let next := firstOnly ((newest.flatMap g.readersOf).filter fun n => !decide (n ∈ reached))
    if next.isEmpty then reached else spread g rounds (reached ++ next) next

/-- All nodes that read from a node, directly or through others. -/
def allReadersOf (g : ReferenceGraph α) (n : α) : List α :=
  let start := firstOnly (g.readersOf n)
  g.spread g.nodes.length start start

/-- The nodes that read from themselves, directly or through others. -/
def onCycle (g : ReferenceGraph α) : List α :=
  g.blocked.filter fun n => decide (n ∈ g.allReadersOf n)

end ReferenceGraph

end Worksheet
