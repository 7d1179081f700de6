import Mathlib.Data.Finset.Card
import Mathlib.Data.Fintype.Card
import RelayStar.Impl.Bridge

/-!
# A mesh of bridges

Nodes that run the bridge of the firmware, and the receptions that are still to
come (`Mesh`). A step takes one of them out, runs a turn of the bridge of its
node, and puts in, for each frame that is forwarded, a reception at some of the
other nodes (`Heard`): who hears whom, what is lost and in which order
receptions are handled is left open.
-/

namespace RelayStar.Spec

/-- A relay with its capacities. -/
structure Node where
  NR : Nat
  NA : Nat
  NF : Nat
  relay : Relay NR NA NF

/-- A turn of the bridge of a node: the frames it forwards. -/
def Node.step (v : Node) (source : Transport) (bytes : List UInt8) : List PlannedFrame × Node :=
  ((v.relay.bridgeStep source bytes).1.2, { v with relay := (v.relay.bridgeStep source bytes).2 })

/-- A frame that is to arrive at a node. -/
structure Reception (n : Nat) where
  node : Fin n
  source : Transport
  bytes : List UInt8

/-- The receptions that frames forwarded by node `i` lead to: each frame is
heard by some of the other nodes, on its transport. -/
inductive Heard {n : Nat} (i : Fin n) : List PlannedFrame → Multiset (Reception n) → Prop
  | nil : Heard i [] 0
  | cons (f : PlannedFrame) (js : Finset (Fin n)) (hi : i ∉ js) {fs : List PlannedFrame}
      {rs : Multiset (Reception n)} (h : Heard i fs rs) :
      Heard i (f :: fs) (js.val.map (⟨·, f.transport, f.message.wire⟩) + rs)

/-- The nodes of a mesh, and the receptions to come. -/
structure Mesh (n : Nat) where
  nodes : Fin n → Node
  pending : Multiset (Reception n)

/-- One reception is handled. -/
inductive Mesh.Step {n : Nat} : Mesh n → Mesh n → Prop
  | receive (nodes : Fin n → Node) (c : Reception n) (rest rs : Multiset (Reception n))
      (h : Heard c.node ((nodes c.node).step c.source c.bytes).1 rs) :
      Step ⟨nodes, c ::ₘ rest⟩
        ⟨Function.update nodes c.node ((nodes c.node).step c.source c.bytes).2, rest + rs⟩

end RelayStar.Spec
