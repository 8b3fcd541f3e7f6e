import BsaAcs.Lib.Layout
import BsaAcs.Iovirt.Iort
import Mathlib.Logic.Relation

namespace Iovirt

namespace IortNode

def numDataMap (node : IortNode) : Nat :=
  match node.data with
  | .itsGroup identifiers => (identifiers.length + 3) / 4
  | _                     => node.mappings.length

def size (node : IortNode) : Nat :=
  dataMapWord + dataMapSize * node.numDataMap

-- The words of its block that are compared when a node is searched.
def cmpSize (node : IortNode) : Nat :=
  match node.data with
  | .itsGroup identifiers => flagsWord + (identifiers.length + 1)
  | _                     => flagsWord

-- The mappings that are followed.
def maps (node : IortNode) : List IortIdMapping :=
  if node.data.type = .itsGroup then [] else node.mappings

def reference? (node : IortNode) : Option Nat :=
  match node.data with
  | .pmcg _ _ nodeReference => some nodeReference
  | _                       => none

def references (node : IortNode) : List Nat :=
  node.reference?.toList ++ node.mappings.map (·.outputReference)

-- The words of a block that has just been populated, where `ref` is the offset of the block that a PMCG
-- belongs to.
def word (node : IortNode) (ref w : Nat) : Nat :=
  if w = 0 then node.data.type.code
  else if w = numDataMapWord then node.numDataMap
  else if w = dataWord + nodeRefWord ∧ node.data.type = .pmcg then ref
  else if w < flagsWord then node.data.word (w - dataWord)
  else
    match node.data with
    | .itsGroup identifiers => if w = flagsWord then 0 else identifiers.getD (w - dataMapWord) 0
    | _                     => 0

end IortNode

def NodeData.smmuBase : NodeData → Nat
  | smmu base _ => base
  | smmuV3 base => base
  | _           => 0

-- The base that a mapping to `target` leaves in the field of the root complex.
def baseLeft (node target : IortNode) : Nat :=
  if node.data.type = .pciRootComplex then target.data.smmuBase else 0

namespace Iort

def owner (iort : Iort) (node : IortNode) : Option IortNode :=
  node.reference?.bind iort.nodeAt

def target (iort : Iort) (node : IortNode) (i : Nat) : Option IortNode :=
  node.maps[i]?.bind fun map => iort.nodeAt map.outputReference

def Refers (iort : Iort) (node node' : IortNode) : Prop :=
  node ∈ iort ∧ ∃ ref ∈ node.references, iort.nodeAt ref = some node'

structure WellFormed (iort : Iort) : Prop where
  offsets : (iort.map (·.offset)).Nodup
  differ  : iort.Pairwise fun node node' => node.data.type ≠ node'.data.type ∨
    node.mappings.length ≠ node'.mappings.length ∨ node.data ≠ node'.data
  closed  : ∀ node ∈ iort, ∀ ref ∈ node.references, ∃ node', iort.nodeAt ref = some node'
  acyclic : ∀ node, ¬Relation.TransGen iort.Refers node node

end Iort

-- A walk through the nodes in table order, where the nodes that a node refers to come right behind it.
-- The nodes that have been met lie in the order of `placed`. Those that are not open anymore are
-- `closed`, and of each the first `followed` mappings have been followed.
structure Walk where
  placed   : List IortNode
  closed   : List IortNode
  followed : IortNode → Nat

namespace Walk

def start : Walk where
  placed   := []
  closed   := []
  followed := fun _ => 0

def place (w : Walk) (node : IortNode) : Walk :=
  { w with placed := w.placed ++ [node], followed := Function.update w.followed node 0 }

def follow (w : Walk) (node : IortNode) (i : Nat) : Walk :=
  { w with followed := Function.update w.followed node i }

def close (w : Walk) (node : IortNode) : Walk :=
  { w with closed := w.closed ++ [node] }

-- As many of the first blocks are searched as have been closed, no matter which.
def visible (w : Walk) : List IortNode :=
  w.placed.take w.closed.length

def position (w : Walk) (node : IortNode) : Nat :=
  Layout.position IortNode.size node firstBlock w.placed

def next (w : Walk) : Nat :=
  Layout.ending IortNode.size firstBlock w.placed

variable (iort : Iort)

-- The words of the block that is searched when a node is met, and the words of a block in the table.
def word (w : Walk) (node : IortNode) (x : Nat) : Nat :=
  match iort.owner node with
  | some owner => node.word (4 * w.position owner) x
  | none       => node.word 0 x

def blockWord (w : Walk) (node : IortNode) (x : Nat) : Nat :=
  match w.followed node with
  | 0     => w.word iort node x
  | i + 1 =>
    let base := ((iort.target node i).map (baseLeft node)).getD 0
    if x = dataWord + rcSmmuBaseWord then base % 2 ^ 32
    else if x = dataWord + rcSmmuBaseWord + 1 then base / 2 ^ 32
    else w.word iort node x

def Matches (w : Walk) (node other : IortNode) : Prop :=
  node.data.type = other.data.type ∧ ∀ x < other.cmpSize, w.word iort node x = w.blockWord iort other x

-- A node that is met again is found if its block is visible, unchanged and the only one that matches.
inductive Found (w : Walk) : IortNode → Prop
  | node {node} :
    (node.reference? = none) → (node ∈ w.visible) →
    (∀ other ∈ w.visible, w.Matches iort node other ↔ other = node) → Found w node
  | pmcg {node ref owner} :
    (node.reference? = some ref) → (iort.nodeAt ref = some owner) → Found w owner → (node ∈ w.visible) →
    (∀ other ∈ w.visible, w.Matches iort node other ↔ other = node) → Found w node

-- The node that a PMCG belongs to has to be there before it.
def OwnerFound (w : Walk) (node : IortNode) : Prop :=
  node.reference? = none ∨ ∃ ref owner, node.reference? = some ref ∧ iort.nodeAt ref = some owner ∧ w.Found iort owner

inductive Task
  | meet (node : IortNode)
  | follow (node : IortNode) (i : Nat)

inductive Visits : Walk → Task → Walk → Prop
  | again {w node} : Found iort w node → Visits w (.meet node) w
  | place {w w' node} :
    (node ∉ w.placed) → (OwnerFound iort w node) → (∀ other ∈ w.visible, ¬w.Matches iort node other) →
    (4 * w.next < 2 ^ 32) → Visits (w.place node) (.follow node 0) w' → Visits w (.meet node) (w'.close node)
  | done {w node} : Visits w (.follow node node.maps.length) w
  | follow {w w₁ w₂ node target i map} :
    (node.maps[i]? = some map) → (iort.nodeAt map.outputReference = some target) →
    Visits w (.meet target) w₁ → Visits (w₁.follow node (i + 1)) (.follow node (i + 1)) w₂ →
    Visits w (.follow node i) w₂

inductive VisitsAll : Walk → List IortNode → Walk → Prop
  | nil {w} : VisitsAll w [] w
  | cons {w w₁ w₂ node nodes} :
    Visits iort w (.meet node) w₁ → VisitsAll w₁ nodes w₂ → VisitsAll w (node :: nodes) w₂

end Walk

-- Whenever a node is met again, it is found, and what is not found has not been met.
def Iort.Orderly (iort : Iort) : Prop :=
  ∃ w, Walk.VisitsAll iort Walk.start iort w

def isSmmuNode (type : Nat) : Bool :=
  decide (type = NodeType.smmu.code) || decide (type = NodeType.smmuV3.code)

def IovirtInfoTable.countOf (table : IovirtInfoTable) (p : Nat → Bool) : Nat :=
  table.blocks.countP fun block => p (table.mem block)

-- The block at `block` is the one of the node, as far as it does not depend on other blocks.
def IsBlockOf (mem : Memory) (node : IortNode) (block : Nat) : Prop :=
  mem block = node.data.type.code ∧
  mem (block + numDataMapWord) = node.numDataMap ∧
  (∀ w < dataSize, w ≠ rcSmmuBaseWord → w ≠ rcSmmuBaseWord + 1 → (w = nodeRefWord → node.data.type ≠ .pmcg) →
    mem (block + dataWord + w) = node.data.word w) ∧
  (∀ i identifiers, node.data = .itsGroup identifiers → i < identifiers.length →
    mem (dataMap block 0 + i) = identifiers.getD i 0) ∧
  ∀ i map, node.maps[i]? = some map →
    inputBase mem (dataMap block i) = map.inputBase ∧ idCount mem (dataMap block i) = map.idCount ∧
    outputBase mem (dataMap block i) = map.outputBase

-- The table has one block for each node, it counts its blocks, and its references lead to the blocks of
-- the nodes that are referred to.
structure Describes (table : IovirtInfoTable) (iort : Iort) (blockOf : IortNode → Nat) : Prop where
  blocks          : table.blocks.Perm (iort.map blockOf)
  distinct        : table.blocks.Nodup
  block           : ∀ node ∈ iort, IsBlockOf table.mem node (blockOf node)
  total           : table.numBlocks = table.numSmmus + table.numPciRcs + table.numNamedComponents +
    table.numItsGroups + table.numPmcgs
  smmus           : table.numSmmus = table.countOf isSmmuNode
  pciRcs          : table.numPciRcs = table.countOf (· = NodeType.pciRootComplex.code)
  namedComponents : table.numNamedComponents = table.countOf (· = NodeType.namedComponent.code)
  itsGroups       : table.numItsGroups = table.countOf (· = NodeType.itsGroup.code)
  pmcgs           : table.numPmcgs = table.countOf (· = NodeType.pmcg.code)
  outputRefs      : ∀ node ∈ iort, ∀ i map target, node.maps[i]? = some map →
    iort.nodeAt map.outputReference = some target →
    outputRef table.mem (dataMap (blockOf node) i) = 4 * blockOf target
  nodeRefs        : ∀ node ∈ iort, ∀ ref owner, node.reference? = some ref → iort.nodeAt ref = some owner →
    table.mem (blockOf node + dataWord + nodeRefWord) = 4 * blockOf owner

-- The table is created, given a deep enough stack, and describes the nodes, whatever the buffer held.
def Translates (iort : Iort) : Prop :=
  ∀ mem, ∃ table blockOf, (∃ n, ∀ fuel ≥ n, palIovirtCreateInfoTable iort fuel mem = some table) ∧
    Describes table iort blockOf

end Iovirt
